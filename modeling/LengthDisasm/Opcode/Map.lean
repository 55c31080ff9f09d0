import LengthDisasm.Instruction.Basic

/-!
# Opcode maps

An opcode map says for each opcode byte what follows it: whether there is a ModRM byte, which
immediates there are, and for opcode groups which values of the register field are undefined.

## Main definitions

* `Immediates` — the immediates of an instruction, before operand size is known
* `Form` — an entry of an opcode map
* `OpcodeMap.primary`, `OpcodeMap.secondary` — the maps of one-byte and of escaped opcodes
* `Mode.form?` — the entry of an opcode, `none` if it is undefined in the mode
-/

namespace LengthDisasm

/-- The immediates that follow the addressing bytes. -/
inductive Immediates where
  /-- No immediate. -/
  | none
  /-- One byte. -/
  | byte
  /-- Two bytes. -/
  | word
  /-- Two bytes and one byte, as in ENTER. -/
  | wordByte
  /-- As wide as the operand size says. -/
  | operand
  /-- An offset as wide as the operand size says and a 16-bit selector. -/
  | farPointer
  /-- A branch distance of one byte. -/
  | short
  /-- A branch distance as wide as the operand size says. -/
  | near
deriving DecidableEq, Repr

/-- A set of values of a three-bit register field: bit 7 stands for 0 and bit 0 for 7. -/
structure RegSet where
  bits : BitVec 8
deriving DecidableEq, Repr

namespace RegSet

/-- The set without values. -/
def empty : RegSet := ⟨0⟩

/-- The value is in the set. -/
def contains (s : RegSet) (reg : BitVec 3) : Bool := s.bits.getMsbD reg.toNat

end RegSet

/-- What follows an opcode. -/
structure Form where
  /-- A ModRM byte follows. -/
  hasModRM : Bool
  /-- The immediates at the end. -/
  immediates : Immediates
  /-- The register field values for which the opcode is undefined. -/
  undefinedRegs : RegSet
deriving DecidableEq, Repr

/-- An opcode map: 16 rows of 16 entries, `none` for an undefined opcode. -/
abbrev OpcodeMap := List (List (Option Form))

namespace OpcodeMap

/-- The entry in the row of the high and the column of the low four bits. -/
def get? (map : OpcodeMap) (b : Byte) : Option Form := do
  let row ← map[b.toNat / 16]?
  let entry ← row[b.toNat % 16]?
  entry

/-! ### Entries

The names follow the usual shorthand: `m` for ModRM, `ib` for a byte, `iw` for a word, `iz` for an
operand-sized immediate, `jb` and `jz` for branch distances, `ap` for a far pointer. -/

/-- An undefined opcode. -/
def xx : Option Form := none

/-- Nothing follows. -/
def op : Option Form := some ⟨false, .none, .empty⟩

/-- A byte follows. -/
def ib : Option Form := some ⟨false, .byte, .empty⟩

/-- A word follows. -/
def iw : Option Form := some ⟨false, .word, .empty⟩

/-- A word and a byte follow. -/
def wb : Option Form := some ⟨false, .wordByte, .empty⟩

/-- An operand-sized immediate follows. -/
def iz : Option Form := some ⟨false, .operand, .empty⟩

/-- A far pointer follows. -/
def ap : Option Form := some ⟨false, .farPointer, .empty⟩

/-- A short branch distance follows. -/
def jb : Option Form := some ⟨false, .short, .empty⟩

/-- A near branch distance follows. -/
def jz : Option Form := some ⟨false, .near, .empty⟩

/-- A ModRM byte follows. -/
def m : Option Form := some ⟨true, .none, .empty⟩

/-- A ModRM byte and a byte follow. -/
def mb : Option Form := some ⟨true, .byte, .empty⟩

/-- A ModRM byte and an operand-sized immediate follow. -/
def mz : Option Form := some ⟨true, .operand, .empty⟩

/-- A group: a ModRM byte whose register field must not be in `regs`, then the immediates. -/
def group (immediates : Immediates) (regs : BitVec 8) : Option Form :=
  some ⟨true, immediates, ⟨regs⟩⟩

/-! ### Maps -/

/-- The one-byte opcodes in 32-bit mode. -/
def primary32 : OpcodeMap :=
  [ [m, m, m, m, ib, iz, op, op, m, m, m, m, ib, iz, op, op],
    [m, m, m, m, ib, iz, op, op, m, m, m, m, ib, iz, op, op],
    [m, m, m, m, ib, iz, op, op, m, m, m, m, ib, iz, op, op],
    [m, m, m, m, ib, iz, op, op, m, m, m, m, ib, iz, op, op],
    [op, op, op, op, op, op, op, op, op, op, op, op, op, op, op, op],
    [op, op, op, op, op, op, op, op, op, op, op, op, op, op, op, op],
    [op, op, m, m, op, op, op, op, iz, mz, ib, mb, op, op, op, op],
    [jb, jb, jb, jb, jb, jb, jb, jb, jb, jb, jb, jb, jb, jb, jb, jb],
    [mb, mz, mb, mb, m, m, m, m, m, m, m, m, m, m, m, group .none 0x7f],
    [op, op, op, op, op, op, op, op, op, op, ap, op, op, op, op, op],
    [iz, iz, iz, iz, op, op, op, op, ib, iz, op, op, op, op, op, op],
    [ib, ib, ib, ib, ib, ib, ib, ib, iz, iz, iz, iz, iz, iz, iz, iz],
    [mb, mb, iw, op, m, m, group .byte 0x7f, group .operand 0x7f, wb, op, iw, op, op, ib, op, op],
    [m, m, m, m, ib, ib, op, op, m, m, m, m, m, m, m, m],
    [jb, jb, jb, jb, ib, ib, ib, ib, jz, jz, ap, jb, op, op, op, op],
    [op, op, op, op, op, op, m, m, op, op, op, op, op, op, group .none 0x3f, group .none 0x01] ]

/-- The one-byte opcodes in 64-bit mode. -/
def primary64 : OpcodeMap :=
  [ [m, m, m, m, ib, iz, xx, xx, m, m, m, m, ib, iz, op, xx],
    [m, m, m, m, ib, iz, xx, xx, m, m, m, m, ib, iz, xx, xx],
    [m, m, m, m, ib, iz, op, xx, m, m, m, m, ib, iz, op, xx],
    [m, m, m, m, ib, iz, op, xx, m, m, m, m, ib, iz, op, xx],
    [op, op, op, op, op, op, op, op, op, op, op, op, op, op, op, op],
    [op, op, op, op, op, op, op, op, op, op, op, op, op, op, op, op],
    [xx, xx, xx, m, op, op, op, op, iz, mz, ib, mb, op, op, op, op],
    [jb, jb, jb, jb, jb, jb, jb, jb, jb, jb, jb, jb, jb, jb, jb, jb],
    [mb, mz, xx, mb, m, m, m, m, m, m, m, m, m, m, m, group .none 0x7f],
    [op, op, op, op, op, op, op, op, op, op, xx, op, op, op, xx, xx],
    [iz, iz, iz, iz, op, op, op, op, ib, iz, op, op, op, op, op, op],
    [ib, ib, ib, ib, ib, ib, ib, ib, iz, iz, iz, iz, iz, iz, iz, iz],
    [mb, mb, iw, op, xx, xx, group .byte 0x7f, group .operand 0x7f, wb, op, iw, op, op, ib, xx, op],
    [m, m, m, m, xx, xx, xx, op, m, m, m, m, m, m, m, m],
    [jb, jb, jb, jb, ib, ib, ib, ib, jz, jz, xx, jb, op, op, op, op],
    [op, op, op, op, op, op, m, m, op, op, op, op, op, op, group .none 0x3f, group .none 0x01] ]

/-- The opcodes after the escape byte, in both modes. -/
def secondary : OpcodeMap :=
  [ [group .none 0x03, group .none 0x04, m, m, xx, op, op, op, op, op, xx, xx, xx, m, op, mb],
    [m, m, m, m, m, m, m, m, m, m, m, m, m, m, m, m],
    [m, m, m, m, xx, xx, xx, xx, m, m, m, m, m, m, m, m],
    [op, op, op, op, op, op, xx, xx, xx, xx, xx, xx, xx, xx, xx, xx],
    [m, m, m, m, m, m, m, m, m, m, m, m, m, m, m, m],
    [m, m, m, m, m, m, m, m, m, m, m, m, m, m, m, m],
    [m, m, m, m, m, m, m, m, m, m, m, m, m, m, m, m],
    [mb, group .byte 0xd5, group .byte 0xd5, group .byte 0xcc, m, m, m, op,
      op, op, xx, xx, m, m, m, m],
    [jz, jz, jz, jz, jz, jz, jz, jz, jz, jz, jz, jz, jz, jz, jz, jz],
    [m, m, m, m, m, m, m, m, m, m, m, m, m, m, m, m],
    [op, op, op, m, mb, m, xx, xx, op, op, op, m, mb, m, m, m],
    [m, m, m, m, m, m, m, m, op, xx, group .byte 0xf0, m, m, m, m, m],
    [m, m, mb, m, mb, mb, mb, group .none 0xbc, op, op, op, op, op, op, op, op],
    [m, m, m, m, m, m, m, m, m, m, m, m, m, m, m, m],
    [m, m, m, m, m, m, m, m, m, m, m, m, m, m, m, m],
    [m, m, m, m, m, m, m, m, m, m, m, m, m, m, m, xx] ]

/-- The one-byte opcodes of a mode. -/
def primary : Mode → OpcodeMap
  | .protected32 => primary32
  | .long64 => primary64

end OpcodeMap

/-- What follows an opcode in a mode, `none` if the opcode is undefined there. -/
def Mode.form? (mode : Mode) : Opcode → Option Form
  | .primary b => (OpcodeMap.primary mode).get? b
  | .escaped b => OpcodeMap.secondary.get? b

end LengthDisasm
