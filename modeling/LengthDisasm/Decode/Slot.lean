import LengthDisasm.Opcode.Map

/-!
# Literal slots

After the opcode and the addressing bytes an instruction has a fixed sequence of literals: perhaps a
displacement, then the immediates. Their widths follow from mode, prefixes and opcode alone, so the
sequence is known before it is read.

## Main definitions

* `Slot` — one literal to be read, and what it sets
* `Slot.displacement` — the displacement of an addressing form
* `Immediates.slots` — the immediates of an opcode
* `Slot.readAll` — read a sequence of slots into an instruction
-/

namespace LengthDisasm

/-- A literal of an instruction that is still to be read. -/
structure Slot where
  /-- The width of the literal in bits. -/
  width : Nat
  /-- The flags that say that it is present. -/
  flags : InsnFlags
  /-- The literal is kept as the displacement and not as the immediate. -/
  isDisp : Bool
deriving DecidableEq, Repr

namespace Slot

/-- An 8-bit immediate. -/
def imm8 : Slot := ⟨8, .imm8, false⟩

/-- A 16-bit immediate. -/
def imm16 : Slot := ⟨16, .imm16, false⟩

/-- A 32-bit immediate. -/
def imm32 : Slot := ⟨32, .imm32, false⟩

/-- A 64-bit immediate. -/
def imm64 : Slot := ⟨64, .imm64, false⟩

/-- The branch distance that an immediate slot holds. -/
def relative (s : Slot) : Slot := { s with flags := .relative ||| s.flags }

/-- The 16-bit selector of a far pointer, whose offset has 32 or 16 bits. -/
def selector (offset16 : Bool) : Slot :=
  ⟨16, if offset16 then .twoImm16 else .imm16, true⟩

/-- The displacement of an addressing form: `form` and `rm` from ModRM, `addr16` for 16-bit
addressing, and the SIB byte if there is one. -/
def displacement (addr16 : Bool) (form : BitVec 2) (rm : BitVec 3) (sib : Option Sib) : List Slot :=
  let disp8 : Slot := ⟨8, .disp8, true⟩
  let disp16 : Slot := ⟨16, .disp16, true⟩
  let disp32 : Slot := ⟨32, .disp32, true⟩
  let noBase := match sib with
    | some s => s.base == 5 && (form == 0 || form == 2)
    | none => false
  if noBase then [disp32]
  else if form = 0 then
    if addr16 then (if rm = 6 then [disp16] else [])
    else (if rm = 5 then [disp32] else [])
  else if form = 1 then [disp8]
  else if form = 2 then (if addr16 then [disp16] else [disp32])
  else []

/-- Keep a literal that was read for this slot. -/
def store (s : Slot) (l : Literal) (i : Instruction) : Instruction :=
  if s.isDisp then { i with flags := i.flags ||| s.flags, disp := some l }
  else { i with flags := i.flags ||| s.flags, imm := some l }

/-- Read the literals of the slots in order; of several immediates the last one is kept. -/
def readAll : List Slot → Instruction → Cursor → Except DecodeError (Instruction × Cursor)
  | [], i, c => .ok (i, c)
  | s :: slots, i, c => do
    let (l, c) ← Literal.read s.width c
    readAll slots (s.store l i) c

theorem advances_of_readAll {slots : List Slot} {i i' : Instruction} {c c' : Cursor}
    (h : readAll slots i c = .ok (i', c')) : c.Advances c' := by
  induction slots generalizing i c with
  | nil =>
    cases h
    exact .refl _
  | cons s slots ih =>
    simp only [readAll, bind, Except.bind] at h
    split at h
    · cases h
    · rename_i r hr
      exact (Literal.advances_of_read hr).trans (ih h)

end Slot

/-- The literals of the immediates, given what the head says about operand size. -/
def Immediates.slots (mode : Mode) (operand16 operand64 : Bool) : Immediates → List Slot
  | .none => []
  | .byte => [.imm8]
  | .word => [.imm16]
  | .wordByte => [.imm16, .imm8]
  | .operand =>
    if mode.isLong && operand64 then [.imm64]
    else if operand16 then [.imm16]
    else [.imm32]
  | .farPointer =>
    if operand16 then [.imm16, .selector true] else [.imm32, .selector false]
  | .short => [Slot.imm8.relative]
  | .near => if operand16 then [Slot.imm16.relative] else [Slot.imm32.relative]

end LengthDisasm
