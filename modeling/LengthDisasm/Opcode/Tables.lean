import LengthDisasm.Instruction.Basic
import LengthDisasm.Slice

/-!
# Packed opcode tables

Each mode has its classification data in one run of bytes, which is divided into parts. The parts of
opcodes are read in two levels: the upper six bits of an opcode select a row, which says where four
entries stand, and the lower two bits select one of them. Rows can share entries. The parts of rules
are lists of records whose first byte is the opcode.

Every place is checked: a byte outside the data is a `Fault`.

## Main definitions

* `Shape.has` — the bits of the byte that says what follows an opcode
* `OpcodeTables` — the data of a mode and where its parts start
* `Mode.tables` — the data of each mode
* `OpcodeTables.lookup` — an entry in two levels
* `OpcodeTables.shape`, `OpcodeTables.group`, `OpcodeTables.entry?` — the shape of an opcode
* `OpcodeTables.refusedPrefixes`, `OpcodeTables.x87Mask`, `OpcodeTables.allowsLock`,
  `OpcodeTables.deniesRegister` — the rules
-/

namespace LengthDisasm

namespace Shape

/-- A ModRM byte follows. -/
def modrm : Byte := 0x01
/-- An 8-bit immediate follows. -/
def byte : Byte := 0x02
/-- A 16-bit immediate follows. -/
def word : Byte := 0x04
/-- An immediate follows that is as wide as the operand size says. -/
def operand : Byte := 0x10
/-- An 8-bit branch distance follows. -/
def short : Byte := 0x20
/-- A branch distance follows that is as wide as the operand size says. -/
def near : Byte := 0x40
/-- The other bits say where the shape of a group stands. -/
def group : Byte := 0x80
/-- The opcode is undefined. -/
def undefined : Byte := 0xff

/-- Some bit of `bits` is set in the shape. -/
def has (shape bits : Byte) : Bool := shape &&& bits != 0

end Shape

/-- The classification data of a mode. -/
structure OpcodeTables where
  /-- All parts, one after the other. The rows of one-byte opcodes come first. -/
  bytes : List Byte
  /-- The start of the rows of escaped opcodes. -/
  escapedStart : Nat
  /-- The start of the x87 masks for memory operands. -/
  x87MemoryStart : Nat
  /-- The start of the x87 masks for registers. -/
  x87RegisterStart : Nat
  /-- The start of the rows of refused prefixes. -/
  refusedStart : Nat
  /-- The start of the one-byte opcodes that can be locked. -/
  lockStart : Nat
  /-- The start of the escaped opcodes that can be locked. -/
  lockEscapedStart : Nat
  /-- The start of the one-byte opcodes that take memory only. -/
  memoryStart : Nat
  /-- The start of the escaped opcodes that take memory only. -/
  memoryEscapedStart : Nat

namespace OpcodeTables

/-! ### Data -/

/-- The classification data of 32-bit mode. -/
def bytes32 : List Byte :=
  [ -- one-byte opcodes: rows and groups
    0xa3, 0xa8, 0xa3, 0xa8, 0xa3, 0xa8, 0xa3, 0xa8, 0xa3, 0xa8, 0xa3, 0xa8, 0xa3, 0xa8, 0xa3,
    0xa8, 0xaa, 0xaa, 0xaa, 0xaa, 0xaa, 0xaa, 0xaa, 0xaa, 0xac, 0xaa, 0xb2, 0xaa, 0x9f, 0x9f,
    0x9f, 0x9f, 0xb5, 0xa3, 0xa3, 0xa4, 0xaa, 0xaa, 0xba, 0xaa, 0x96, 0xaa, 0xa8, 0xaa, 0xc3,
    0xc3, 0x96, 0x96, 0xb7, 0xae, 0xd6, 0xbd, 0xa3, 0xc5, 0xa3, 0xa3, 0x9f, 0xc3, 0x9c, 0xaa,
    0xaa, 0xac, 0xaa, 0xbf, 0x03, 0x7f, 0x11, 0x7f, 0x01, 0x7f, 0x01, 0x3f, 0x01, 0x01,
    -- escaped opcodes: rows and groups, then the entries of both maps
    0x90, 0x82, 0x7d, 0x97, 0x59, 0x59, 0x59, 0x59, 0x59, 0x7f, 0x59, 0x59, 0x60, 0x7d, 0x7f,
    0x7f, 0x59, 0x59, 0x59, 0x59, 0x59, 0x59, 0x59, 0x59, 0x59, 0x59, 0x59, 0x59, 0x9a, 0x88,
    0x7d, 0x59, 0x50, 0x50, 0x50, 0x50, 0x59, 0x59, 0x59, 0x59, 0x61, 0x94, 0x61, 0x9e, 0x59,
    0x59, 0x85, 0x59, 0x92, 0xa3, 0x60, 0x60, 0x59, 0x59, 0x59, 0x59, 0x59, 0x59, 0x59, 0x59,
    0x59, 0x59, 0x59, 0x9f, 0x01, 0x03, 0x01, 0x04, 0x03, 0xd5, 0x03, 0xcc, 0x01, 0xbc, 0x03,
    0xf0, 0x10, 0x10, 0x10, 0x10, 0x50, 0x50, 0x50, 0x50, 0x14, 0x20, 0x20, 0x20, 0x20, 0x01,
    0x01, 0x01, 0x01, 0xc4, 0x02, 0x10, 0x00, 0x00, 0x00, 0x00, 0x01, 0x01, 0xc0, 0xc2, 0x10,
    0x11, 0x02, 0x03, 0x11, 0x03, 0x03, 0x04, 0x00, 0x00, 0x14, 0x00, 0x02, 0x00, 0x00, 0xc6,
    0xc8, 0x02, 0x02, 0x02, 0x02, 0x00, 0x00, 0xff, 0xff, 0xff, 0xff, 0x00, 0x00, 0x00, 0xff,
    0xca, 0x01, 0x01, 0x01, 0x00, 0x06, 0x00, 0x04, 0x00, 0xc0, 0xc2, 0x01, 0x01, 0x03, 0x01,
    0xff, 0xff, 0x01, 0x00, 0x03, 0xc4, 0xc4, 0xc6, 0x03, 0x01, 0x01, 0x01, 0xff, 0x03, 0x03,
    0x03, 0xc8,
    -- x87 with a memory operand
    0x40, 0x00, 0x0a, 0x00, 0x04, 0x00, 0x00,
    -- x87 with a register
    0x00, 0x00, 0x7f, 0x00, 0x33, 0x01, 0x00, 0x00, 0x00, 0x00, 0x00, 0x00, 0xff, 0xbf, 0xff,
    0xff, 0x00, 0x00, 0x00, 0x00, 0x07, 0x00, 0x00, 0xff, 0x00, 0x00, 0x00, 0x00, 0x00, 0x00,
    0x00, 0x00, 0x00, 0x00, 0x00, 0x00, 0x00, 0x00, 0xff, 0xff, 0x00, 0x00, 0x00, 0xbf, 0x00,
    0x00, 0x00, 0x00, 0x00, 0x00, 0x00, 0x00, 0x7f, 0x00, 0x00, 0xff,
    -- refused prefixes: rows, then entries
    0x40, 0x40, 0x40, 0x40, 0x41, 0x49, 0x40, 0x40, 0x40, 0x40, 0x4c, 0x42, 0x40, 0x40, 0x40,
    0x40, 0x40, 0x40, 0x40, 0x40, 0x4f, 0x44, 0x53, 0x40, 0x40, 0x40, 0x44, 0x57, 0x43, 0x5c,
    0x40, 0x60, 0x40, 0x40, 0x40, 0x40, 0x40, 0x40, 0x40, 0x40, 0x40, 0x40, 0x40, 0x40, 0x40,
    0x40, 0x64, 0x66, 0x6e, 0x6b, 0x40, 0x40, 0x6a, 0x46, 0x40, 0x40, 0x44, 0x46, 0x40, 0x40,
    0x5b, 0x44, 0x40, 0x40, 0x00, 0x00, 0x00, 0x00, 0x06, 0x06, 0x06, 0x06, 0x01, 0x06, 0x06,
    0x02, 0x06, 0x06, 0x00, 0x06, 0x00, 0x0a, 0x0a, 0x00, 0x00, 0x00, 0x02, 0x07, 0x07, 0x06,
    0x02, 0x0d, 0x06, 0x06, 0x06, 0x0e, 0x05, 0x05, 0x02, 0x02, 0x00, 0x00, 0x04, 0x04, 0x04,
    0x04, 0x05, 0x06, 0x06, 0x06, 0x00, 0x00, 0x00, 0x0e,
    -- lockable, one byte
    0x00, 0x00, 0x08, 0x00, 0x10, 0x00, 0x18, 0x00, 0x20, 0x00, 0x28, 0x00, 0x30, 0x00, 0x80,
    0x01, 0x82, 0x01, 0x86, 0x00, 0xf6, 0xcf, 0xfe, 0x3f,
    -- lockable, escaped
    0xab, 0x00, 0xb0, 0x00, 0xb1, 0x00, 0xb3, 0x00, 0xba, 0xf8, 0xbb, 0x00, 0xc0, 0x00, 0xc1,
    0x00, 0xc7, 0xbf,
    -- memory only, one byte
    0x62, 0xff, 0x00, 0x8d, 0xff, 0x00, 0xc4, 0xff, 0x00, 0xc5, 0xff, 0x00, 0xff, 0xff, 0xeb,
    -- memory only, escaped
    0x01, 0xff, 0x0e, 0x12, 0x08, 0x00, 0x13, 0x09, 0x00, 0x16, 0x08, 0x00, 0x17, 0x09, 0x00,
    0x2b, 0x09, 0x00, 0xae, 0xff, 0x07, 0xb2, 0xff, 0x00, 0xb4, 0xff, 0x00, 0xb5, 0xff, 0x00,
    0xc3, 0x01, 0x00, 0xc7, 0xff, 0xbf, 0xe7, 0x08, 0x00, 0xf0, 0x02, 0x00 ]

/-- The classification data of 64-bit mode. -/
def bytes64 : List Byte :=
  [ -- one-byte opcodes: rows and groups
    0xa5, 0xaa, 0xa5, 0xb8, 0xa5, 0xaa, 0xa5, 0xaa, 0xa5, 0xb8, 0xa5, 0xb8, 0xa5, 0xb8, 0xa5,
    0xb8, 0xc0, 0xc0, 0xc0, 0xc0, 0xc0, 0xc0, 0xc0, 0xc0, 0xac, 0xc0, 0xcc, 0xc0, 0xa1, 0xa1,
    0xa1, 0xa1, 0xb1, 0xa5, 0xa5, 0xa6, 0xc0, 0xc0, 0xd7, 0xda, 0xe0, 0xc0, 0xe4, 0xc0, 0xea,
    0xea, 0xe0, 0xe0, 0x98, 0xc8, 0xee, 0xf1, 0xa5, 0xd3, 0xa5, 0xa5, 0xa1, 0xea, 0x9e, 0xc0,
    0xc0, 0xc2, 0xc0, 0xe6, 0x03, 0x7f, 0x11, 0x7f, 0x01, 0x7f, 0x01, 0x3f, 0x01, 0x01,
    -- escaped opcodes: rows and groups, then the entries of both maps
    0xab, 0x8b, 0x90, 0x64, 0x5b, 0x5b, 0x5b, 0x5b, 0x5b, 0x92, 0x5b, 0x5b, 0x76, 0x90, 0x92,
    0x92, 0x5b, 0x5b, 0x5b, 0x5b, 0x5b, 0x5b, 0x5b, 0x5b, 0x5b, 0x5b, 0x5b, 0x5b, 0x6a, 0x73,
    0x90, 0x5b, 0x52, 0x52, 0x52, 0x52, 0x5b, 0x5b, 0x5b, 0x5b, 0x77, 0x7c, 0x77, 0x85, 0x5b,
    0x5b, 0x70, 0x5b, 0x7a, 0xaf, 0x76, 0x76, 0x5b, 0x5b, 0x5b, 0x5b, 0x5b, 0x5b, 0x5b, 0x5b,
    0x5b, 0x5b, 0x5b, 0x86, 0x01, 0x03, 0x01, 0x04, 0x03, 0xd5, 0x03, 0xd5, 0x03, 0xcc, 0x01,
    0xbc, 0x03, 0xf0, 0x03, 0x03, 0x04, 0x00, 0x50, 0x50, 0x50, 0x50, 0xff, 0x20, 0x20, 0x20,
    0x20, 0x01, 0x01, 0x01, 0x01, 0xc4, 0x02, 0x10, 0xff, 0xff, 0xff, 0x01, 0x00, 0x03, 0x11,
    0xff, 0x03, 0xc4, 0xc6, 0xc8, 0x02, 0x10, 0x00, 0xff, 0xcc, 0x01, 0x01, 0x01, 0x00, 0x00,
    0x00, 0x00, 0x01, 0x01, 0x03, 0x01, 0xff, 0xff, 0xc0, 0xc2, 0x10, 0x11, 0x02, 0x03, 0x01,
    0x01, 0x01, 0xff, 0xff, 0xff, 0x00, 0x00, 0x00, 0xff, 0x00, 0x00, 0xff, 0xff, 0xff, 0xff,
    0x10, 0x10, 0x10, 0x10, 0x02, 0x10, 0x00, 0x00, 0xc6, 0xc8, 0x02, 0x02, 0x02, 0x02, 0x06,
    0x00, 0x04, 0x00, 0x02, 0xff, 0x00, 0xc0, 0xc2, 0x01, 0x01, 0x03, 0x03, 0x03, 0xca,
    -- x87 with a memory operand
    0x40, 0x00, 0x0a, 0x00, 0x04, 0x00, 0x00,
    -- x87 with a register
    0x00, 0x00, 0x7f, 0x00, 0x33, 0x01, 0x00, 0x00, 0x00, 0x00, 0x00, 0x00, 0xff, 0xbf, 0xff,
    0xff, 0x00, 0x00, 0x00, 0x00, 0x07, 0x00, 0x00, 0xff, 0x00, 0x00, 0x00, 0x00, 0x00, 0x00,
    0x00, 0x00, 0x00, 0x00, 0x00, 0x00, 0x00, 0x00, 0xff, 0xff, 0x00, 0x00, 0x00, 0xbf, 0x00,
    0x00, 0x00, 0x00, 0x00, 0x00, 0x00, 0x00, 0x7f, 0x00, 0x00, 0xff,
    -- refused prefixes: rows, then entries
    0x40, 0x40, 0x40, 0x40, 0x41, 0x49, 0x40, 0x40, 0x40, 0x40, 0x4c, 0x42, 0x40, 0x40, 0x40,
    0x40, 0x40, 0x40, 0x40, 0x40, 0x4f, 0x44, 0x53, 0x40, 0x40, 0x40, 0x44, 0x57, 0x43, 0x5c,
    0x40, 0x60, 0x40, 0x40, 0x40, 0x40, 0x40, 0x40, 0x40, 0x40, 0x40, 0x40, 0x40, 0x40, 0x40,
    0x40, 0x64, 0x66, 0x6e, 0x6b, 0x40, 0x40, 0x6a, 0x46, 0x40, 0x40, 0x44, 0x46, 0x40, 0x40,
    0x5b, 0x44, 0x40, 0x40, 0x00, 0x00, 0x00, 0x00, 0x06, 0x06, 0x06, 0x06, 0x01, 0x06, 0x06,
    0x02, 0x06, 0x06, 0x00, 0x06, 0x00, 0x0a, 0x0a, 0x00, 0x00, 0x00, 0x02, 0x07, 0x07, 0x06,
    0x02, 0x0d, 0x06, 0x06, 0x06, 0x0e, 0x05, 0x05, 0x02, 0x02, 0x00, 0x00, 0x04, 0x04, 0x04,
    0x04, 0x05, 0x06, 0x06, 0x06, 0x00, 0x00, 0x00, 0x0e,
    -- lockable, one byte
    0x00, 0x00, 0x08, 0x00, 0x10, 0x00, 0x18, 0x00, 0x20, 0x00, 0x28, 0x00, 0x30, 0x00, 0x80,
    0x01, 0x82, 0x01, 0x86, 0x00, 0xf6, 0xcf, 0xfe, 0x3f,
    -- lockable, escaped
    0xab, 0x00, 0xb0, 0x00, 0xb1, 0x00, 0xb3, 0x00, 0xba, 0xf8, 0xbb, 0x00, 0xc0, 0x00, 0xc1,
    0x00, 0xc7, 0xbf,
    -- memory only, one byte
    0x62, 0xff, 0x00, 0x8d, 0xff, 0x00, 0xc4, 0xff, 0x00, 0xc5, 0xff, 0x00, 0xff, 0xff, 0xeb,
    -- memory only, escaped
    0x01, 0xff, 0x0e, 0x12, 0x08, 0x00, 0x13, 0x09, 0x00, 0x16, 0x08, 0x00, 0x17, 0x09, 0x00,
    0x2b, 0x09, 0x00, 0xae, 0xff, 0x07, 0xb2, 0xff, 0x00, 0xb4, 0xff, 0x00, 0xb5, 0xff, 0x00,
    0xc3, 0x01, 0x00, 0xc7, 0xff, 0xbf, 0xe7, 0x08, 0x00, 0xf0, 0x02, 0x00 ]

/-- The tables of 32-bit mode. -/
def protected32 : OpcodeTables where
  bytes := bytes32
  escapedStart := 0x04a
  x87MemoryStart := 0x0f1
  x87RegisterStart := 0x0f8
  refusedStart := 0x130
  lockStart := 0x1a2
  lockEscapedStart := 0x1ba
  memoryStart := 0x1cc
  memoryEscapedStart := 0x1db

/-- The tables of 64-bit mode. -/
def long64 : OpcodeTables where
  bytes := bytes64
  escapedStart := 0x04a
  x87MemoryStart := 0x0fd
  x87RegisterStart := 0x104
  refusedStart := 0x13c
  lockStart := 0x1ae
  lockEscapedStart := 0x1c6
  memoryStart := 0x1d8
  memoryEscapedStart := 0x1e7

/-! ### Shapes -/

/-- The entry of an opcode: its row is relative to `base`, and so is the place of the entry. -/
def lookup (t : OpcodeTables) (base : Nat) (opcode : Byte) : Except Fault Byte := do
  let part ← Slice.after base t.bytes
  let row ← Slice.index (opcode >>> 2).toNat part
  Slice.index (row.toNat + (opcode &&& 3).toNat) part

/-- The start of the rows of a map. -/
def mapStart (t : OpcodeTables) (escaped : Bool) : Nat := if escaped then t.escapedStart else 0

/-- The shape bits of an opcode. -/
def shape (t : OpcodeTables) (escaped : Bool) (opcode : Byte) : Except Fault Byte :=
  t.lookup (t.mapStart escaped) opcode

/-- The shape bits of a group and the mask of its undefined register fields. -/
def group (t : OpcodeTables) (escaped : Bool) (index : Byte) : Except Fault (Byte × Byte) := do
  let part ← Slice.after (t.mapStart escaped) t.bytes
  let shape ← Slice.index index.toNat part
  let mask ← Slice.index (index.toNat + 1) part
  return (shape, mask)

/-- The shape bits of an opcode and the mask of its undefined register fields, for an opcode in a
group those of the group; `none` if the opcode is undefined. -/
def entry? (t : OpcodeTables) (escaped : Bool) (opcode : Byte) :
    Except Fault (Option (Byte × Byte)) := do
  let shape ← t.shape escaped opcode
  if shape = Shape.undefined then return none
  else if Shape.has shape Shape.group then
    let entry ← t.group escaped (shape &&& ~~~Shape.group)
    return some entry
  else return some (shape, 0)

/-! ### Rules -/

/-- The register field is in a mask, where bit 7 stands for 0 and bit 0 for 7. -/
def isMasked (mask : Byte) (reg : BitVec 3) : Bool := (mask <<< reg.toNat) &&& 0x80 != 0

/-- The prefix classes that an escaped opcode refuses. -/
def refusedPrefixes (t : OpcodeTables) (opcode : Byte) : Except Fault Byte :=
  t.lookup t.refusedStart opcode

/-- The mask of undefined fields of an x87 opcode, counted from `D9`: of second operands if a
register field is given, of register fields otherwise. -/
def x87Mask (t : OpcodeTables) (index : Nat) : Option (BitVec 3) → Except Fault Byte
  | some reg => Slice.index (t.x87RegisterStart + index * 8 + reg.toNat) t.bytes
  | none => Slice.index (t.x87MemoryStart + index) t.bytes

/-- The records of two bytes. -/
def pairs : List Byte → List (Byte × Byte)
  | opcode :: mask :: rest => (opcode, mask) :: pairs rest
  | _ => []

/-- The records of three bytes. -/
def triples : List Byte → List (Byte × Byte × Byte)
  | opcode :: prefixes :: mask :: rest => (opcode, prefixes, mask) :: triples rest
  | _ => []

/-- The opcode with this register field can be locked. Only the first record of the opcode counts,
and the lowest bit of a one-byte opcode does not. -/
def allowsLock (t : OpcodeTables) (escaped : Bool) (opcode : Byte) (reg : BitVec 3) :
    Except Fault Bool := do
  let part ← if escaped then Slice.between t.lockEscapedStart t.memoryStart t.bytes
    else Slice.between t.lockStart t.lockEscapedStart t.bytes
  let key := if escaped then opcode else opcode &&& 0xfe
  match (pairs part).find? fun record => record.1 == key with
  | some (_, mask) => return !isMasked mask reg
  | none => return false

/-- The opcode under these prefixes cannot take a register. The record of the opcode says for which
prefixes it holds and which register fields are excepted. -/
def deniesRegister (t : OpcodeTables) (escaped : Bool) (opcode prefixes : Byte) (reg : BitVec 3) :
    Except Fault Bool := do
  let part ← if escaped then Slice.between t.memoryEscapedStart t.bytes.length t.bytes
    else Slice.between t.memoryStart t.memoryEscapedStart t.bytes
  match (triples part).find? fun record => record.1 == opcode with
  | some (_, restricted, mask) => return restricted &&& prefixes != 0 && !isMasked mask reg
  | none => return false

end OpcodeTables

/-- The tables of a mode. -/
def Mode.tables : Mode → OpcodeTables
  | protected32 => .protected32
  | long64 => .long64

end LengthDisasm
