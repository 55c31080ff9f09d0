import LengthDisasm.Instruction.Flags
import LengthDisasm.Instruction.Operand
import LengthDisasm.Literal

/-!
# Instructions

## Main definitions

* `Mode` — 32-bit protected mode or 64-bit long mode
* `Opcode` — an opcode byte, alone or after the escape byte `0F`
* `Instruction` — the parts of a decoded instruction
* `Instruction.isJcc`, `Instruction.isJmp`, … — classes of instructions by opcode
-/

namespace LengthDisasm

/-- The operating mode of the processor. -/
inductive Mode where
  /-- Protected mode, with 32-bit operands and addresses by default. -/
  | protected32
  /-- Long mode, with 64-bit addresses by default. -/
  | long64
deriving DecidableEq, Repr

namespace Mode

/-- The mode is 64-bit mode. -/
def isLong : Mode → Bool
  | protected32 => false
  | long64 => true

/-- The width of an address in bits. -/
def width : Mode → Nat
  | protected32 => 32
  | long64 => 64

/-- The mode as text. -/
def text (mode : Mode) : String := "Mode(" ++ toString mode.width ++ ")"

end Mode

/-- An opcode. -/
inductive Opcode where
  /-- A byte of the one-byte map. -/
  | primary (byte : Byte)
  /-- A byte that follows the escape byte `0F`. -/
  | escaped (byte : Byte)
deriving DecidableEq, Repr

namespace Opcode

/-- The byte that introduces the two-byte opcodes. -/
def escape : Byte := 0x0f

/-- The byte that selects the opcode in its map. -/
def byte : Opcode → Byte
  | primary b => b
  | escaped b => b

/-- The first byte of the opcode. -/
def first : Opcode → Byte
  | primary b => b
  | escaped _ => escape

/-- The second byte of the opcode, zero if it has only one. -/
def second : Opcode → Byte
  | primary _ => 0
  | escaped b => b

/-- The opcode follows the escape byte. -/
def isEscaped : Opcode → Bool
  | primary _ => false
  | escaped _ => true

/-- The bytes of the opcode. -/
def bytes : Opcode → List Byte
  | primary b => [b]
  | escaped b => [escape, b]

/-- The opcode moves between the accumulator and a memory offset. -/
def isOffsetMove : Opcode → Bool
  | primary b => decide (0xa0 ≤ b ∧ b ≤ 0xa3)
  | escaped _ => false

end Opcode

/-- A decoded instruction. -/
structure Instruction where
  /-- Which parts are present, and the prefixes. -/
  flags : InsnFlags
  /-- The number of bytes of the whole instruction. -/
  length : Nat
  opcode : Opcode
  rex : Option Rex
  modrm : Option ModRM
  sib : Option Sib
  /-- The displacement, or the selector or second immediate of a far pointer. -/
  disp : Option Literal
  imm : Option Literal
deriving DecidableEq, Repr

namespace Instruction

/-- The greatest length of an instruction. -/
def maxLength : Nat := 15

/-! ### Prefix bytes -/

/-- The prefixes of the instruction. -/
def prefixes (i : Instruction) : PrefixSet := i.flags.prefixes

/-- The byte of a prefix if the instruction has that prefix. -/
def prefixByte? (i : Instruction) (p : Prefix) (byte : Byte) : Option Byte :=
  if i.flags.contains (.ofPrefix p) then some byte else none

/-- The segment override byte. -/
def segmentByte? (i : Instruction) : Option Byte := i.flags.segment?.map Segment.byte

/-- The repeat prefix byte. -/
def repeatByte? (i : Instruction) : Option Byte :=
  (i.prefixByte? .rep 0xf3).or (i.prefixByte? .repNZ 0xf2)

/-- The LOCK prefix byte. -/
def lockByte? (i : Instruction) : Option Byte := i.prefixByte? .lock 0xf0

/-- The operand size prefix byte. -/
def opSizeByte? (i : Instruction) : Option Byte := i.prefixByte? .opSize 0x66

/-- The address size prefix byte. -/
def addrSizeByte? (i : Instruction) : Option Byte := i.prefixByte? .addrSize 0x67

/-! ### Classes -/

/-- A conditional jump, short or near. -/
def isJcc (i : Instruction) : Bool :=
  i.opcode.first &&& 0xf0 == 0x70 || (i.opcode.isEscaped && i.opcode.second &&& 0xf0 == 0x80)

/-- A relative jump. -/
def isJmp (i : Instruction) : Bool := i.opcode.first == 0xe9 || i.opcode.first == 0xeb

/-- A near return. -/
def isRet (i : Instruction) : Bool := i.opcode.first == 0xc2 || i.opcode.first == 0xc3

/-- A relative call, any form of the group `FF`, or the opcode `15`. -/
def isCall (i : Instruction) : Bool :=
  i.opcode.first == 0xe8 || i.opcode.first == 0xff || i.opcode.first == 0x15

/-- A software interrupt or a return from one. -/
def isInt (i : Instruction) : Bool := decide (0xcc ≤ i.opcode.first ∧ i.opcode.first ≤ 0xcf)

end Instruction

end LengthDisasm
