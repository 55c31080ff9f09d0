/-!
# Decode errors

## Main definitions

* `DecodeError` — why no instruction could be decoded
* `DecodeError.message` — its wording
-/

namespace LengthDisasm

/-- Why the front of the code is not an instruction. -/
inductive DecodeError where
  /-- The code ends before the instruction is complete. -/
  | insufficientLength
  /-- The opcode, with these prefixes and in this mode, has no valid form. -/
  | unknownOpcode
  /-- A LOCK prefix on a form without an atomic memory operand. -/
  | invalidLock
  /-- The opcode does not allow this register field, or not this register or memory form. -/
  | badOperand
deriving DecidableEq, Repr

namespace DecodeError

/-- Every error, in the order in which they are counted. -/
def all : List DecodeError := [insufficientLength, unknownOpcode, invalidLock, badOperand]

/-- The wording of an error. -/
def message : DecodeError → String
  | insufficientLength => "insufficient length"
  | unknownOpcode => "unknown opcode"
  | invalidLock => "invalid lock"
  | badOperand => "bad operand"

end DecodeError

end LengthDisasm
