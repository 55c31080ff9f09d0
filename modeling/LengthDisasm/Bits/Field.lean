/-!
# Bit fields of fixed-width words

A bit field is the run of `len` bits of a word that starts at bit `pos`. Reading and writing one is
done with shifts, and every shift and every difference of counts is checked: a count that leaves the
word is a `Fault` and not a wrapped or truncated answer.

## Main definitions

* `Fault` — the ways in which an operation on words or slices has no result
* `maxCapacity` — how large memory can be
* `Bits.extract`, `Bits.extractSigned` — the field as an unsigned or a signed word
* `Bits.deposit` — the word with the field replaced
-/

namespace LengthDisasm

/-- Why an operation on machine words or on a slice has no result. -/
inductive Fault where
  /-- A difference of counts is negative. -/
  | underflow
  /-- A shift count is not below the width of the word. -/
  | shiftCount
  /-- A bit field is empty or does not lie inside a 32-bit word. -/
  | fieldBounds
  /-- A slice does not lie inside the data. -/
  | sliceBounds
  /-- A sum of counts does not fit in a 64-bit word. -/
  | overflow
  /-- A table or an image is larger than memory can be. -/
  | capacity
deriving DecidableEq, Repr

/-- The greatest number of bytes that a table or an image can have. -/
def maxCapacity : Nat := UInt64.size / 2 - 1

namespace Bits

variable {w : Nat}

/-! ### Checked arithmetic -/

/-- The difference of two counts, if it is not negative. -/
def sub (a b : Nat) : Except Fault Nat :=
  if b ≤ a then .ok (a - b) else .error .underflow

/-- The sum of two counts, if it fits in a 64-bit word. -/
def add (a b : Nat) : Except Fault Nat :=
  if a + b < UInt64.size then .ok (a + b) else .error .overflow

/-- Left shift by a count below the width. -/
def shiftLeft (v : BitVec w) (count : Nat) : Except Fault (BitVec w) :=
  if count < w then .ok (v <<< count) else .error .shiftCount

/-- Logical right shift by a count below the width. -/
def shiftRight (v : BitVec w) (count : Nat) : Except Fault (BitVec w) :=
  if count < w then .ok (v >>> count) else .error .shiftCount

/-- Arithmetic right shift by a count below the width. -/
def shiftRightSigned (v : BitVec w) (count : Nat) : Except Fault (BitVec w) :=
  if count < w then .ok (v.sshiftRight count) else .error .shiftCount

/-! ### Fields -/

/-- The shift counts that bring the field to the top of the word and then down to bit zero. -/
def shifts (w pos len : Nat) : Except Fault (Nat × Nat) := do
  let above ← sub w pos
  let up ← sub above len
  let down ← sub w len
  return (up, down)

/-- The field of `len` bits at `pos`, zero-extended. -/
def extract (v : BitVec w) (pos len : Nat) : Except Fault (BitVec w) := do
  let (up, down) ← shifts w pos len
  let top ← shiftLeft v up
  shiftRight top down

/-- The field of `len` bits at `pos`, sign-extended; read the result with `BitVec.toInt`. -/
def extractSigned (v : BitVec w) (pos len : Nat) : Except Fault (BitVec w) := do
  let (up, down) ← shifts w pos len
  let top ← shiftLeft v up
  shiftRightSigned top down

/-- A word whose set bits are the `len` bits at `pos`. -/
def fieldMask (w pos len : Nat) : Except Fault (BitVec w) := do
  let down ← sub w len
  let low ← shiftRight (BitVec.allOnes w) down
  shiftLeft low pos

/-- The word `v` with the `len` bits at `pos` replaced by the low bits of `field`. -/
def deposit (v : BitVec w) (pos len : Nat) (field : BitVec w) : Except Fault (BitVec w) := do
  let mask ← fieldMask w pos len
  let placed ← shiftLeft field pos
  return (v &&& ~~~mask) ||| (placed &&& mask)

end Bits

end LengthDisasm
