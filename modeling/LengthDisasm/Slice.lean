import LengthDisasm.Bits.Field
import LengthDisasm.Byte

/-!
# Checked slices

A part of some data that is asked for by its ends has to lie inside the data.

## Main definitions

* `Slice.upTo`, `Slice.after` — what lies before and after a place
* `Slice.between` — what lies between two places
* `Slice.index` — the byte at a place
-/

namespace LengthDisasm

namespace Slice

/-- The first `n` bytes, which have to be there. -/
def upTo (n : Nat) (data : List Byte) : Except Fault (List Byte) :=
  if n ≤ data.length then .ok (data.take n) else .error .sliceBounds

/-- The bytes after the first `n`, which have to be there. -/
def after (n : Nat) (data : List Byte) : Except Fault (List Byte) :=
  if n ≤ data.length then .ok (data.drop n) else .error .sliceBounds

/-- The bytes from `start` to before `stop`, both of which have to be in order and inside the
data. -/
def between (start stop : Nat) (data : List Byte) : Except Fault (List Byte) :=
  if start ≤ stop ∧ stop ≤ data.length then .ok ((data.take stop).drop start)
  else .error .sliceBounds

/-- The byte at place `n`, which has to be inside the data. -/
def index (n : Nat) (data : List Byte) : Except Fault Byte :=
  match data[n]? with
  | some b => .ok b
  | none => .error .sliceBounds

end Slice

end LengthDisasm
