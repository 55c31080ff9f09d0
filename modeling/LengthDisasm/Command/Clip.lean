import LengthDisasm.Slice

/-!
# Address ranges

Data at an address is restricted to the addresses from a start up to a stop.

## Main definitions

* `endAddress` — where data ends
* `clip` — the part of the data in a range of addresses
-/

namespace LengthDisasm

/-- The greatest address. -/
def maxAddress : Nat := UInt64.size - 1

/-- The end of data at an address, at most the greatest address. -/
def endAddress (address : Nat) (data : List Byte) : Nat := min maxAddress (address + data.length)

/-- The part of data at `address` whose addresses lie from `start` to before `stop`, with its
address; `none` if the data lies outside of the range. The stop is applied first, so that a start
beyond it is a start beyond the end of what is left. -/
def clip (address : Nat) (data : List Byte) (start stop : Nat) :
    Except Fault (Option (Nat × List Byte)) :=
  let stopOfData := endAddress address data
  if stop ≤ address ∨ stopOfData ≤ start then .ok none
  else do
    let kept ← if stop < stopOfData then Slice.upTo (stop - address) data else .ok data
    if address < start then
      return some (start, ← Slice.after (start - address) kept)
    else
      return some (address, kept)

end LengthDisasm
