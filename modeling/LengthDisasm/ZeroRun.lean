import LengthDisasm.Byte

/-!
# Runs of zero bytes

Long runs of zero bytes are padding and are not decoded but skipped, in blocks of eight bytes. A run
is skipped if it has almost two blocks, or at least one and nothing follows it.

## Main definitions

* `ZeroRun.fewerThan` — data is shorter than a bound, told without measuring all of it
* `ZeroRun.length` — the length of the run at the front of data
* `ZeroRun.fills` — the run fills the data up to a limit
* `ZeroRun.elided?` — how many bytes to skip
-/

namespace LengthDisasm.ZeroRun

/-- Zero runs are skipped in blocks of so many bytes. -/
def blockSize : Nat := 8

/-- A run of so many zero bytes is skipped whatever follows. -/
def longRun : Nat := 15

/-- The data has fewer than `n` bytes. -/
def fewerThan (n : Nat) (data : List Byte) : Bool :=
  match n with
  | 0 => false
  | n + 1 => (data.drop n).isEmpty

theorem fewerThan_iff (n : Nat) (data : List Byte) :
    fewerThan n data = true ↔ data.length < n := by
  cases n with
  | zero => simp [fewerThan]
  | succ n =>
    rw [fewerThan, List.isEmpty_iff, List.drop_eq_nil_iff]
    omega

/-- The number of zero bytes at the front of the data. -/
def length (data : List Byte) : Nat := (data.takeWhile (· == 0)).length

/-- The whole blocks among `n` bytes. -/
def wholeBlocks (n : Nat) : Nat := n / blockSize * blockSize

/-- All data is zero. -/
def isAll (data : List Byte) : Bool := (data.drop (length data)).isEmpty

/-- All data before the limit is zero; without a limit, all data. -/
def fills (limit : Option Nat) (data : List Byte) : Bool :=
  isAll data || limit.any fun n => decide (n ≤ length data)

/-- The run at the front of the data, as far as the limit allows to skip it. -/
def within (limit : Option Nat) (data : List Byte) : Nat :=
  match limit with
  | some n => min n (length data)
  | none => length data

/-- How many zero bytes at the front of the data are skipped, if any. Nothing at or after the limit
is skipped. -/
def elided? (limit : Option Nat) (data : List Byte) : Option Nat :=
  let run := within limit data
  if blockSize ≤ run ∧ (fills limit data ∨ longRun ≤ run) then some (wholeBlocks run) else none

theorem elided?_pos {limit : Option Nat} {data : List Byte} {n : Nat}
    (h : elided? limit data = some n) : 0 < n := by
  simp only [elided?] at h
  split at h
  · rename_i hrun
    obtain ⟨hrun, -⟩ := hrun
    cases h
    simp only [wholeBlocks, blockSize] at *
    omega
  · cases h

end LengthDisasm.ZeroRun
