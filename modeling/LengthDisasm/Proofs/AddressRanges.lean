import LengthDisasm.Command.Clip

/-!
# The part of data in a range of addresses

Data is clipped with two slices, and the second one is taken of what the first one left. So a start
beyond the stop asks for more than there is, if both lie inside the data. In all other cases what is
left is what was asked for: the bytes whose addresses lie in the range, at their addresses.

## Main definitions

* `Placed` — bytes with their addresses
* `Placed.within` — those in a range of addresses
* `Placed.ofPart` — what clipping leaves

## Main results

* `Placed.within_ofData` — the bytes in a range are a slice of the data
* `clip_eq` — clipping, case by case
* `clip_keeps_range_iff` — when clipping keeps the range that was asked for
-/

namespace LengthDisasm

/-- Bytes, each with its address. -/
abbrev Placed := List (Byte × Nat)

namespace Placed

/-- Data at an address, byte by byte. -/
def ofData (address : Nat) (data : List Byte) : Placed := data.zipIdx address

/-- The bytes whose addresses lie from `start` to before `stop`. -/
def within (start stop : Nat) (bytes : Placed) : Placed :=
  bytes.filter fun b => start ≤ b.2 ∧ b.2 < stop

/-- The bytes of a part of some data; none if the data lies outside of the range. -/
def ofPart : Option (Nat × List Byte) → Placed
  | some (address, data) => ofData address data
  | none => []

variable (address start stop : Nat) (data : List Byte)

/-- The bytes before an address are the first ones. -/
theorem filter_lt_ofData :
    (ofData address data).filter (fun b => b.2 < stop) =
      ofData address (data.take (stop - address)) := by
  unfold ofData
  induction data generalizing address with
  | nil => simp
  | cons b data ih =>
    rw [List.zipIdx_cons, List.filter_cons, ih]
    by_cases h : address < stop
    · -- one byte less is left to take
      have hsucc : stop - address = stop - (address + 1) + 1 := by omega
      rw [if_pos (decide_eq_true h), hsucc, List.take_succ_cons, List.zipIdx_cons]
    · have hnone : stop - address = 0 := by omega
      have hnone' : stop - (address + 1) = 0 := by omega
      rw [if_neg (by simpa using h), hnone, hnone', List.take_zero, List.take_zero]
      rfl

/-- The bytes from an address on are the last ones, and the first of them stands there or where the
data starts. -/
theorem filter_le_ofData : (ofData address data).filter (fun b => start ≤ b.2) =
    ofData (max address start) (data.drop (start - address)) := by
  unfold ofData
  induction data generalizing address with
  | nil => simp
  | cons b data ih =>
    rw [List.zipIdx_cons, List.filter_cons, ih]
    by_cases h : start ≤ address
    · have hzero : start - address = 0 := by omega
      have hzero' : start - (address + 1) = 0 := by omega
      rw [if_pos (decide_eq_true h), hzero, hzero', List.drop_zero, List.drop_zero,
        Nat.max_eq_left h, Nat.max_eq_left (Nat.le_succ_of_le h), List.zipIdx_cons]
    · have hsucc : start - address = start - (address + 1) + 1 := by omega
      have hmax : max (address + 1) start = max address start := by omega
      rw [if_neg (by simpa using h), hsucc, List.drop_succ_cons, hmax]

/-- The bytes in a range of addresses are a slice of the data. -/
theorem within_ofData : (ofData address data).within start stop =
    ofData (max address start) ((data.take (stop - address)).drop (start - address)) := by
  rw [← filter_le_ofData, ← filter_lt_ofData, List.filter_filter, within]
  simp only [Bool.decide_and]

end Placed

variable {address start stop : Nat} {data : List Byte}

/-- What lies before the stop can always be taken. -/
theorem Slice.upTo_stop {α : Type} (next : List Byte → Except Fault α) (hstop : address < stop) :
    (if stop < address + data.length then Slice.upTo (stop - address) data >>= next
      else .ok data >>= next) =
      next (data.take (stop - address)) := by
  split
  · rw [Slice.upTo, if_pos (by omega)]
    rfl
  · rw [List.take_of_length_le (by omega)]
    rfl

/-- What lies from the start on can be taken of what lies before the stop, unless the start is
beyond the stop. -/
theorem Slice.after_start (hstop : address < stop) (hstart : start < address + data.length) :
    Slice.after (start - address) (data.take (stop - address)) =
      if stop < start then .error .sliceBounds
          else .ok ((data.take (stop - address)).drop (start - address)) := by
  rw [Slice.after, List.length_take]
  by_cases h : stop < start
  · rw [if_pos h, if_neg (by omega)]
  · rw [if_neg h, if_pos (by omega)]

/-- Clipping, case by case: outside of the data, with a start beyond the stop, and all else. -/
theorem clip_eq (hend : address + data.length ≤ maxAddress) : clip address data start stop =
    if stop ≤ address ∨ address + data.length ≤ start then .ok none
    else if stop < start then .error .sliceBounds
    else .ok (some (max address start, (data.take (stop - address)).drop (start - address))) := by
  have hstopOfData : endAddress address data = address + data.length := Nat.min_eq_right hend
  unfold clip
  simp only [hstopOfData]
  split
  · rfl
  · rename_i hinside
    obtain ⟨hstop, hstart⟩ : address < stop ∧ start < address + data.length := by omega
    rw [Slice.upTo_stop _ hstop]
    by_cases hlt : address < start
    · rw [if_pos hlt, Slice.after_start hstop hstart, Nat.max_eq_right (Nat.le_of_lt hlt)]
      split <;> rfl
    · -- the start lies before the data, and so before the stop
      have hzero : start - address = 0 := by omega
      rw [if_neg hlt, if_neg (by omega), hzero, List.drop_zero,
        Nat.max_eq_left (Nat.le_of_not_lt hlt)]
      rfl

/-- Clipping stays inside the data and keeps the bytes whose addresses lie in the range, in their
order and at their addresses, or nothing if there are none: exactly if not both ends of the range
lie inside the data, with the start beyond the stop. Then it fails, since the start lies outside of
what the stop has left. -/
theorem clip_keeps_range_iff (address : Nat) (data : List Byte) (start stop : Nat)
    (hend : address + data.length ≤ maxAddress) :
    ((∃ part, clip address data start stop = .ok part ∧
        Placed.ofPart part = (Placed.ofData address data).within start stop) ↔
      ¬ (address < stop ∧ stop < start ∧ start < address + data.length)) ∧
    (address < stop ∧ stop < start ∧ start < address + data.length →
      clip address data start stop = .error .sliceBounds) := by
  rw [clip_eq hend, Placed.within_ofData]
  by_cases houtside : stop ≤ address ∨ address + data.length ≤ start
  · -- nothing is kept, since one of the slices is empty
    have hempty : (data.take (stop - address)).drop (start - address) = [] := by
      rw [List.drop_eq_nil_iff, List.length_take]
      omega
    rw [if_pos houtside, hempty]
    exact ⟨iff_of_true ⟨none, rfl, rfl⟩ (by omega), fun h => by omega⟩
  · rw [if_neg houtside]
    by_cases hbeyond : stop < start
    · rw [if_pos hbeyond]
      exact ⟨iff_of_false (by rintro ⟨part, hpart, -⟩; cases hpart) (by omega), fun _ => rfl⟩
    · rw [if_neg hbeyond]
      exact ⟨iff_of_true ⟨_, rfl, rfl⟩ (by omega), fun h => by omega⟩

theorem clip_keeps_range_iff_inner :
    0x100 + (List.replicate 16 (0x90 : Byte)).length ≤ maxAddress ∧
      ∃ part, clip 0x100 (List.replicate 16 0x90) 0x104 0x10c = .ok part ∧
        Placed.ofPart part = (Placed.ofData 0x100 (List.replicate 16 0x90)).within 0x104 0x10c :=
  ⟨by decide,
    (clip_keeps_range_iff 0x100 (List.replicate 16 0x90) 0x104 0x10c (by decide)).1.mpr (by decide)⟩

/-- No address is both from 0x10c on and before 0x104, but clipping fails where it should keep
nothing. -/
theorem clip_fails_start_beyond_stop :
    0x100 + (List.replicate 16 (0x90 : Byte)).length ≤ maxAddress ∧
      (Placed.ofData 0x100 (List.replicate 16 0x90)).within 0x10c 0x104 = [] ∧
      ¬ ∃ part, clip 0x100 (List.replicate 16 0x90) 0x10c 0x104 = .ok part := by
  have hfails : clip 0x100 (List.replicate 16 0x90) 0x10c 0x104 = .error .sliceBounds := by rfl
  refine ⟨by decide, by decide, ?_⟩
  rintro ⟨part, hpart⟩
  rw [hfails] at hpart
  cases hpart

end LengthDisasm
