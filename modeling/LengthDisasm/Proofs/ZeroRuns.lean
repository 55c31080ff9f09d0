import Mathlib.Data.List.TakeWhile
import LengthDisasm.ZeroRun

/-!
# Zero runs and the data around them

How long the run at the front of data is, and how much of it is skipped, when more data follows or
when a part of the run is dropped.

## Main results

* `ZeroRun.length_append`, `ZeroRun.length_drop` — the run of longer and of shorter data
* `ZeroRun.elided?_eq_some_iff` — when so many bytes are skipped
* `ZeroRun.elided?_append_or` — when more data can change what is skipped
-/

namespace LengthDisasm.ZeroRun

variable {data more : List Byte} {limit : Option Nat} {n : Nat}

theorem length_le (data : List Byte) : length data ≤ data.length :=
  (List.takeWhile_sublist _).length_le

theorem isAll_iff : isAll data = true ↔ length data = data.length := by
  have hle := length_le data
  rw [isAll, List.isEmpty_iff, List.drop_eq_nil_iff]
  omega

theorem length_append (data more : List Byte) :
    length (data ++ more) = if isAll data then data.length + length more else length data := by
  unfold length
  rw [List.takeWhile_append]
  by_cases h : isAll data = true
  · have hlength : (data.takeWhile (· == 0)).length = data.length := isAll_iff.mp h
    rw [if_pos h, if_pos hlength, List.length_append]
  · have hlength : (data.takeWhile (· == 0)).length ≠ data.length :=
      fun hall => h (isAll_iff.mpr hall)
    rw [if_neg h, if_neg hlength]

theorem isAll_append (data more : List Byte) :
    isAll (data ++ more) = (isAll data && isAll more) := by
  have hdata := length_le data
  rw [Bool.eq_iff_iff, Bool.and_eq_true, isAll_iff, isAll_iff, isAll_iff, length_append,
    List.length_append]
  split
  · rename_i h
    rw [isAll_iff] at h
    omega
  · rename_i h
    rw [isAll_iff] at h
    omega

/-- The front of a run is zero. -/
theorem take_eq_replicate (h : n ≤ length data) : data.take n = List.replicate n 0 := by
  rw [List.eq_replicate_iff]
  have hle := length_le data
  refine ⟨by rw [List.length_take]; omega, fun b hb => ?_⟩
  have htake : data.take n = (data.takeWhile (· == 0)).take n := by
    rw [List.takeWhile_eq_take_findIdx_not, List.take_take]
    congr 1
    rw [length, List.takeWhile_eq_take_findIdx_not, List.length_take] at h
    omega
  rw [htake] at hb
  have hzero := List.all_eq_true.mp List.all_takeWhile b (List.mem_of_mem_take hb)
  simpa using hzero

theorem length_replicate_append (n : Nat) (data : List Byte) :
    length (List.replicate n 0 ++ data) = n + length data := by
  rw [length_append, if_pos, List.length_replicate]
  rw [isAll_iff, length, List.takeWhile_replicate]
  simp

theorem isAll_iff_forall : isAll data = true ↔ ∀ b ∈ data, b = 0 := by
  constructor
  · intro h b hb
    have hzeroes := take_eq_replicate (isAll_iff.mp h).ge
    rw [List.take_length] at hzeroes
    rw [hzeroes] at hb
    exact List.eq_of_mem_replicate hb
  · intro h
    rw [isAll_iff, length, List.takeWhile_eq_self_iff.mpr]
    intro b hb
    rw [h b hb]
    rfl

/-- What is left of a run of which the front is dropped. -/
theorem length_drop (h : n ≤ length data) : length (data.drop n) = length data - n := by
  have hsplit := List.take_append_drop n data
  rw [take_eq_replicate h] at hsplit
  have hlength := length_replicate_append n (data.drop n)
  rw [hsplit] at hlength
  omega

/-! ### Skipped runs -/

theorem within_le_length (limit : Option Nat) (data : List Byte) :
    within limit data ≤ length data := by
  cases limit with
  | none => exact Nat.le_refl _
  | some n => exact Nat.min_le_right ..

/-- A run goes up to the end of the data and does not pass the limit. -/
theorem isAll_and_le_limit_iff :
    (isAll data && limit.all fun n => decide (length data ≤ n)) = true ↔
      isAll data = true ∧ ∀ n, limit = some n → data.length ≤ n := by
  rw [Bool.and_eq_true, and_congr_right_iff]
  intro h
  rw [isAll_iff.mp h]
  cases limit <;> simp

theorem elided?_eq_some_iff : elided? limit data = some n ↔
    blockSize ≤ within limit data ∧ (fills limit data = true ∨ longRun ≤ within limit data) ∧
      wholeBlocks (within limit data) = n := by
  rw [elided?, Option.ite_none_right_eq_some, Option.some.injEq, and_assoc]

theorem wholeBlocks_le (n : Nat) : wholeBlocks n ≤ n := Nat.div_mul_le_self ..

theorem le_within_of_elided? (h : elided? limit data = some n) : n ≤ within limit data :=
  (elided?_eq_some_iff.mp h).2.2 ▸ wholeBlocks_le _

theorem elided?_append_of_not_isAll (h : isAll data = false) (limit : Option Nat)
    (more : List Byte) :
    elided? limit (data ++ more) = elided? limit data := by
  have hlength : length (data ++ more) = length data := by rw [length_append, h]; rfl
  have hwithin : within limit (data ++ more) = within limit data := by
    cases limit <;> simp only [within, hlength]
  have hfills : fills limit (data ++ more) = fills limit data := by
    simp only [fills, hlength, isAll_append, h, Bool.false_and]
  simp only [elided?, hwithin, hfills]

/-- A limit that the run reaches decides how much is skipped, whatever follows. -/
theorem elided?_append_of_le (h : n ≤ length data) (more : List Byte) :
    elided? (some n) (data ++ more) = elided? (some n) data := by
  have hle : length data ≤ length (data ++ more) := by
    have hdata := length_le data
    rw [length_append]
    split <;> omega
  have hwithin : ∀ data' : List Byte, n ≤ length data' → within (some n) data' = n := fun _ h' =>
    Nat.min_eq_left h'
  have hfills : ∀ data' : List Byte, n ≤ length data' → fills (some n) data' = true := by
    intro data' h'
    simp [fills, h']
  simp only [elided?, hwithin _ h, hfills _ h, hwithin _ (h.trans hle), hfills _ (h.trans hle)]

/-- More data changes what is skipped only if all data is zero and ends before the limit. -/
theorem elided?_append_or (limit : Option Nat) (data more : List Byte) :
    elided? limit (data ++ more) = elided? limit data ∨
      isAll data = true ∧ ∀ n, limit = some n → data.length < n := by
  cases hall : isAll data with
  | false => exact .inl (elided?_append_of_not_isAll hall limit more)
  | true =>
    cases limit with
    | none => exact .inr ⟨rfl, fun n hn => by cases hn⟩
    | some n =>
      rcases Nat.lt_or_ge data.length n with hlt | hge
      · exact .inr ⟨rfl, by rintro m ⟨⟩; exact hlt⟩
      · exact .inl (elided?_append_of_le ((isAll_iff.mp hall).symm ▸ hge) more)

/-- What is skipped of data that is all zero, if its end comes before the limit. -/
theorem elided?_of_isAll (hall : isAll data = true)
    (hlimit : ∀ n, limit = some n → data.length < n) :
    elided? limit data =
      if blockSize ≤ data.length then some (wholeBlocks data.length) else none := by
  have hlength := isAll_iff.mp hall
  have hwithin : within limit data = data.length := by
    cases limit with
    | none => exact hlength
    | some n =>
      have hn := hlimit n rfl
      simp only [within, hlength]
      omega
  simp [elided?, fills, hall, hwithin]

/-- A skipped run that ends with the first part of the data is skipped there alone, too. -/
theorem elided?_of_append (hall : isAll data = true)
    (hlimit : ∀ n, limit = some n → data.length < n)
    (h : elided? limit (data ++ more) = some n) (hn : n ≤ data.length) :
    elided? limit data = some n := by
  obtain ⟨hblock, -, rfl⟩ := elided?_eq_some_iff.mp h
  have hlength : length (data ++ more) = data.length + length more := by
    rw [length_append, if_pos hall]
  have hwithin : data.length ≤ within limit (data ++ more) := by
    cases limit with
    | none =>
      simp only [within, hlength]
      omega
    | some n =>
      have := hlimit n rfl
      simp only [within, hlength]
      omega
  have hwhole : blockSize ≤ data.length ∧
      wholeBlocks data.length = wholeBlocks (within limit (data ++ more)) := by
    simp only [wholeBlocks, blockSize] at hblock hn ⊢
    omega
  rw [elided?_of_isAll hall hlimit, if_pos hwhole.1, hwhole.2]

end LengthDisasm.ZeroRun
