import LengthDisasm.Listing.Blocks
import LengthDisasm.Proofs.Locality
import LengthDisasm.Proofs.Scan

/-!
# Boundaries between instructions

Decoding one instruction after the other, and passing over single bytes that start none, divides
data at its boundaries. Skipped zero runs end at boundaries too, since two zero bytes are an
instruction. So the items of a listing and the blocks of the data both start and end at boundaries,
and no instruction of the one reaches across an end of the other.

## Main definitions

* `IsBoundary` — so many bytes at the front of data are instructions, or bytes that start none

## Main results

* `IsBoundary.drop` — from one boundary on, the later ones are boundaries of what is left
* `isBoundary_bodyAt` — the items of a listing end at boundaries
* `Blocks.isBoundary_of_lengthWithin` — blocks end at boundaries
-/

namespace LengthDisasm

/-- The first bytes of the data, so many, are instructions one after the other, or bytes that start
none. -/
inductive IsBoundary (mode : Mode) : List Byte → Nat → Prop
  | start (data : List Byte) : IsBoundary mode data 0
  | step {data : List Byte} {n : Nat} (hne : data ≠ [])
      (h : IsBoundary mode (data.drop (decodedLength (decode mode data))) n) :
      IsBoundary mode data (decodedLength (decode mode data) + n)

namespace IsBoundary

variable {mode : Mode} {data : List Byte} {k n : Nat}

/-- A boundary after the front lies at the end of the first step or after it. -/
theorem of_pos (h : IsBoundary mode data n) (hpos : 0 < n) :
    ∃ m, n = decodedLength (decode mode data) + m ∧
      IsBoundary mode (data.drop (decodedLength (decode mode data))) m := by
  cases h with
  | start => omega
  | step hne h => exact ⟨_, rfl, h⟩

theorem trans (hk : IsBoundary mode data k) (hn : IsBoundary mode (data.drop k) n) :
    IsBoundary mode data (k + n) := by
  induction hk with
  | start data => simpa using hn
  | step hne _ ih =>
    rw [Nat.add_assoc]
    refine .step hne (ih ?_)
    rwa [List.drop_drop]

/-- From one boundary on, the later ones are boundaries of what is left. -/
theorem drop (hk : IsBoundary mode data k) (hn : IsBoundary mode data n) (hle : k ≤ n) :
    IsBoundary mode (data.drop k) (n - k) := by
  induction hk generalizing n with
  | start data => exact hn
  | @step data k hne _ ih =>
    -- both boundaries lie behind the first step, which decoding determines
    have hpos := decodedLength_pos mode data
    obtain ⟨m, rfl, hm⟩ := hn.of_pos (by omega)
    have htail := ih hm (by omega)
    rw [List.drop_drop] at htail
    rwa [Nat.add_sub_add_left]

end IsBoundary

variable {mode : Mode} {data : List Byte}

theorem isBoundary_decodedLength (hne : data ≠ []) :
    IsBoundary mode data (decodedLength (decode mode data)) :=
  .step hne (.start _)

theorem isBoundary_length (mode : Mode) (data : List Byte) : IsBoundary mode data data.length := by
  induction hn : data.length using Nat.strongRecOn generalizing data with
  | ind n ih =>
    by_cases hne : data = []
    · rw [← hn, hne]
      exact .start _
    · have hpos := decodedLength_pos mode data
      have hle : decodedLength (decode mode data) ≤ data.length := decodedLength_le hne
      have htail := ih (n - decodedLength (decode mode data)) (by omega)
        (data.drop (decodedLength (decode mode data))) (by rw [List.length_drop, hn])
      have hstep := IsBoundary.step hne htail
      rwa [Nat.add_sub_cancel' (by omega)] at hstep

/-- Two zero bytes are decoded on their own, whatever follows. -/
theorem decode_zero_zero_append (mode : Mode) (rest : List Byte) :
    decode mode (0 :: 0 :: rest) = decode mode [0, 0] := by
  have hne : decode mode [0, 0] ≠ .error .insufficientLength := by cases mode <;> nofun
  exact decode_append hne rest

/-- Two zero bytes are an instruction. -/
theorem decode_zero_zero (mode : Mode) (rest : List Byte) :
    ∃ i, decode mode (0 :: 0 :: rest) = .ok i ∧ i.length = 2 := by
  rw [decode_zero_zero_append]
  cases mode <;> exact ⟨_, rfl, rfl⟩

theorem isBoundary_replicate (mode : Mode) (k : Nat) (rest : List Byte) :
    IsBoundary mode (List.replicate (2 * k) 0 ++ rest) (2 * k) := by
  induction k with
  | zero => exact .start _
  | succ k ih =>
    have hlength : decodedLength (decode mode (0 :: 0 :: (List.replicate (2 * k) 0 ++ rest))) =
        2 := by
      obtain ⟨i, hdecode, hlength⟩ := decode_zero_zero mode (List.replicate (2 * k) 0 ++ rest)
      rw [hdecode]
      exact hlength
    have hstep : IsBoundary mode (0 :: 0 :: (List.replicate (2 * k) 0 ++ rest)) _ :=
      .step (List.cons_ne_nil _ _) (n := 2 * k) (by rw [hlength]; exact ih)
    rw [hlength, Nat.add_comm] at hstep
    exact hstep

/-- Zero runs are skipped up to a boundary. -/
theorem isBoundary_wholeBlocks (mode : Mode) {run : Nat} (h : run ≤ ZeroRun.length data) :
    IsBoundary mode data (ZeroRun.wholeBlocks run) := by
  -- a block is four instructions of two zero bytes
  have heven : ZeroRun.wholeBlocks run = 2 * (run / 8 * 4) := by
    simp only [ZeroRun.wholeBlocks, ZeroRun.blockSize]
    omega
  have hle : 2 * (run / 8 * 4) ≤ ZeroRun.length data := by omega
  have hsplit := List.take_append_drop (2 * (run / 8 * 4)) data
  rw [ZeroRun.take_eq_replicate hle] at hsplit
  rw [heven, ← hsplit]
  exact isBoundary_replicate mode _ _

/-- The items of a listing end at boundaries. -/
theorem isBoundary_bodyAt (settings : ScanSettings) (a : Address) (hne : data ≠ []) :
    IsBoundary settings.mode data (settings.bodyAt a data).size := by
  cases hbody : settings.bodyAt a data with
  | elided count =>
    have helided := (ScanSettings.elided?_of_bodyAt hbody).2
    obtain ⟨-, -, rfl⟩ := ZeroRun.elided?_eq_some_iff.mp helided
    exact isBoundary_wholeBlocks settings.mode (ZeroRun.within_le_length _ _)
  | decoded bytes result =>
    rw [ItemBody.size, ← (ScanSettings.decode_of_bodyAt hbody).1]
    exact isBoundary_decodedLength hne

/-! ### Blocks end at boundaries -/

namespace Decoder

/-- The length of what decoding settles at the front of data. -/
def decodedSettled (mode : Mode) (data : List Byte) : Nat :=
  match LengthDisasm.decode mode data with
  | .ok i => i.length
  | .error .insufficientLength => 0
  | .error _ => 1

theorem decodedSettled_cases (mode : Mode) (data : List Byte) :
    decodedSettled mode data = 0 ∨
      (LengthDisasm.decode mode data ≠ .error .insufficientLength ∧
        decodedSettled mode data = decodedLength (LengthDisasm.decode mode data)) := by
  unfold decodedSettled
  split
  · rename_i i hok
    simp [hok, decodedLength]
  · exact .inl rfl
  · rename_i e hne herror
    refine .inr ⟨?_, by rw [herror]; rfl⟩
    rw [herror]
    simpa using hne

theorem settledFront_eq (mode : Mode) (decodeZeroes : Bool) (data : List Byte) :
    settledFront mode decodeZeroes data =
      if data.isEmpty then 0
      else if decodeZeroes then decodedSettled mode data
      else if ZeroRun.fewerThan ZeroRun.blockSize data then 0
      else if ZeroRun.length data < ZeroRun.blockSize then decodedSettled mode data
      else if ZeroRun.isAll data then 0
      else if ZeroRun.length data < ZeroRun.longRun then decodedSettled mode data
      else ZeroRun.wholeBlocks (ZeroRun.length data) := rfl

/-- What is settled at the front of data is nothing, an instruction or a byte that starts none, or
whole blocks of a zero run. -/
theorem settledFront_cases (mode : Mode) (decodeZeroes : Bool) (data : List Byte) :
    settledFront mode decodeZeroes data = 0 ∨
      (LengthDisasm.decode mode data ≠ .error .insufficientLength ∧
        settledFront mode decodeZeroes data = decodedLength (LengthDisasm.decode mode data)) ∨
      settledFront mode decodeZeroes data = ZeroRun.wholeBlocks (ZeroRun.length data) := by
  have hdecoded := decodedSettled_cases mode data
  rw [settledFront_eq]
  split
  · exact .inl rfl
  · split
    · exact hdecoded.imp_right .inl
    · split
      · exact .inl rfl
      · split
        · exact hdecoded.imp_right .inl
        · split
          · exact .inl rfl
          · split
            · exact hdecoded.imp_right .inl
            · exact .inr (.inr rfl)

/-- The settled front of data ends at a boundary whatever follows the data. -/
theorem isBoundary_settledFront (mode : Mode) (decodeZeroes : Bool) {data : List Byte}
    (hne : data ≠ []) (more : List Byte) :
    settledFront mode decodeZeroes data ≤ data.length ∧
      IsBoundary mode (data ++ more) (settledFront mode decodeZeroes data) := by
  have hrun := ZeroRun.length_le data
  rcases settledFront_cases mode decodeZeroes data with hzero | ⟨hdecode, hlength⟩ | hblocks
  · rw [hzero]
    exact ⟨Nat.zero_le _, .start _⟩
  · rw [hlength]
    refine ⟨decodedLength_le hne, ?_⟩
    rw [← decode_append hdecode more]
    exact isBoundary_decodedLength (List.append_ne_nil_of_left_ne_nil hne more)
  · rw [hblocks]
    refine ⟨(ZeroRun.wholeBlocks_le _).trans hrun, isBoundary_wholeBlocks mode ?_⟩
    rw [ZeroRun.length_append]
    split <;> omega

/-- Settled data ends at a boundary whatever follows the data. -/
theorem exists_boundary_settledOnto (mode : Mode) (decodeZeroes : Bool) (done : Nat)
    (data more : List Byte) :
    ∃ n, settledOnto mode decodeZeroes done data = done + n ∧ n ≤ data.length ∧
      IsBoundary mode (data ++ more) n := by
  fun_induction settledOnto mode decodeZeroes done data with
  | case1 done data front h => exact ⟨0, rfl, Nat.zero_le _, .start _⟩
  | case2 done data front h ih =>
    have hne : data ≠ [] := fun hnil => h (.inr hnil)
    obtain ⟨hle, hfront⟩ := isBoundary_settledFront mode decodeZeroes hne more
    obtain ⟨n, hn, hlen, hrest⟩ := ih
    rw [List.length_drop] at hlen
    rw [← List.drop_append_of_le_length hle] at hrest
    exact ⟨front + n, by rw [hn, Nat.add_assoc], by omega, hfront.trans hrest⟩

end Decoder

namespace Blocks

/-- Blocks end at boundaries, inside the data. -/
theorem isBoundary_of_lengthWithin {d : Decoder} {blockSize rounds size n : Nat} {data : List Byte}
    (h : lengthWithin d blockSize data rounds size = some n) :
    n ≤ data.length ∧ IsBoundary d.mode data n := by
  induction rounds generalizing size with
  | zero => cases h
  | succ rounds ih =>
    simp only [lengthWithin] at h
    split at h
    · cases h
      exact ⟨Nat.le_refl _, isBoundary_length d.mode data⟩
    · split at h
      · -- what is settled in the searched part is a boundary of all data
        cases h
        obtain ⟨n, hn, hle, hboundary⟩ := Decoder.exists_boundary_settledOnto d.mode
          d.options.decodeZeroes 0 (data.take size) (data.drop size)
        rw [List.length_take] at hle
        rw [List.take_append_drop] at hboundary
        rw [Decoder.settledLength, hn, Nat.zero_add]
        exact ⟨by omega, hboundary⟩
      · exact ih h

end Blocks

end LengthDisasm
