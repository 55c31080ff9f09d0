import LengthDisasm.Proofs.BlockSearch
import LengthDisasm.Proofs.WalkSteps

/-!
# What data settles of a walk

More data can follow what is there. The bytes that a decoder counts as settled are then decoded as
they are now: a walk through longer data makes the same first steps, stops where the settled bytes
end, and none of these steps fails for want of bytes. Settled zero runs are counted in blocks of
eight, while a walk passes through them two bytes at a time, and both come to the same place.

## Main definitions

* `Walk.Settles` — data settles the first steps of every walk through it

## Main results

* `Walk.Settles.append` — what is settled one behind the other is settled together
* `Walk.exists_settles_settledFront`, `Walk.exists_settles_settledOnto` — settled bytes are settled
  steps
* `settled_steps_stable` — the settled bytes of a decoder are the steps that no more data changes
-/

namespace LengthDisasm

namespace Walk

theorem Yields.append {w w' last : Walk} {before after : List Step} (h : w.Yields before w')
    (h' : w'.Yields after last) : w.Yields (before ++ after) last := by
  induction h with
  | nil w => exact h'
  | cons hnext _ ih => exact .cons hnext (ih h')

/-- Data at an address settles the first steps of every walk through it: they lie inside the data,
they are the same whatever follows, and none of them fails for want of bytes. -/
structure Settles (mode : Mode) (a : Address) (data : List Byte) (steps : List Step) : Prop where
  le_length : (steps.map Step.length).sum ≤ data.length
  yields : ∀ more, (Walk.mk mode a (data ++ more)).Yields steps
    ((Walk.mk mode a (data ++ more)).advance (steps.map Step.length).sum)
  sufficient : ∀ s ∈ steps, s.result ≠ .error .insufficientLength

namespace Settles

variable {mode : Mode} {a : Address} {data : List Byte} {steps steps' : List Step}

theorem nil (mode : Mode) (a : Address) (data : List Byte) : Settles mode a data [] where
  le_length := Nat.zero_le _
  yields more := by
    rw [List.map_nil, List.sum_nil, advance_zero]
    exact .nil _
  sufficient := nofun

/-- A decode result that is not for want of bytes is a settled step. -/
theorem step (a : Address) (hne : data ≠ []) (h : decode mode data ≠ .error .insufficientLength) :
    Settles mode a data [⟨a, decodedLength (decode mode data), decode mode data⟩] where
  le_length := decodedLength_le hne
  yields more := by
    have hcurrent : (Walk.mk mode a (data ++ more)).current =
        ⟨a, decodedLength (decode mode data), decode mode data⟩ := by
      rw [current, decode_append h]
    refine .cons (next?_eq_some_iff.mpr
      ⟨List.append_ne_nil_of_left_ne_nil hne more, hcurrent.symm, ?_⟩) (.nil _)
    rw [hcurrent]
    rfl
  sufficient s hs := by
    rw [List.mem_singleton.mp hs]
    exact h

/-- Steps that the rest of the data settles go on behind those that are settled before it. -/
theorem append (h : Settles mode a data steps)
    (h' : Settles mode (a + BitVec.ofNat 64 (steps.map Step.length).sum)
      (data.drop (steps.map Step.length).sum) steps') : Settles mode a data (steps ++ steps') where
  le_length := by
    have hfirst := h.le_length
    have hsecond := h'.le_length
    rw [List.length_drop] at hsecond
    rw [List.map_append, List.sum_append]
    omega
  yields more := by
    have hsecond := h'.yields more
    rw [← List.drop_append_of_le_length h.le_length] at hsecond
    have hboth := (h.yields more).append hsecond
    rwa [List.map_append, List.sum_append, ← advance_advance]
  sufficient s hs := by
    rcases List.mem_append.mp hs with hs | hs
    · exact h.sufficient s hs
    · exact h'.sufficient s hs

end Settles

variable (mode : Mode) (a : Address)

/-- Two zero bytes at a time are settled, as far as a zero run goes. -/
theorem exists_settles_zeroes {data : List Byte} (k : Nat) (h : 2 * k ≤ ZeroRun.length data) :
    ∃ steps, (steps.map Step.length).sum = 2 * k ∧ Settles mode a data steps := by
  induction k generalizing a data with
  | zero => exact ⟨[], rfl, .nil mode a data⟩
  | succ k ih =>
    have htwo : data = 0 :: 0 :: data.drop 2 := by
      have hsplit := List.take_append_drop 2 data
      rw [ZeroRun.take_eq_replicate (by omega)] at hsplit
      exact hsplit.symm
    obtain ⟨i, hdecode, hlength⟩ := decode_zero_zero mode (data.drop 2)
    rw [← htwo] at hdecode
    have hne : data ≠ [] := htwo ▸ List.cons_ne_nil _ _
    have hstep :=
      Settles.step a hne (show decode mode data ≠ .error .insufficientLength by rw [hdecode]; nofun)
    have hdecoded : decodedLength (decode mode data) = 2 := by
      rw [hdecode]
      exact hlength
    have hrun : 2 * k ≤ ZeroRun.length (data.drop 2) := by
      rw [ZeroRun.length_drop (by omega)]
      omega
    obtain ⟨steps, hsum, hsteps⟩ := ih (a + BitVec.ofNat 64 2) hrun
    refine ⟨_ :: steps, ?_, hstep.append ?_⟩
    · rw [List.map_cons, List.sum_cons, hsum, hdecoded, Nat.mul_succ, Nat.add_comm]
    · simp only [List.map_cons, List.map_nil, List.sum_cons, List.sum_nil, hdecoded]
      exact hsteps

/-- What is settled at the front of data is settled steps. -/
theorem exists_settles_settledFront (decodeZeroes : Bool) {data : List Byte} (hne : data ≠ []) :
    ∃ steps, (steps.map Step.length).sum = Decoder.settledFront mode decodeZeroes data ∧
      Settles mode a data steps := by
  rcases Decoder.settledFront_cases mode decodeZeroes data with hzero | ⟨hdecode, hlength⟩ | hblocks
  · exact ⟨[], hzero.symm, .nil mode a data⟩
  · refine ⟨[⟨a, decodedLength (decode mode data), decode mode data⟩], ?_, .step a hne hdecode⟩
    rw [hlength]
    rfl
  · -- a block is four steps of a walk
    have heven : ZeroRun.wholeBlocks (ZeroRun.length data) = 2 * (ZeroRun.length data / 8 * 4) := by
      simp only [ZeroRun.wholeBlocks, ZeroRun.blockSize]
      omega
    rw [hblocks, heven]
    exact exists_settles_zeroes mode a _ (by omega)

theorem exists_settles_settledOnto (decodeZeroes : Bool) (done : Nat) (data : List Byte) :
    ∃ steps, Decoder.settledOnto mode decodeZeroes done data = done + (steps.map Step.length).sum ∧
      Settles mode a data steps := by
  -- along the count of settled bytes, which goes on behind what is settled at the front
  fun_induction Decoder.settledOnto mode decodeZeroes done data generalizing a with
  | case1 done data front h => exact ⟨[], rfl, .nil mode a data⟩
  | case2 done data front h ih =>
    have hne : data ≠ [] := fun hnil => h (.inr hnil)
    obtain ⟨steps, hsum, hfront⟩ := exists_settles_settledFront mode a decodeZeroes hne
    obtain ⟨steps', hcount, hrest⟩ := ih (a + BitVec.ofNat 64 front)
    refine ⟨steps ++ steps', ?_, hfront.append ?_⟩
    · rw [hcount, List.map_append, List.sum_append, hsum, Nat.add_assoc]
    · rw [hsum]
      exact hrest

end Walk

namespace Decoder

/-- Where zero runs are decoded like all else, the settled bytes end with the data or where it wants
bytes. -/
theorem exists_settledOnto_of_decodeZeroes (mode : Mode) (done : Nat) (data : List Byte) :
    ∃ n, settledOnto mode true done data = done + n ∧
      (n = data.length ∨ LengthDisasm.decode mode (data.drop n) = .error .insufficientLength) := by
  fun_induction settledOnto mode true done data with
  | case1 done data front h =>
    refine ⟨0, rfl, ?_⟩
    by_cases hne : data = []
    · exact .inl (by rw [hne, List.length_nil])
    · -- nothing is settled at the front, so that it wants bytes
      have hfront : decodedSettled mode data = 0 := by
        have hzero := h.resolve_right hne
        simpa [front, settledFront_eq, hne] using hzero
      exact .inr ((decodedSettled_eq_zero_iff mode data).mp hfront)
  | case2 done data front h ih =>
    have hne : data ≠ [] := fun hnil => h (.inr hnil)
    have hle := (isBoundary_settledFront mode true hne []).1
    obtain ⟨n, hcount, hend⟩ := ih
    refine ⟨front + n, by rw [hcount, Nat.add_assoc], ?_⟩
    rw [List.drop_drop, List.length_drop] at hend
    exact hend.imp_left fun hn => by rw [hn, Nat.add_sub_cancel' hle]

end Decoder

/-- The settled bytes of data are a boundary that no more data can move. They lie inside the data;
whatever follows, a walk makes the same steps up to their end and stops there, and none of these
steps fails for want of bytes. Where zero runs are decoded, nothing more could be settled: the data
ends there, or the bytes from there on are too few for an instruction. -/
theorem settled_steps_stable (d : Decoder) (data : List Byte) :
    d.settledLength data ≤ data.length ∧
      (∃ steps : List Step, (steps.map Step.length).sum = d.settledLength data ∧
        (∀ s ∈ steps, s.result ≠ .error .insufficientLength) ∧
        ∀ more,
          (d.walk (data ++ more)).Yields steps
            ((d.walk (data ++ more)).advance (d.settledLength data)) ∧
          (d.walk (data ++ more)).steps =
            steps ++ ((d.walk (data ++ more)).advance (d.settledLength data)).steps) ∧
      (d.options.decodeZeroes = true → d.settledLength data = data.length ∨
        decode d.mode (data.drop (d.settledLength data)) = .error .insufficientLength) := by
  obtain ⟨steps, hcount, hsettles⟩ :=
    Walk.exists_settles_settledOnto d.mode d.address d.options.decodeZeroes 0 data
  have hlength : d.settledLength data = (steps.map Step.length).sum := hcount.trans (Nat.zero_add _)
  rw [hlength]
  refine ⟨hsettles.le_length, ⟨steps, rfl, hsettles.sufficient, fun more => ?_⟩, fun hzeroes => ?_⟩
  · have hyields := hsettles.yields more
    exact ⟨hyields, hyields.steps_eq_append⟩
  · obtain ⟨n, hn, hend⟩ := Decoder.exists_settledOnto_of_decodeZeroes d.mode 0 data
    rw [← hzeroes, hcount, Nat.zero_add, Nat.zero_add] at hn
    rwa [hn]

/-- Of a zero run of 17 bytes two blocks are settled, and its last byte with the byte behind it is
an instruction. The six bytes after them are fewer than a block. -/
example : (Decoder.mk .long64 0 .default).settledLength
    (List.replicate 17 0 ++ [0xe8, 1, 2, 3, 4, 5, 6]) = 18 := by
  cbv

end LengthDisasm
