import LengthDisasm.Proofs.BlockSearch
import LengthDisasm.Proofs.RingOrder
import LengthDisasm.Proofs.WalkItems

/-!
# The ring lists its data

The job of a ring is to list data in blocks, and a worker finds the end of its block by the search
that cuts the data. Where the search ends at every offset, the job progresses, its blocks are those
of the cut, and so the ring writes the listings of these blocks in their order.

A worker compares the address behind what it printed with the length of its block, and gives up if
they differ. They never do: a listing moves over all the data that it is given.

## Main results

* `Job.progresses_ofData_iff` — the data on which the search ends everywhere
* `Job.blocks_ofData` — the blocks of a job are those of the cut
* `Job.printed_of_mem_blocks` — a worker prints its whole block
* `lists_data` — what the ring writes
-/

namespace LengthDisasm.Ring

open State

namespace Job

variable {d : Decoder} {blockSize start : Nat} {data : List Byte}

theorem lengthAt_ofData_of_some {length : Nat}
    (h : Blocks.length? d blockSize (data.drop start) = some length) :
    (ofData d blockSize data).lengthAt start = length :=
  congrArg (Option.getD · 0) h

theorem lengthAt_ofData_of_none (h : Blocks.length? d blockSize (data.drop start) = none) :
    (ofData d blockSize data).lengthAt start = 0 :=
  congrArg (Option.getD · 0) h

theorem drop_ne_nil (h : start < data.length) : data.drop start ≠ [] := by
  rw [Ne, List.drop_eq_nil_iff]
  exact Nat.not_le.mpr h

theorem progresses_ofData_iff_isSome : (ofData d blockSize data).Progresses ↔
    ∀ start < data.length, (Blocks.length? d blockSize (data.drop start)).isSome = true := by
  refine forall₂_congr fun start hstart => ?_
  cases hlength : Blocks.length? d blockSize (data.drop start) with
  | none => simp [lengthAt_ofData_of_none hlength]
  | some length =>
    have hle := (Blocks.isBoundary_of_lengthWithin hlength).1
    rw [List.length_drop] at hle
    rw [lengthAt_ofData_of_some hlength]
    exact iff_of_true ⟨Blocks.lengthWithin_pos (drop_ne_nil hstart) hlength, hle⟩ rfl

/-- The job progresses unless an instruction asks for more than 15 bytes with a block of data after
its start. -/
theorem progresses_ofData_iff (hmax : Instruction.maxLength ≤ blockSize) :
    (ofData d blockSize data).Progresses ↔ ∀ start, start + blockSize ≤ data.length →
      decode d.mode (data.drop start) ≠ .error .insufficientLength := by
  rw [progresses_ofData_iff_isSome]
  constructor
  · intro hends start hblock hdecode
    have hpos : 0 < blockSize := Nat.lt_of_lt_of_le (by decide) hmax
    have hsize : blockSize ≤ (data.drop start).length := by
      rw [List.length_drop]
      omega
    have hsome := hends start (by omega)
    rw [Blocks.length?, Blocks.lengthWithin_eq_none hmax hsize hdecode 2] at hsome
    cases hsome
  · intro hdecodes start hstart
    have hends : ∃ length, Blocks.length? d blockSize (data.drop start) = some length := by
      refine Blocks.exists_lengthWithin hmax fun hsize => hdecodes start ?_
      rw [List.length_drop] at hsize
      omega
    exact Option.isSome_iff_exists.mpr hends

/-! ### Blocks -/

/-- The blocks of the job from an offset on are those of the cut, also if the search does not
end. -/
theorem blocksFrom_ofData (d : Decoder) (blockSize : Nat) (data : List Byte) (start : Nat) :
    ((ofData d blockSize data).blocksFrom start).map (fun e => e.block data) =
      (Blocks.cutFrom d blockSize start (data.drop start)).blocks := by
  fun_induction blocksFrom (ofData d blockSize data) start with
  | case1 start h ih =>
    cases hlength : Blocks.length? d blockSize (data.drop start) with
    | none =>
      rw [lengthAt_ofData_of_none hlength] at h
      exact absurd h.2 (Nat.lt_irrefl 0)
    | some length =>
      rw [Extent.stop, extentAt, lengthAt_ofData_of_some hlength] at ih
      rw [List.map_cons, extentAt, Extent.stop, lengthAt_ofData_of_some hlength, ih,
        Blocks.cutFrom_of_some (drop_ne_nil h.1) hlength, List.drop_drop, Extent.block]
  | case2 start h =>
    -- the data is at its end, or the search finds no block
    rw [List.map_nil]
    by_cases hstart : start < data.length
    · cases hlength : Blocks.length? d blockSize (data.drop start) with
      | none => rw [Blocks.cutFrom_of_none (drop_ne_nil hstart) hlength]
      | some length =>
        have hpos := Blocks.lengthWithin_pos (drop_ne_nil hstart) hlength
        exact absurd ⟨hstart, by rwa [lengthAt_ofData_of_some hlength]⟩ h
    · rw [List.drop_eq_nil_of_le (Nat.not_lt.mp hstart), Blocks.cutFrom_nil]

theorem blocks_ofData (d : Decoder) (blockSize : Nat) (data : List Byte) :
    (ofData d blockSize data).blocks.map (fun e => e.block data) =
      (Blocks.cut d blockSize data).blocks :=
  blocksFrom_ofData d blockSize data 0

/-- Data on which the job progresses is cut completely. -/
theorem complete_cutFrom (h : (ofData d blockSize data).Progresses) {rest : List Byte}
    (hrest : data.drop start = rest) : (Blocks.cutFrom d blockSize start rest).complete = true := by
  fun_induction Blocks.cutFrom d blockSize start rest with
  | case1 start => rfl
  | case2 start rest hne hnone =>
    have hstart : start < data.length := by
      rwa [← hrest, List.drop_eq_nil_iff, Nat.not_le] at hne
    have hsome := progresses_ofData_iff_isSome.mp h start hstart
    rw [hrest, hnone] at hsome
    cases hsome
  | case3 start rest hne n hlength others ih => exact ih (by rw [← hrest, List.drop_drop])

theorem length_block_of_mem_blocksFrom (h : (ofData d blockSize data).Progresses) {e : Extent}
    (he : e ∈ (ofData d blockSize data).blocksFrom start) :
    (e.block data).bytes.length = e.length ∧ e.length ≤ data.length := by
  fun_induction blocksFrom (ofData d blockSize data) start with
  | case1 start hstart ih =>
    rcases List.mem_cons.mp he with rfl | he
    · have hle := (h start hstart.1).2
      have htotal : (ofData d blockSize data).total = data.length := rfl
      rw [htotal] at hle
      simp only [Extent.block, extentAt, List.length_take, List.length_drop]
      omega
    · exact ih he
  | case2 start hstart => cases he

/-- A worker prints its whole block: the address behind what it printed is as far from the start of
the block as the block is long. -/
theorem printed_of_mem_blocks {l : Listing} (h : (ofData l.decoder blockSize data).Progresses)
    (hsize : data.length < 2 ^ 64) {e : Extent} (he : e ∈ (ofData l.decoder blockSize data).blocks)
    (first : Bool) :
    (((l.skip e.start).print first (e.block data).bytes).2.decoder.address -
      (l.skip e.start).decoder.address).toNat = e.length := by
  obtain ⟨hlength, hle⟩ := length_block_of_mem_blocksFrom h he
  have hmoved (l : Listing) (k : Nat) : (l.skip k).decoder.address - l.decoder.address =
      BitVec.ofNat 64 k := by
    rw [Listing.skip, Listing.moveTo, BitVec.add_comm, BitVec.add_sub_cancel]
  rw [Listing.print_snd, hmoved, hlength, BitVec.toNat_ofNat, Nat.mod_eq_of_lt (by omega)]

end Job

/-- A ring of workers lists its data. If the search for blocks ends everywhere, then whatever the
order of the steps, as soon as no step is enabled the ring has written the listings of all blocks of
the cut one after the other, and each worker printed as many bytes as its block has. -/
theorem lists_data {n : Nat} (hn : 2 ≤ n) (l : Listing) {blockSize : Nat} {data : List Byte}
    (hjob : (Job.ofData l.decoder blockSize data).Progresses) (hsize : data.length < 2 ^ 64)
    (schedule : List (Fin n)) :
    let job := Job.ofData l.decoder blockSize data
    let s := State.run job schedule (State.initial n)
    (∀ i, s.step? job i = none) →
      (Blocks.cut l.decoder blockSize data).complete = true ∧
      Blocks.text l (s.output.map fun e => e.block data) =
        Blocks.text l (Blocks.cut l.decoder blockSize data).blocks ∧
      ∀ e ∈ s.output,
        (((l.skip e.start).print (e.start == 0) (e.block data).bytes).2.decoder.address -
          (l.skip e.start).decoder.address).toNat = e.length := by
  intro job s hstuck
  obtain ⟨ledger, low, h, -⟩ := (Accounts.initial job).run hn schedule
  have houtput : s.output = job.blocks := h.output_of_ended hjob hn (h.hasEnded_of_stuck hn hstuck)
  refine ⟨Job.complete_cutFrom hjob rfl, ?_, fun e he => ?_⟩
  · rw [houtput, Job.blocks_ofData]
  · rw [houtput] at he
    exact Job.printed_of_mem_blocks hjob hsize he _

end LengthDisasm.Ring
