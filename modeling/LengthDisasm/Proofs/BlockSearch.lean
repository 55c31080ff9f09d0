import LengthDisasm.Proofs.Boundary
import LengthDisasm.Proofs.Demand

/-!
# When the search for the end of a block ends

A search that settles nothing in the first bytes of the data takes a zero run for the reason and
goes on behind the run. It can also settle nothing because an instruction at the front asks for more
than the 15 bytes that decoding looks at. Then there is no run to go behind, all rounds look at the
same bytes, and the search never ends.

## Main results

* `Decoder.settledLength_eq_zero_iff` — when nothing is settled
* `Blocks.lengthWithin_eq_none` — a search that never ends
* `Blocks.exists_lengthWithin` — all other searches end
* `block_search_ends_iff` — the two together, for all places in the data
-/

namespace LengthDisasm

theorem decode_take_of_maxLength_le (mode : Mode) (data : List Byte) {size : Nat}
    (hsize : Instruction.maxLength ≤ size) : decode mode (data.take size) = decode mode data := by
  rw [← decode_take_maxLength, List.take_take, Nat.min_eq_left hsize, decode_take_maxLength]

/-- An instruction that asks for too many bytes starts with a prefix, so it does not start with a
zero byte. -/
theorem length_zeroRun_eq_zero {mode : Mode} {data : List Byte}
    (hlen : Instruction.maxLength ≤ data.length)
    (h : decode mode data = .error .insufficientLength) : ZeroRun.length data = 0 := by
  cases data with
  | nil => rfl
  | cons b rest =>
    by_cases hb : b = 0
    · subst hb
      refine absurd h (decode_ne_insufficientLength ?_ mode)
      rw [Nat.min_eq_left hlen, List.takeWhile_cons_of_neg (by decide)]
      decide
    · rw [ZeroRun.length, List.takeWhile_cons_of_neg (by simpa using hb), List.length_nil]

theorem ZeroRun.isAll_take_iff {data : List Byte} {n : Nat} (hn : n ≤ data.length) :
    isAll (data.take n) = true ↔ n ≤ length data := by
  have hlength := length_append (data.take n) (data.drop n)
  have htake := length_le (data.take n)
  rw [List.take_append_drop, List.length_take_of_le hn] at hlength
  rw [List.length_take_of_le hn] at htake
  rw [isAll_iff, List.length_take_of_le hn]
  split at hlength
  · rename_i hall
    rw [isAll_iff, List.length_take_of_le hn] at hall
    omega
  · rename_i hall
    rw [isAll_iff, List.length_take_of_le hn] at hall
    omega

namespace Decoder

theorem decodedSettled_eq_zero_iff (mode : Mode) (data : List Byte) :
    decodedSettled mode data = 0 ↔ LengthDisasm.decode mode data = .error .insufficientLength := by
  unfold decodedSettled
  cases h : LengthDisasm.decode mode data with
  | ok i =>
    have hpos := length_pos_of_decode h
    simp only [reduceCtorEq, iff_false]
    omega
  | error e => cases e <;> simp

/-- Nothing at the front of long data is settled if the instruction there asks for too many bytes,
or if all data is a zero run that may go on. -/
theorem settledFront_eq_zero_iff (mode : Mode) (decodeZeroes : Bool) {data : List Byte}
    (hlen : Instruction.maxLength ≤ data.length) :
    settledFront mode decodeZeroes data = 0 ↔
      LengthDisasm.decode mode data = .error .insufficientLength ∨
        decodeZeroes = false ∧ ZeroRun.isAll data = true := by
  have hmax : Instruction.maxLength = 15 := rfl
  have hdecoded := decodedSettled_eq_zero_iff mode data
  have hnotEmpty : data.isEmpty = false := by
    rw [List.isEmpty_eq_false_iff, ← List.length_pos_iff]
    omega
  have hnotFew : ZeroRun.fewerThan ZeroRun.blockSize data = false := by
    rw [← Bool.not_eq_true, ZeroRun.fewerThan_iff, ZeroRun.blockSize]
    omega
  -- at the front of a zero run decoding does not fail for want of bytes
  have hrun : 0 < ZeroRun.length data → LengthDisasm.decode mode data ≠
      .error .insufficientLength :=
    fun hpos h => absurd (length_zeroRun_eq_zero hlen h) (Nat.ne_of_gt hpos)
  rw [settledFront_eq, hnotEmpty, hnotFew]
  cases decodeZeroes with
  -- zero runs are decoded like all else
  | true => simpa using hdecoded
  | false =>
    -- a run that ends in the data is decoded if it is short, and skipped in part if it is long
    by_cases hall : ZeroRun.isAll data = true
    · have hlength := ZeroRun.isAll_iff.mp hall
      simp [hall, ZeroRun.blockSize, show ¬ ZeroRun.length data < 8 by omega]
    · simp only [hall, Bool.false_eq_true, if_false, and_false, or_false]
      split
      · exact hdecoded
      · split
        · exact hdecoded
        · rename_i hblock hlong
          have hwhole : ZeroRun.wholeBlocks (ZeroRun.length data) ≠ 0 := by
            simp only [ZeroRun.wholeBlocks, ZeroRun.blockSize, ZeroRun.longRun] at hlong ⊢
            omega
          simp only [hwhole, false_iff]
          apply hrun
          simp only [ZeroRun.longRun] at hlong
          omega

theorem settledOnto_eq_iff (mode : Mode) (decodeZeroes : Bool) (done : Nat) {data : List Byte}
    (hne : data ≠ []) :
    settledOnto mode decodeZeroes done data = done ↔ settledFront mode decodeZeroes data = 0 := by
  rw [settledOnto]
  split
  · rename_i h
    exact iff_of_true rfl (h.resolve_right hne)
  · -- what is settled later adds to the front
    rename_i h
    obtain ⟨n, hn, -⟩ := exists_boundary_settledOnto mode decodeZeroes
      (done + settledFront mode decodeZeroes data) (data.drop (settledFront mode decodeZeroes data))
        []
    rw [hn]
    omega

theorem settledLength_eq_zero_iff (d : Decoder) {data : List Byte}
    (hlen : Instruction.maxLength ≤ data.length) :
    d.settledLength data = 0 ↔
      LengthDisasm.decode d.mode data = .error .insufficientLength ∨
        d.options.decodeZeroes = false ∧ ZeroRun.isAll data = true := by
  have hne : data ≠ [] := List.ne_nil_of_length_pos (Nat.lt_of_lt_of_le (by decide) hlen)
  rw [settledLength, settledOnto_eq_iff _ _ _ hne, settledFront_eq_zero_iff _ _ hlen]

end Decoder

/-! ### Rounds of a search -/

namespace Blocks

variable {d : Decoder} {blockSize size : Nat} {data : List Byte}

theorem lengthWithin_succ (d : Decoder) (blockSize : Nat) (data : List Byte) (rounds size : Nat) :
    lengthWithin d blockSize data (rounds + 1) size =
      if data.length < size then some data.length
      else if d.settledLength (data.take size) ≠ 0 then some (d.settledLength (data.take size))
      else lengthWithin d blockSize data rounds (ZeroRun.length data + blockSize) := by
  simp only [lengthWithin, ZeroRun.fewerThan_iff]

/-- A search within the data settles nothing in a round if the instruction at the front asks for too
many bytes, or if the round does not reach past the zero run at the front. -/
theorem settledLength_take_eq_zero_iff (hmax : Instruction.maxLength ≤ size)
    (hsize : size ≤ data.length) :
    d.settledLength (data.take size) = 0 ↔
      decode d.mode data = .error .insufficientLength ∨
        d.options.decodeZeroes = false ∧ size ≤ ZeroRun.length data := by
  rw [Decoder.settledLength_eq_zero_iff d (by rwa [List.length_take_of_le hsize]),
    decode_take_of_maxLength_le d.mode data hmax, ZeroRun.isAll_take_iff hsize]

/-- A search at an instruction that asks for too many bytes never ends: all its rounds look at the
same bytes. -/
theorem lengthWithin_eq_none (hmax : Instruction.maxLength ≤ blockSize)
    (hsize : blockSize ≤ data.length)
    (h : decode d.mode data = .error .insufficientLength) (rounds : Nat) :
    lengthWithin d blockSize data rounds blockSize = none := by
  induction rounds with
  | zero => rfl
  | succ rounds ih =>
    -- nothing is settled, and without a zero run the next round has the same size
    have hsettled := (settledLength_take_eq_zero_iff (d := d) hmax hsize).mpr (.inl h)
    have hrun := length_zeroRun_eq_zero (hmax.trans hsize) h
    rw [lengthWithin_succ, if_neg (Nat.not_lt.mpr hsize), hsettled, if_neg (not_not.mpr rfl), hrun,
      Nat.zero_add, ih]

/-- Other searches end in the first round, or in the second one behind a zero run. -/
theorem exists_lengthWithin (hmax : Instruction.maxLength ≤ blockSize)
    (h : blockSize ≤ data.length → decode d.mode data ≠ .error .insufficientLength) :
    ∃ n, lengthWithin d blockSize data 2 blockSize = some n := by
  rw [lengthWithin_succ]
  split
  · exact ⟨_, rfl⟩
  · rename_i hsize
    have hdecode := h (Nat.not_lt.mp hsize)
    split
    · exact ⟨_, rfl⟩
    · rw [lengthWithin_succ]
      split
      · exact ⟨_, rfl⟩
      · rename_i hsecond
        -- the second round reaches past the run, and so it settles something
        have hsettled : d.settledLength (data.take (ZeroRun.length data + blockSize)) ≠ 0 := by
          rw [Ne, settledLength_take_eq_zero_iff (Nat.le_add_left_of_le hmax)
            (Nat.not_lt.mp hsecond)]
          have hpos : 0 < blockSize := Nat.lt_of_lt_of_le (by decide) hmax
          rintro (hinsufficient | ⟨-, hle⟩)
          · exact hdecode hinsufficient
          · omega
        rw [if_pos hsettled]
        exact ⟨_, rfl⟩

end Blocks

/-- Where the search for the end of a block ends, it returns at least one byte and no more than
there are. It ends everywhere but at an instruction that asks for more than 15 bytes and has a block
of data after its start. -/
theorem block_search_ends_iff (d : Decoder) (data : List Byte) {start blockSize : Nat}
    (hstart : start < data.length) (hsize : 256 ≤ blockSize) :
    (∃ rounds n, Blocks.lengthWithin d blockSize (data.drop start) rounds blockSize = some n ∧
        1 ≤ n ∧ n ≤ data.length - start) ↔
      ¬ (blockSize ≤ data.length - start ∧
        decode d.mode (data.drop start) = .error .insufficientLength) := by
  have hmax : Instruction.maxLength ≤ blockSize := Nat.le_trans (by decide) hsize
  have hne : data.drop start ≠ [] := by
    rw [← List.length_pos_iff, List.length_drop]
    omega
  rw [← List.length_drop]
  constructor
  · rintro ⟨rounds, n, hsome, -⟩ ⟨hblock, hdecode⟩
    rw [Blocks.lengthWithin_eq_none hmax hblock hdecode] at hsome
    cases hsome
  · intro hends
    obtain ⟨n, hsome⟩ :=
      Blocks.exists_lengthWithin hmax fun hblock hdecode => hends ⟨hblock, hdecode⟩
    exact ⟨2, n, hsome, Blocks.lengthWithin_pos hne hsome,
      (Blocks.isBoundary_of_lengthWithin hsome).1⟩

/-- A run of zero bytes that is longer than a block, between two instructions. -/
def longZeroRun : List Byte := 0x90 :: List.replicate 300 0 ++ [0xc3]

/-- The search goes on behind a zero run that is longer than a block. -/
theorem block_search_ends_iff_zero_run :
    1 < longZeroRun.length ∧ 256 ≤ 256 ∧
      ∃ rounds n, Blocks.lengthWithin ⟨.long64, 0, .default⟩ 256 (longZeroRun.drop 1) rounds 256 =
        some n ∧ 1 ≤ n ∧ n ≤ longZeroRun.length - 1 := by
  have hstart : 1 < longZeroRun.length := by
    rw [longZeroRun, List.length_append, List.length_cons, List.length_replicate]
    decide
  refine ⟨hstart, Nat.le_refl 256, ?_⟩
  refine (block_search_ends_iff ⟨.long64, 0, .default⟩ longZeroRun hstart (Nat.le_refl 256)).mpr ?_
  rintro ⟨-, herror⟩
  obtain ⟨i, hok, -⟩ := decode_zero_zero .long64 (longZeroRun.drop 3)
  have herror' : decode .long64 (0 :: 0 :: longZeroRun.drop 3) = .error .insufficientLength :=
    herror
  rw [hok] at herror'
  cases herror'

/-- Fifteen prefixes, and then as many bytes as make a block. -/
def longPrefixRun : List Byte := List.replicate 15 0x66 ++ List.replicate 241 0x90

/-- The search never ends at a run of fifteen prefixes. -/
theorem block_search_never_ends_prefix_run :
    0 < longPrefixRun.length ∧ 256 ≤ 256 ∧
      ¬ ∃ rounds n,
        Blocks.lengthWithin ⟨.long64, 0, .default⟩ 256 (longPrefixRun.drop 0) rounds 256 = some n ∧
        1 ≤ n ∧ n ≤ longPrefixRun.length - 0 := by
  have hrun : ∀ b ∈ List.replicate 15 (0x66 : Byte), Head.isPrefixByte b = true := by
    intro b hb
    rw [List.eq_of_mem_replicate hb]
    decide
  have hdecode : decode .long64 longPrefixRun = .error .insufficientLength :=
    decode_of_long_run .long64 hrun (by decide) _
  have hlength : longPrefixRun.length = 256 := by
    rw [longPrefixRun, List.length_append, List.length_replicate, List.length_replicate]
  refine ⟨hlength ▸ Nat.succ_pos 255, Nat.le_refl 256, ?_⟩
  rintro ⟨rounds, n, hsome, -⟩
  rw [List.drop_zero, Blocks.lengthWithin_eq_none (by decide) hlength.ge hdecode] at hsome
  cases hsome

end LengthDisasm
