import LengthDisasm.Proofs.Locality
import LengthDisasm.Proofs.PrefixRuns

/-!
# Runs of prefixes in exchange for one another

Of a run of prefixes, decoding keeps the set that it leaves and nothing else, and what follows the
run is read alike wherever it stands. So a run can be exchanged for a shorter one, or for one in
another order, that leaves the same set: the instruction becomes shorter by as much as the run. A
longer run may push the end of an instruction out of the 15 bytes that decoding looks at.

## Main definitions

* `Cursor.IsUniform` — a reader does not look back
* `PrefixSet.lastSegment?`, `PrefixSet.lastRepeat?` — what the order of a run matters for

## Main results

* `Cursor.IsComposed.isUniform` — no reader that decoding is made of looks back
* `decode_run_append` — what stands behind a run of prefixes is read with the set of the run
* `decode_exchange` — runs that leave the same set can be exchanged
* `decode_prefix_exchange` — the same with the order of prefixes
-/

namespace LengthDisasm

/-! ### Readers do not look back -/

namespace Cursor

/-- The cursor with more bytes in front of those that were read. -/
def behind (front : List Byte) (c : Cursor) : Cursor := ⟨front ++ c.consumed, c.rest⟩

theorem offset_behind (front : List Byte) (c : Cursor) :
    (c.behind front).offset = front.length + c.offset := by
  simp [behind, offset]

/-- A reader does not look back: with more bytes in front of its cursor it returns the same and
moves over the same bytes, and if it fails it fails for the same reason. -/
def IsUniform {α : Type} (r : Cursor → Except DecodeError (α × Cursor)) : Prop :=
  ∀ front c, r (c.behind front) = (r c).map fun p => (p.1, p.2.behind front)

theorem isUniform_readByte : IsUniform readByte := by
  intro front c
  obtain ⟨consumed, rest⟩ := c
  cases rest with
  | nil => rfl
  | cons b rest => simp [readByte, behind, Except.map]

theorem isUniform_read (count : Nat) : IsUniform (read count) := by
  intro front c
  have hremaining : (c.behind front).remaining = c.remaining := rfl
  rw [read, read, hremaining]
  split
  · simp [behind, Except.map]
  · rfl

theorem readWhile_behind (p : Byte → Bool) (front : List Byte) (c : Cursor) :
    (c.behind front).readWhile p = ((c.readWhile p).1, (c.readWhile p).2.behind front) := by
  simp [readWhile, behind]

/-- One reader after another does not look back if neither does. -/
theorem IsUniform.bind {α β : Type} {r : Cursor → Except DecodeError (α × Cursor)}
    {f : α → Cursor → Except DecodeError (β × Cursor)} (hr : IsUniform r)
    (hf : ∀ a, IsUniform (f a)) :
    IsUniform fun c => r c >>= fun p => f p.1 p.2 := by
  intro front c
  dsimp only
  rw [hr front c]
  cases r c with
  | error e => rfl
  | ok p => exact hf p.1 front p.2

theorem IsComposed.isUniform {α : Type} {r : Cursor → Except DecodeError (α × Cursor)}
    (h : IsComposed r) : IsUniform r := by
  induction h with
  | pure a => exact fun _ _ => rfl
  | fail e => exact fun _ _ => rfl
  | byte => exact isUniform_readByte
  | block count => exact isUniform_read count
  | run p =>
    intro front c
    dsimp only
    rw [readWhile_behind, isUniform_readByte front]
    cases (c.readWhile p).2.readByte <;> rfl
  | bind _ _ ihr ihf => exact ihr.bind ihf

end Cursor

/-! ### What stands behind a run -/

section Run

variable (mode : Mode) {run run' : List Byte}

/-- What stands behind a run of prefixes is read with the set that the run leaves together with the
prefixes right behind it. -/
theorem readWhole_run_append (hrun : ∀ b ∈ run, Head.isPrefixByte b = true) (more : List Byte) :
    readWhole mode ⟨[], run ++ more⟩ =
      (readAfter mode (PrefixSet.ofRun (run ++ more.takeWhile Head.isPrefixByte))
        ⟨more.takeWhile Head.isPrefixByte, more.dropWhile Head.isPrefixByte⟩).map
          fun p => (p.1, p.2.behind run) := by
  have huniform := (isComposed_readAfter mode
    (PrefixSet.ofRun (run ++ more.takeWhile Head.isPrefixByte))).isUniform
  rw [← huniform run]
  -- the prefixes are read in one go, up to the end of those behind the run
  have hcursor : ((⟨[], run ++ more⟩ : Cursor).readWhile Head.isPrefixByte).2 =
      (⟨more.takeWhile Head.isPrefixByte, more.dropWhile Head.isPrefixByte⟩ : Cursor).behind
        run := by
    simp only [Cursor.readWhile, Cursor.behind, List.takeWhile_append_of_pos hrun,
      List.dropWhile_append_of_pos hrun, List.nil_append]
  rw [readWhole, Head.read_eq, hcursor, List.takeWhile_append_of_pos hrun]
  rfl

/-- Decoding looks at the first 15 bytes only. -/
theorem decode_take_maxLength (code : List Byte) :
    decode mode (code.take Instruction.maxLength) = decode mode code := by
  rw [decode_eq_map_readWhole, List.take_take, Nat.min_self, ← decode_eq_map_readWhole]

/-- Decoding a run of prefixes and what stands behind it, within the first 15 bytes. -/
theorem decode_run_append (hrun : ∀ b ∈ run, Head.isPrefixByte b = true) (more : List Byte)
    (hlen : run.length + more.length ≤ Instruction.maxLength) :
    decode mode (run ++ more) =
      (readAfter mode (PrefixSet.ofRun (run ++ more.takeWhile Head.isPrefixByte))
        ⟨more.takeWhile Head.isPrefixByte, more.dropWhile Head.isPrefixByte⟩).map
          fun p => { p.1 with length := run.length + p.2.offset } := by
  have htake : (run ++ more).take Instruction.maxLength = run ++ more :=
    List.take_of_length_le (by rwa [List.length_append])
  rw [decode_eq_map_readWhole, htake, readWhole_run_append mode hrun]
  cases readAfter mode (PrefixSet.ofRun (run ++ more.takeWhile Head.isPrefixByte))
      ⟨more.takeWhile Head.isPrefixByte, more.dropWhile Head.isPrefixByte⟩ with
  | error e => rfl
  | ok p => simp only [Except.map, Cursor.offset_behind]

/-- Fifteen prefixes leave no room for an opcode. -/
theorem decode_of_long_run (hrun : ∀ b ∈ run, Head.isPrefixByte b = true)
    (hlen : Instruction.maxLength ≤ run.length) (more : List Byte) :
    decode mode (run ++ more) = .error .insufficientLength := by
  have hfront : ∀ b ∈ run.take Instruction.maxLength, Head.isPrefixByte b = true :=
    fun b hb => hrun b (List.mem_of_mem_take hb)
  have hdecode := decode_run_append mode hfront []
    (List.length_take_of_le hlen).le
  rw [List.append_nil] at hdecode
  rw [← decode_take_maxLength, List.take_append_of_le_length hlen, hdecode]
  rfl

/-- A run of prefixes can be exchanged for one that is no longer and leaves the same set. An
instruction becomes shorter by the difference, and an error that is not for want of bytes stays. -/
theorem decode_exchange (hrun : ∀ b ∈ run, Head.isPrefixByte b = true)
    (hrun' : ∀ b ∈ run', Head.isPrefixByte b = true) (hle : run'.length ≤ run.length)
    (hset : PrefixSet.ofList (run.filterMap Prefix.ofByte?) =
      PrefixSet.ofList (run'.filterMap Prefix.ofByte?))
    (more : List Byte) :
    (∀ i, decode mode (run ++ more) = .ok i →
      ∃ n, i.length = n + (run.length - run'.length) ∧
        decode mode (run' ++ more) = .ok { i with length := n }) ∧
    (∀ e, decode mode (run ++ more) = .error e → e ≠ .insufficientLength →
      decode mode (run' ++ more) = .error e) := by
  by_cases hlong : Instruction.maxLength ≤ run.length
  · rw [decode_of_long_run mode hrun hlong]
    refine ⟨fun i h => (by cases h), fun e h hne => ?_⟩
    cases h
    exact absurd rfl hne
  · -- the bytes behind the run that decoding sees; behind the other run it sees these and perhaps
    -- more
    obtain ⟨seen, hseen⟩ : ∃ seen, seen = more.take (Instruction.maxLength - run.length) := ⟨_, rfl⟩
    have hlen : run.length + seen.length ≤ Instruction.maxLength := by
      rw [hseen, List.length_take]
      omega
    have hfront : decode mode (run ++ more) = decode mode (run ++ seen) := by
      rw [← decode_take_maxLength mode (run ++ more), List.take_append,
        List.take_of_length_le (Nat.le_of_not_le hlong), hseen]
    have hback : decode mode (run' ++ seen) ≠ .error .insufficientLength →
        decode mode (run' ++ more) = decode mode (run' ++ seen) := by
      intro hne
      have happend := decode_append hne (more.drop (Instruction.maxLength - run.length))
      rwa [List.append_assoc, hseen, List.take_append_drop, ← hseen] at happend
    have hdecode := decode_run_append mode hrun seen hlen
    have hdecode' := decode_run_append mode hrun' seen (by omega)
    rw [← PrefixSet.ofRun_append_congr hset] at hdecode'
    rw [hfront]
    -- both runs are followed by the same read
    cases hread : readAfter mode (PrefixSet.ofRun (run ++ seen.takeWhile Head.isPrefixByte))
        ⟨seen.takeWhile Head.isPrefixByte, seen.dropWhile Head.isPrefixByte⟩ with
    | error e =>
      rw [hread] at hdecode hdecode'
      rw [hdecode]
      refine ⟨fun i h => (by cases h), fun e' h hne => ?_⟩
      cases h
      rw [hback, hdecode']
      · rfl
      · rw [hdecode']
        exact fun h => hne (Except.error.inj h)
    | ok p =>
      rw [hread] at hdecode hdecode'
      rw [hdecode]
      refine ⟨fun i h => ?_, fun e h => (by cases h)⟩
      cases h
      refine ⟨run'.length + p.2.offset, by dsimp only; omega, ?_⟩
      rw [hback, hdecode']
      · rfl
      · rw [hdecode']
        exact fun h => by cases h

end Run

/-! ### The order of prefixes -/

namespace PrefixSet

/-- The last segment override of a run. -/
def lastSegment? (run : List Byte) : Option Byte :=
  run.reverse.find? fun b => (Segment.ofByte? b).isSome

/-- The last repeat prefix of a run. -/
def lastRepeat? (run : List Byte) : Option Byte := run.reverse.find? fun b => b == 0xf2 || b == 0xf3

theorem find?_reverse_filterMap (p : Prefix → Bool) (run : List Byte) :
    (run.filterMap Prefix.ofByte?).reverse.find? p =
      (run.reverse.find? fun b => (Prefix.ofByte? b).any p).bind Prefix.ofByte? := by
  rw [← List.filterMap_reverse, List.find?_filterMap]

theorem any_segment_ofByte? (b : Byte) :
    (Prefix.ofByte? b).any (·.segment?.isSome) = (Segment.ofByte? b).isSome := by
  rw [Segment.ofByte?]
  cases Prefix.ofByte? b <;> rfl

theorem any_isRepeat_ofByte? (b : Byte) :
    (Prefix.ofByte? b).any Prefix.isRepeat = (b == 0xf2 || b == 0xf3) := by
  revert b
  decide +kernel

/-- The order of a run matters to its set only through the last segment override and the last repeat
prefix. -/
theorem ofList_filterMap_eq_of_perm {run run' : List Byte} (hperm : run.Perm run')
    (hsegment : lastSegment? run = lastSegment? run')
    (hrepeat : lastRepeat? run = lastRepeat? run') :
    ofList (run.filterMap Prefix.ofByte?) = ofList (run'.filterMap Prefix.ofByte?) := by
  apply ofList_eq_of_perm (hperm.filterMap _)
  · simp only [find?_reverse_filterMap, any_segment_ofByte?]
    exact congrArg (·.bind Prefix.ofByte?) hsegment
  · simp only [find?_reverse_filterMap, any_isRepeat_ofByte?]
    exact congrArg (·.bind Prefix.ofByte?) hrepeat

end PrefixSet

/-- Runs of the same length that leave the same set are decoded alike. -/
theorem decode_eq_of_length_eq (mode : Mode) {run run' : List Byte}
    (hrun : ∀ b ∈ run, Head.isPrefixByte b = true) (hrun' : ∀ b ∈ run', Head.isPrefixByte b = true)
    (hlength : run.length = run'.length)
    (hset : PrefixSet.ofList (run.filterMap Prefix.ofByte?) =
      PrefixSet.ofList (run'.filterMap Prefix.ofByte?))
    (more : List Byte) : decode mode (run ++ more) = decode mode (run' ++ more) := by
  obtain ⟨hok, herror⟩ := decode_exchange mode hrun hrun' hlength.ge hset more
  obtain ⟨hok', herror'⟩ := decode_exchange mode hrun' hrun hlength.le hset.symm more
  cases h : decode mode (run ++ more) with
  | ok i =>
    obtain ⟨n, hn, hdecode⟩ := hok i h
    rw [hlength, Nat.sub_self, Nat.add_zero] at hn
    rw [hdecode, ← hn]
  | error e =>
    cases h' : decode mode (run' ++ more) with
    | ok j =>
      obtain ⟨n, -, hdecode⟩ := hok' j h'
      rw [h] at hdecode
      cases hdecode
    | error e' =>
      -- an error for want of bytes cannot stand beside another one
      by_cases he : e = .insufficientLength
      · by_cases he' : e' = .insufficientLength
        · rw [he, he']
        · exact h.symm.trans (herror' e' h' he')
      · exact (herror e h he).symm.trans h'

/-- Decoding depends on a run of prefixes only through the set that it leaves and through its
length. In exchange for a run that is no longer and leaves the same set, an instruction becomes
shorter by the difference, and an error that is not for want of bytes stays. A run in another order
with the same last segment override and the same last repeat prefix changes nothing. -/
theorem decode_prefix_exchange (mode : Mode) (r p q : List Byte)
    (hp : ∀ b ∈ p, Head.isPrefixByte b = true) (hq : ∀ b ∈ q, Head.isPrefixByte b = true) :
    (q.length ≤ p.length →
      PrefixSet.ofList (p.filterMap Prefix.ofByte?) =
        PrefixSet.ofList (q.filterMap Prefix.ofByte?) →
      (∀ i, decode mode (p ++ r) = .ok i →
        ∃ n, i.length = n + (p.length - q.length) ∧
          decode mode (q ++ r) = .ok { i with length := n }) ∧
        (∀ e, decode mode (p ++ r) = .error e → e ≠ .insufficientLength →
          decode mode (q ++ r) = .error e)) ∧
    (p.Perm q → PrefixSet.lastSegment? p = PrefixSet.lastSegment? q →
      PrefixSet.lastRepeat? p = PrefixSet.lastRepeat? q →
      decode mode (p ++ r) = decode mode (q ++ r)) := by
  refine ⟨fun hle hset => decode_exchange mode hp hq hle hset r, fun hperm hsegment hrepeat => ?_⟩
  have hset := PrefixSet.ofList_filterMap_eq_of_perm hperm hsegment hrepeat
  exact decode_eq_of_length_eq mode hp hq hperm.length_eq hset r

/-- Of these prefixes one operand size prefix, one segment override and one repeat prefix count. -/
def crowdedRun : List Byte := [0x66, 0xf3, 0x2e, 0x66, 0x64, 0xf2]

/-- The prefixes of the crowded run that count. -/
def sparseRun : List Byte := [0x64, 0xf2, 0x66]

/-- The crowded run with its last segment override and its last repeat prefix in front of an operand
size prefix. -/
def shuffledRun : List Byte := [0x2e, 0x66, 0x64, 0xf3, 0xf2, 0x66]

/-- The runs before the move of an immediate to an indexed operand, and before a move of registers
that a repeat prefix makes undefined. -/
theorem decode_prefix_exchange_crowded :
    (∃ i, decode .long64 (crowdedRun ++ [0xc7, 0x44, 0x8b, 0x10, 0x34, 0x12]) = .ok i ∧
      i.length = 12 ∧
      decode .long64 (sparseRun ++ [0xc7, 0x44, 0x8b, 0x10, 0x34, 0x12]) =
        .ok { i with length := 9 } ∧
      decode .long64 (shuffledRun ++ [0xc7, 0x44, 0x8b, 0x10, 0x34, 0x12]) = .ok i) ∧
    decode .long64 (crowdedRun ++ [0x0f, 0x28, 0xc0]) = .error .unknownOpcode ∧
    decode .long64 (sparseRun ++ [0x0f, 0x28, 0xc0]) = .error .unknownOpcode := by
  have hmove : ∃ i, decode .long64 (crowdedRun ++ [0xc7, 0x44, 0x8b, 0x10, 0x34, 0x12]) = .ok i ∧
      i.length = 12 := ⟨_, rfl, rfl⟩
  have hundefined : decode .long64 (crowdedRun ++ [0x0f, 0x28, 0xc0]) = .error .unknownOpcode := rfl
  obtain ⟨i, hi, hlength⟩ := hmove
  refine ⟨⟨i, hi, hlength, ?_, ?_⟩, hundefined, ?_⟩
  · have hexchange :=
      (decode_prefix_exchange .long64 [0xc7, 0x44, 0x8b, 0x10, 0x34, 0x12] crowdedRun
      sparseRun (by decide) (by decide)).1 (by decide) (by decide)
    obtain ⟨n, hn, hdecode⟩ := hexchange.1 i hi
    have hnine : n = 9 := Nat.add_right_cancel (hn.symm.trans hlength)
    rw [hdecode, hnine]
  · rw [← hi]
    exact ((decode_prefix_exchange .long64 _ crowdedRun shuffledRun (by decide) (by decide)).2
      (by decide) (by decide) (by decide)).symm
  · have hexchange := (decode_prefix_exchange .long64 [0x0f, 0x28, 0xc0] crowdedRun
      sparseRun (by decide) (by decide)).1 (by decide) (by decide)
    exact hexchange.2 .unknownOpcode hundefined (by decide)

end LengthDisasm
