import LengthDisasm.Proofs.Layout
import LengthDisasm.Proofs.LongMode
import LengthDisasm.Proofs.PrefixExchange

/-!
# The prefixes that an instruction reports

The prefixes of a decoded instruction are in a field of its flags. They are what the bytes in front
of the opcode say and nothing else: no other part of the instruction reaches into the field, and
what offset moves make of the operand size is forgotten.

## Main definitions

* `Prefix.byte?` — the byte of a legacy prefix
* `PrefixSet.Reports` — a set of prefixes is what a run and the bytes behind it say

## Main results

* `PrefixSet.contains_unprefixed_ofRun`, `PrefixSet.contains_unprefixed_ofRun_iff` — when a run is
  marked as empty
* `PrefixSet.contains_segment_ofRun_iff`, `PrefixSet.contains_repeat_ofRun_iff` — what the set of a
  run has
* `Parse.contains_prefixes` — the prefixes of an instruction are those of its head
* `decode_reports_prefixes` — they are what the bytes say
-/

namespace LengthDisasm

/-! ### Bytes of prefixes -/

/-- The byte of a legacy prefix. -/
def Prefix.byte? : Prefix → Option Byte
  | unprefixed | rex => none
  | repNZ => some 0xf2
  | rep => some 0xf3
  | opSize => some 0x66
  | addrSize => some 0x67
  | lock => some 0xf0
  | segment s => some s.byte

theorem Prefix.ofByte?_eq_some_iff {b : Byte} {q : Prefix} :
    ofByte? b = some q ↔ q.byte? = some b := by
  have hall : ∀ b, (ofByte? b).all (fun q => q.byte? == some b) = true := by decide +kernel
  constructor
  · intro h
    have hb := hall b
    rw [h, Option.all_some, beq_iff_eq] at hb
    exact hb
  · intro h
    cases q with
    | unprefixed | rex => cases h
    | segment s =>
      cases h
      cases s <;> rfl
    | _ =>
      cases h
      rfl

namespace PrefixSet

variable {run : List Byte}

/-- No byte stands for the absence of prefixes. -/
theorem contains_unprefixed_filterMap (run : List Byte) :
    (ofList (run.filterMap Prefix.ofByte?)).contains .unprefixed = false := by
  rw [contains_ofList_of_isLasting rfl, decide_eq_false_iff_not, List.mem_filterMap]
  rintro ⟨b, -, hb⟩
  cases Prefix.ofByte?_eq_some_iff.mp hb

/-- A run is marked as empty if its bytes leave nothing. -/
theorem contains_unprefixed_ofRun_eq (run : List Byte) :
    (ofRun run).contains .unprefixed = (ofList (run.filterMap Prefix.ofByte?)).isEmpty := by
  unfold ofRun
  dsimp only
  cases (ofList (run.filterMap Prefix.ofByte?)).isEmpty with
  | true =>
    rw [if_pos rfl, contains_insert, Prefix.competes_of_isLasting rfl]
    rfl
  | false => rw [if_neg Bool.false_ne_true, contains_unprefixed_filterMap]

/-- The mark of an empty run is there if no prefix is. -/
theorem contains_unprefixed_ofRun_iff (run : List Byte) :
    (ofRun run).contains .unprefixed = true ↔ ∀ q, q ≠ .unprefixed →
    (ofRun run).contains q = false := by
  rw [contains_unprefixed_ofRun_eq, isEmpty_ofList_iff]
  constructor
  · intro hall q hq
    rw [contains_ofRun_of_ne hq, hall]
  · intro hall q
    by_cases hq : q = .unprefixed
    · rw [hq, contains_unprefixed_filterMap]
    · rw [← contains_ofRun_of_ne hq, hall q hq]

/-- A run that is not empty has a last prefix, which is in its set, so that nothing marks the run as
empty. -/
theorem contains_unprefixed_ofRun (hrun : ∀ b ∈ run, Head.isPrefixByte b = true) :
    (ofRun run).contains .unprefixed = run.isEmpty := by
  rw [contains_unprefixed_ofRun_eq]
  cases run using List.reverseRecOn with
  | nil => rfl
  | append_singleton run b =>
    obtain ⟨q, hq⟩ : ∃ q, Prefix.ofByte? b = some q :=
      Option.isSome_iff_exists.mp (hrun b (List.mem_append_right run List.mem_cons_self))
    have hlist : (run ++ [b]).filterMap Prefix.ofByte? = run.filterMap Prefix.ofByte? ++ [q] := by
      simp [hq]
    have hlast : (ofList ((run ++ [b]).filterMap Prefix.ofByte?)).contains q = true := by
      have hself : q.competes q = true := by simp [Prefix.competes]
      rw [hlist, ofList_concat, contains_insert, if_pos hself, beq_self_eq_true]
    have hsome : (ofList ((run ++ [b]).filterMap Prefix.ofByte?)).isEmpty = false := by
      rw [Bool.eq_false_iff, Ne, isEmpty_ofList_iff]
      intro hall
      rw [hall] at hlast
      cases hlast
    rw [hsome]
    simp

/-- Prefixes that last are in the set of a run if their byte stands in the run. -/
theorem contains_ofRun_iff_mem {q : Prefix} (hq : q.isLasting = true) {b : Byte}
    (hb : q.byte? = some b) (run : List Byte) : (ofRun run).contains q = true ↔ b ∈ run := by
  have hne : q ≠ .unprefixed := by
    rintro rfl
    cases hb
  rw [contains_ofRun hq hne, List.any_eq_true]
  simp only [beq_iff_eq, Prefix.ofByte?_eq_some_iff, hb, Option.some.injEq, exists_eq_right']

/-- Of the other prefixes the last one that competes for the place is in the set. -/
theorem contains_ofRun_iff_find? {q : Prefix} {b : Byte} (hb : q.byte? = some b) (run : List Byte) :
    (ofRun run).contains q = true ↔
      (run.reverse.find? fun b => (Prefix.ofByte? b).any q.competes) = some b := by
  have hne : q ≠ .unprefixed := by
    rintro rfl
    cases hb
  rw [contains_ofRun_of_ne hne, contains_ofList, find?_reverse_filterMap, beq_iff_eq,
    Option.bind_eq_some_iff]
  simp only [Prefix.ofByte?_eq_some_iff, hb, Option.some.injEq, exists_eq_right']

theorem contains_segment_ofRun_iff (s : Segment) (run : List Byte) :
    (ofRun run).contains (.segment s) = true ↔ lastSegment? run = some s.byte := by
  rw [contains_ofRun_iff_find? rfl, Prefix.competes_segment]
  simp only [any_segment_ofByte?]
  rfl

theorem contains_repeat_ofRun_iff {q : Prefix} (hq : q.isRepeat = true) {b : Byte}
    (hb : q.byte? = some b)
    (run : List Byte) : (ofRun run).contains q = true ↔ lastRepeat? run = some b := by
  rw [contains_ofRun_iff_find? hb, Prefix.competes_of_isRepeat hq]
  simp only [any_isRepeat_ofByte?]
  rfl

theorem getLsbD_ofRun_of_le {k : Nat} (hk : 13 ≤ k) (run : List Byte) :
    (ofRun run).bits.getLsbD k = false := by
  unfold ofRun
  dsimp only
  split
  · rw [← ofList_concat, getLsbD_ofList_of_le hk]
  · exact getLsbD_ofList_of_le hk _

end PrefixSet

/-! ### The field of prefixes -/

namespace InsnFlags

/-- The prefix set is a field of the flags. -/
theorem getLsbD_prefixes (f : InsnFlags) (k : Nat) :
    f.prefixes.bits.getLsbD k = (decide (k < 13) && f.bits.getLsbD (10 + k)) := by
  simp only [prefixes, prefixField, BitVec.getLsbD_setWidth, BitVec.getLsbD_extractLsb']
  by_cases hk : k < 13
  · have hk' : k < 16 := Nat.lt_trans hk (by decide)
    simp [hk, hk']
  · simp [hk]

theorem contains_prefixes (f : InsnFlags) (q : Prefix) :
    f.prefixes.contains q = f.contains (.ofPrefix q) := by
  have hlt := q.position_lt
  have hflag : ofPrefix q = ⟨BitVec.twoPow 32 (10 + q.position)⟩ := by
    cases q with
    | segment s => cases s <;> rfl
    | _ => rfl
  rw [hflag, contains_twoPow f _ (by omega), PrefixSet.contains_eq_getLsbD, getLsbD_prefixes,
    decide_eq_true hlt, Bool.true_and]

end InsnFlags

namespace Parse

variable {mode : Mode} (p : Parse mode)

/-- The prefixes of an instruction are those of its head: literals and addressing bytes do not reach
them. -/
theorem getLsbD_prefixes (k : Nat) : p.instruction.prefixes.bits.getLsbD k =
    (p.head.prefixes.bits.getLsbD k || p.head.rex.isSome && decide (k = 6)) := by
  rw [Instruction.prefixes, InsnFlags.getLsbD_prefixes]
  by_cases hk : k < 13
  · have hmask : ∀ k < 13, (~~~Slot.flagMask).getLsbD (10 + k) = true := by decide
    rw [p.getLsbD_flags (hmask k hk), p.head.getLsbD_flags_withAddressing, p.head.getLsbD_flags]
    have hfield : 10 ≤ 10 + k ∧ 10 + k < 23 := by omega
    have hrex : decide (10 + k = 16) = decide (k = 6) := decide_eq_decide.mpr (by omega)
    have hsib : ¬ 10 + k = 1 := by omega
    simp [hk, hfield, hrex, hsib]
  · have hrex : ¬ k = 6 := by omega
    rw [p.prefixes_eq, PrefixSet.getLsbD_ofRun_of_le (Nat.le_of_not_lt hk)]
    simp [hk, hrex]

theorem contains_prefixes (q : Prefix) : p.instruction.prefixes.contains q =
    ((PrefixSet.ofRun p.run).contains q || p.head.rex.isSome && q == .rex) := by
  have hrex : decide (q.position = 6) = (q == .rex) := by
    cases q with
    | segment s => cases s <;> rfl
    | _ => rfl
  rw [PrefixSet.contains_eq_getLsbD, p.getLsbD_prefixes, hrex, p.prefixes_eq,
    PrefixSet.contains_eq_getLsbD]

/-- A legacy prefix is in the set of the instruction if it is in that of the run. -/
theorem contains_prefixes_of_ne {q : Prefix} (hq : q ≠ .rex) :
    p.instruction.prefixes.contains q = (PrefixSet.ofRun p.run).contains q := by
  rw [p.contains_prefixes, beq_false_of_ne hq, Bool.and_false, Bool.or_false]

/-- Behind the prefixes stand the REX byte and the opcode. -/
theorem dropWhile_bytes_append (more : List Byte) : (p.bytes ++ more).dropWhile Head.isPrefixByte =
    p.head.rexBytes ++ p.head.opcode.bytes ++
      (p.addressing.bytes ++ p.literals.flatMap Literal.bytes ++ more) := by
  obtain ⟨b, after, hfirst, hb⟩ := p.fits.exists_first
  simp only [bytes, hfirst, List.append_assoc, List.cons_append]
  rw [List.dropWhile_append_of_pos p.run_isPrefix, List.dropWhile_cons, hb]
  rfl

/-- A REX byte is the byte behind the prefixes, in 64-bit mode. -/
theorem isSome_rex_iff (more : List Byte) : p.head.rex.isSome = true ↔
    mode = .long64 ∧ ∃ b, ((p.bytes ++ more).dropWhile Head.isPrefixByte).head? = some b ∧
      0x40 ≤ b ∧ b ≤ 0x4f := by
  have hlong : mode.isLong = true ↔ mode = .long64 := by cases mode <;> decide
  have hbyte : ∀ b : Byte, Rex.isRexByte b = true ↔ 0x40 ≤ b ∧ b ≤ 0x4f := fun b => by
    rw [Rex.isRexByte_eq, decide_eq_true_iff]
  simp only [← hlong, ← hbyte, p.dropWhile_bytes_append]
  cases hrex : p.head.rex with
  | none =>
    -- then the opcode stands there, which is no REX byte in 64-bit mode
    have hfirst : (p.head.rexBytes ++ p.head.opcode.bytes ++
        (p.addressing.bytes ++ p.literals.flatMap Literal.bytes ++ more)).head? =
          some p.head.opcode.first := by
      rw [Head.rexBytes, hrex]
      cases p.head.opcode <;> rfl
    refine iff_of_false Bool.false_ne_true ?_
    rintro ⟨hmode, b, hb, hisRex⟩
    rw [hfirst, Option.some.injEq] at hb
    rw [← hb, p.fits.first_ne_rex hmode] at hisRex
    cases hisRex
  | some r =>
    obtain ⟨hmode, hisRex⟩ := p.fits.rex r hrex
    refine iff_of_true rfl ⟨hmode, r.byte, ?_, hisRex⟩
    rw [Head.rexBytes, hrex]
    rfl

end Parse

/-! ### What the bytes say -/

/-- The set of prefixes is what a run of prefix bytes says, and the byte behind it in this mode. -/
structure PrefixSet.Reports (s : PrefixSet) (mode : Mode) (run rest : List Byte) : Prop where
  unprefixed : s.contains .unprefixed = true ↔ run = []
  opSize : s.contains .opSize = true ↔ 0x66 ∈ run
  addrSize : s.contains .addrSize = true ↔ 0x67 ∈ run
  lock : s.contains .lock = true ↔ 0xf0 ∈ run
  /-- Of the repeat prefixes the last one counts. -/
  rep : s.contains .rep = true ↔ lastRepeat? run = some 0xf3
  repNZ : s.contains .repNZ = true ↔ lastRepeat? run = some 0xf2
  /-- Of the segment overrides the last one counts. -/
  segment : ∀ seg, s.contains (.segment seg) = true ↔ lastSegment? run = some seg.byte
  rex : s.contains .rex = true ↔ mode = .long64 ∧ ∃ b, rest.head? = some b ∧ 0x40 ≤ b ∧ b ≤ 0x4f
  /-- No bit is set that does not stand for a prefix. -/
  only : ∀ k, 13 ≤ k → s.bits.getLsbD k = false

theorem Parse.reports {mode : Mode} (p : Parse mode) (more : List Byte) :
    p.instruction.prefixes.Reports mode p.run ((p.bytes ++ more).dropWhile Head.isPrefixByte) where
  unprefixed := by
    rw [p.contains_prefixes_of_ne (by decide), PrefixSet.contains_unprefixed_ofRun p.run_isPrefix,
      List.isEmpty_iff]
  opSize := by rw [p.contains_prefixes_of_ne (by decide), PrefixSet.contains_ofRun_iff_mem rfl rfl]
  addrSize := by
    rw [p.contains_prefixes_of_ne (by decide), PrefixSet.contains_ofRun_iff_mem rfl rfl]
  lock := by rw [p.contains_prefixes_of_ne (by decide), PrefixSet.contains_ofRun_iff_mem rfl rfl]
  rep := by rw [p.contains_prefixes_of_ne (by decide), PrefixSet.contains_repeat_ofRun_iff rfl rfl]
  repNZ := by
    rw [p.contains_prefixes_of_ne (by decide), PrefixSet.contains_repeat_ofRun_iff rfl rfl]
  segment s := by rw [p.contains_prefixes_of_ne (by nofun), PrefixSet.contains_segment_ofRun_iff]
  rex := by
    have hnone : (PrefixSet.ofRun p.run).contains .rex = false := by
      rw [PrefixSet.contains_eq_getLsbD]
      exact PrefixSet.getLsbD_rex_ofRun p.run
    rw [p.contains_prefixes, hnone, beq_self_eq_true, Bool.and_true, Bool.false_or,
      p.isSome_rex_iff more]
  only k hk := by
    have hrex : ¬ k = 6 := by omega
    rw [p.getLsbD_prefixes, p.prefixes_eq, PrefixSet.getLsbD_ofRun_of_le hk, decide_eq_false hrex,
      Bool.and_false, Bool.or_false]

/-- The prefixes of a decoded instruction are what its bytes say. There are at most 14 legacy
prefixes, and the flags of the instruction show the same prefixes as its prefix set, whatever its
opcode makes of them. -/
theorem decode_reports_prefixes (mode : Mode) (code : List Byte) (i : Instruction)
    (h : decode mode code = .ok i) :
    (code.takeWhile Head.isPrefixByte).length ≤ 14 ∧
      i.prefixes.Reports mode (code.takeWhile Head.isPrefixByte)
        (code.dropWhile Head.isPrefixByte) ∧
      ∀ q, i.flags.contains (.ofPrefix q) = i.prefixes.contains q := by
  obtain ⟨p, rfl, hbytes, hrun⟩ := exists_parse_of_decode h
  have hcode : p.bytes ++ code.drop p.instruction.length = code := by
    rw [hbytes, List.take_append_drop]
  refine ⟨?_, ?_, fun q => (p.instruction.flags.contains_prefixes q).symm⟩
  · -- fifteen prefixes would leave no room for an opcode
    by_contra hlong
    rw [← List.takeWhile_append_dropWhile (p := Head.isPrefixByte) (l := code), ← hrun,
      decode_of_long_run mode p.run_isPrefix] at h
    · cases h
    · rw [hrun]
      exact Nat.lt_of_not_le hlong
  · have hreports := p.reports (code.drop p.instruction.length)
    rwa [hcode, hrun] at hreports

/-- An offset move whose offset has 16 bits under the address size prefix: the operand size is not
reported, and of the two segment overrides the last one is. -/
theorem decode_reports_prefixes_offset_move :
    ∃ i, decode .protected32 [0x64, 0x67, 0x3e, 0xa1, 1, 2] = .ok i ∧ i.length = 6 ∧
      i.prefixes.Reports .protected32 [0x64, 0x67, 0x3e] [0xa1, 1, 2] ∧
      i.flags.contains (.ofPrefix .opSize) = false := by
  obtain ⟨i, hdecode, hlength⟩ : ∃ i,
      decode .protected32 [0x64, 0x67, 0x3e, 0xa1, 1, 2] = .ok i ∧ i.length = 6 := ⟨_, rfl, rfl⟩
  obtain ⟨-, hreports, hflags⟩ := decode_reports_prefixes .protected32 _ i hdecode
  have hnone : (0x66 : Byte) ∉ [0x64, 0x67, 0x3e] := by decide
  refine ⟨i, hdecode, hlength, hreports, ?_⟩
  rw [hflags, Bool.eq_false_iff, Ne, hreports.opSize]
  exact hnone

end LengthDisasm
