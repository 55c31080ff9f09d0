import LengthDisasm.Instruction.Record
import LengthDisasm.Proofs.FlagNames
import LengthDisasm.Proofs.Lock
import LengthDisasm.Proofs.WellFormed

/-!
# Compact records lose nothing

A compact record moves the bits of the prefixes, lets all segment overrides share one bit and drops
the widths of the literals. Nothing is lost by that. The segment override is in a byte of its own,
and which parts are there is in the flags. The widths follow from the slots of the instruction.
These are determined by the opcode, the prefixes and the addressing bytes, all of which the record
has.

## Main definitions

* `InsnFlags.IsPlain` — the flag word has bits of flags only, and one segment override at most
* `CompactFlags.place` — the bit of a prefix in the flag word of a record

## Main results

* `CompactFlags.eq_of_ofFlags_eq` — flags from their compact form
* `Parse.isPlain_flags` — the flags of an instruction are plain
* `Parse.width_kept_congr` — the widths of the literals follow from the other parts
* `decode_record_lossless` — records of decoded instructions and compact flags lose nothing
-/

namespace LengthDisasm

/-- Options that are both there or both absent are told apart by their values, whatever stands for
an absent one. -/
theorem eq_of_getD_map_eq {α β : Type} {f : α → β} {absent : β} {o o' : Option α}
    (hsome : o.isSome = o'.isSome)
    (hinj : ∀ a ∈ o, ∀ b ∈ o', f a = f b → a = b)
    (h : (o.map f).getD absent = (o'.map f).getD absent) : o = o' := by
  cases o with
  | none =>
    cases o' with
    | none => rfl
    | some b => cases hsome
  | some a =>
    cases o' with
    | none => cases hsome
    | some b => rw [hinj a rfl b rfl h]

/-! ### Plain flags -/

theorem Segment.byte_injective {s t : Segment} (h : s.byte = t.byte) : s = t := by
  revert h
  cases s <;> cases t <;> decide

namespace InsnFlags

/-- The flag of a prefix is a bit of the prefix field. -/
theorem contains_ofPrefix (f : InsnFlags) (q : Prefix) :
    f.contains (.ofPrefix q) = f.bits.getLsbD (10 + q.position) := by
  rw [← contains_prefixes, PrefixSet.contains_eq_getLsbD, getLsbD_prefixes,
    decide_eq_true q.position_lt, Bool.true_and]

/-- Only bits of flags are set, and not two segment overrides at once. -/
structure IsPlain (f : InsnFlags) : Prop where
  only : ∀ k, 23 ≤ k → f.bits.getLsbD k = false
  segment_unique : ∀ s t, f.contains (.ofPrefix (.segment s)) = true →
    f.contains (.ofPrefix (.segment t)) = true → s = t

theorem contains_of_segment?_eq_some {f : InsnFlags} {s : Segment} (h : f.segment? = some s) :
    f.contains (.ofPrefix (.segment s)) = true := by
  obtain ⟨q, hq, hsegment⟩ := List.exists_of_findSome?_eq_some h
  rw [PrefixSet.toList, List.mem_filter, contains_prefixes] at hq
  cases q with
  | segment t =>
    cases hsegment
    exact hq.2
  | _ => cases hsegment

theorem IsPlain.segment?_eq_some_iff {f : InsnFlags} (hf : f.IsPlain) (s : Segment) :
    f.segment? = some s ↔ f.contains (.ofPrefix (.segment s)) = true := by
  refine ⟨contains_of_segment?_eq_some, fun h => ?_⟩
  have hmem : Prefix.segment s ∈ f.prefixes.toList := by
    rw [PrefixSet.toList, List.mem_filter, contains_prefixes]
    exact ⟨by cases s <;> decide, h⟩
  -- some override is found, and there is only one
  obtain ⟨t, ht⟩ : ∃ t, f.segment? = some t := by
    rw [← Option.isSome_iff_exists, segment?, PrefixSet.segment?, List.findSome?_isSome_iff]
    exact ⟨_, hmem, rfl⟩
  rw [ht, hf.segment_unique t s (contains_of_segment?_eq_some ht) h]

end InsnFlags

/-! ### Compact flags -/

namespace CompactFlags

/-- The bit of a prefix in the flag word of a record. -/
def place : Prefix → Nat
  | .unprefixed => 23
  | .repNZ => 24
  | .rep => 25
  | .opSize => 26
  | .addrSize => 27
  | .lock => 28
  | .segment _ => 29
  | .rex => 30

/-- The flag word bit by bit. -/
theorem getLsbD_word (f : InsnFlags) (k : Nat) : (ofFlags f).word.getLsbD k =
    (f.bits.getLsbD k && structureMask.getLsbD k ||
      (prefixBits.any fun entry => f.contains (.ofPrefix entry.1) && entry.2.getLsbD k) ||
      f.segment?.isSome && segmentBit.getLsbD k) := by
  unfold ofFlags
  dsimp only
  cases f.segment? with
  | none => simp [Bits.getLsbD_foldl_or, List.any_filter]
  | some s => simp [Bits.getLsbD_foldl_or, List.any_filter]

theorem getLsbD_word_of_lt (f : InsnFlags) {k : Nat} (hk : k < 10) :
    (ofFlags f).word.getLsbD k = f.bits.getLsbD k := by
  have hbits : ∀ k < 10, structureMask.getLsbD k = true ∧ segmentBit.getLsbD k = false ∧
      ∀ entry ∈ prefixBits, entry.2.getLsbD k = false := by decide
  obtain ⟨hmask, hsegment, hprefixes⟩ := hbits k hk
  have hnone : (prefixBits.any fun entry => f.contains (.ofPrefix entry.1) && entry.2.getLsbD k) =
      false := by
    rw [List.any_eq_false]
    intro entry hentry
    simp [hprefixes entry hentry]
  rw [getLsbD_word, hmask, hsegment, hnone, Bool.and_true, Bool.and_false, Bool.or_false,
    Bool.or_false]

/-- Each prefix that is not a segment override has a bit of its own. -/
theorem getLsbD_word_place (f : InsnFlags) {q : Prefix} (hq : q.segment? = none) :
    (ofFlags f).word.getLsbD (place q) = f.contains (.ofPrefix q) := by
  rw [getLsbD_word]
  cases q with
  | segment s => cases hq
  | _ => simp [place, prefixBits, structureMask, segmentBit]

theorem getLsbD_word_segment (f : InsnFlags) : (ofFlags f).word.getLsbD 29 = f.segment?.isSome := by
  rw [getLsbD_word]
  simp [prefixBits, structureMask, segmentBit]

theorem segment_ofFlags (f : InsnFlags) :
    (ofFlags f).segment = (f.segment?.map Segment.byte).getD 0 := by
  unfold ofFlags
  cases f.segment? <;> rfl

/-- Plain flags can be told from their compact form. -/
theorem eq_of_ofFlags_eq {f g : InsnFlags} (hf : f.IsPlain) (hg : g.IsPlain)
    (h : ofFlags f = ofFlags g) : f = g := by
  have hsegment : f.segment? = g.segment? := by
    apply eq_of_getD_map_eq
    · rw [← getLsbD_word_segment, ← getLsbD_word_segment, h]
    · exact fun s _ t _ hbyte => Segment.byte_injective hbyte
    · rw [← segment_ofFlags, ← segment_ofFlags, h]
  apply InsnFlags.ext_getLsbD
  intro k _
  -- below the prefix field, inside it, or above it
  rcases Nat.lt_or_ge k 10 with hlow | hlow
  · rw [← getLsbD_word_of_lt f hlow, ← getLsbD_word_of_lt g hlow, h]
  rcases Nat.lt_or_ge k 23 with hfield | hhigh
  · obtain ⟨q, hq⟩ := Prefix.exists_position_eq (show k - 10 < 13 by omega)
    have hk : k = 10 + q.position := by omega
    rw [hk, ← InsnFlags.contains_ofPrefix, ← InsnFlags.contains_ofPrefix]
    cases hs : q.segment? with
    | none => rw [← getLsbD_word_place f hs, ← getLsbD_word_place g hs, h]
    | some s =>
      obtain rfl : q = .segment s := by cases q <;> cases hs; rfl
      rw [Bool.eq_iff_iff, ← hf.segment?_eq_some_iff, ← hg.segment?_eq_some_iff, hsegment]
  · rw [hf.only k hhigh, hg.only k hhigh]

end CompactFlags

/-! ### Decoded instructions -/

attribute [ext] Instruction

theorem Addressing.eq_of_parts {a b : Addressing} (hmodrm : a.modrm? = b.modrm?)
    (hsib : a.sib? = b.sib?) : a = b := by
  cases a <;> cases b <;> simp_all [modrm?, sib?]

/-- The bytes of an opcode tell it, as the escape byte is no opcode of its own. -/
theorem Head.Fits.opcode_eq {mode : Mode} {h h' : Head} (hfits : h.Fits mode)
    (hfits' : h'.Fits mode)
    (hfirst : h.opcode.first = h'.opcode.first) (hsecond : h.opcode.second = h'.opcode.second) :
    h.opcode = h'.opcode := by
  cases ho : h.opcode with
  | primary b =>
    cases ho' : h'.opcode with
    | primary b' =>
      rw [ho, ho'] at hfirst
      exact congrArg Opcode.primary hfirst
    | escaped b' =>
      rw [ho, ho'] at hfirst
      exact absurd hfirst (hfits.ne_escape b ho)
  | escaped b =>
    cases ho' : h'.opcode with
    | primary b' =>
      rw [ho, ho'] at hfirst
      exact absurd hfirst.symm (hfits'.ne_escape b' ho')
    | escaped b' =>
      rw [ho, ho'] at hsecond
      exact congrArg Opcode.escaped hsecond

namespace Parse

variable {mode : Mode}

theorem isPlain_flags (p : Parse mode) : p.instruction.flags.IsPlain where
  only k hk := by
    by_cases hlt : k < 32
    · have hmask : ∀ k < 32, 23 ≤ k → (~~~Slot.flagMask).getLsbD k = true := by decide
      have hfield : ¬ (10 ≤ k ∧ k < 23) := by omega
      have hbits : k ≠ 0 ∧ k ≠ 1 ∧ k ≠ 16 := by omega
      rw [p.getLsbD_flags (hmask k hlt hk), p.head.getLsbD_flags_withAddressing,
        p.head.getLsbD_flags]
      simp [hfield, hbits]
    · exact BitVec.getLsbD_of_ge _ _ (Nat.le_of_not_lt hlt)
  segment_unique s t hs ht := by
    -- the last override of the run is the only one
    rw [← InsnFlags.contains_prefixes] at hs ht
    have hs' := (p.contains_prefixes_of_ne (by nofun)).symm.trans hs
    have ht' := (p.contains_prefixes_of_ne (by nofun)).symm.trans ht
    rw [PrefixSet.contains_segment_ofRun_iff] at hs' ht'
    rw [hs', Option.some.injEq] at ht'
    exact Segment.byte_injective ht'

variable {p q : Parse mode}

/-- The flags of an instruction tell the prefixes of its head. -/
theorem prefixes_head_eq (hflags : p.instruction.flags = q.instruction.flags) :
    p.head.prefixes = q.head.prefixes := by
  have hbits : p.head.prefixes.bits = q.head.prefixes.bits := by
    apply BitVec.eq_of_getLsbD_eq
    intro k _
    by_cases hrex : k = 6
    · rw [hrex, p.prefixes_eq, q.prefixes_eq, PrefixSet.getLsbD_rex_ofRun,
        PrefixSet.getLsbD_rex_ofRun]
    · have hreported : p.instruction.prefixes = q.instruction.prefixes :=
        congrArg InsnFlags.prefixes hflags
      have hbit := congrArg (fun s : PrefixSet => s.bits.getLsbD k) hreported
      simpa [p.getLsbD_prefixes, q.getLsbD_prefixes, hrex] using hbit
  exact congrArg PrefixSet.mk hbits

/-- The widths of the literals follow from the other parts of an instruction. -/
theorem width_kept_congr (hflags : p.instruction.flags = q.instruction.flags)
    (hopcode : p.instruction.opcode = q.instruction.opcode)
    (hrex : p.instruction.rex = q.instruction.rex)
    (hmodrm : p.instruction.modrm = q.instruction.modrm)
    (hsib : p.instruction.sib = q.instruction.sib) (isDisp : Bool) :
    (p.instruction.kept isDisp).map Literal.width =
      (q.instruction.kept isDisp).map Literal.width := by
  rw [p.opcode_instruction, q.opcode_instruction] at hopcode
  rw [p.rex_instruction, q.rex_instruction] at hrex
  rw [p.modrm_instruction, q.modrm_instruction] at hmodrm
  rw [p.sib_instruction, q.sib_instruction] at hsib
  have hhead : p.head = q.head := by
    have hprefixes := prefixes_head_eq hflags
    cases hp : p.head
    cases hq : q.head
    rw [hp, hq] at hprefixes hrex hopcode
    congr
  have hform : p.form = q.form := by
    have hentry := p.form_eq
    rw [hhead, q.form_eq, Option.some.injEq] at hentry
    exact hentry.symm
  rw [p.width_kept, q.width_kept, hhead, hform, Addressing.eq_of_parts hmodrm hsib]

/-- A literal is told by its value, where the width follows from the other parts. -/
theorem kept_eq {isDisp : Bool} (hwidth : (p.instruction.kept isDisp).map Literal.width =
      (q.instruction.kept isDisp).map Literal.width)
    (hvalue : ((p.instruction.kept isDisp).map Literal.value).getD 0 =
      ((q.instruction.kept isDisp).map Literal.value).getD 0) :
    p.instruction.kept isDisp = q.instruction.kept isDisp := by
  apply eq_of_getD_map_eq _ _ hvalue
  · simpa using congrArg Option.isSome hwidth
  · intro l hl l' hl' heq
    rw [Option.mem_def] at hl hl'
    rw [hl, hl', Option.map_some, Option.map_some, Option.some.injEq] at hwidth
    cases l
    cases l'
    congr

/-- The record of an instruction tells all its parts. -/
theorem instruction_eq_of_record_eq (h : p.instruction.record = q.instruction.record) :
    p.instruction = q.instruction := by
  have hflags : p.instruction.flags = q.instruction.flags := by
    apply CompactFlags.eq_of_ofFlags_eq p.isPlain_flags q.isPlain_flags
    have hword := congrArg CompactRecord.flags h
    have hsegment := congrArg CompactRecord.segmentByte h
    simp only [Instruction.record] at hword hsegment
    cases hp : CompactFlags.ofFlags p.instruction.flags
    cases hq : CompactFlags.ofFlags q.instruction.flags
    rw [hp, hq] at hword hsegment
    congr
  have hopcode : p.instruction.opcode = q.instruction.opcode := by
    have hfirst := congrArg CompactRecord.opcode h
    have hsecond := congrArg CompactRecord.opcode2 h
    simp only [Instruction.record, opcode_instruction] at hfirst hsecond
    rw [p.opcode_instruction, q.opcode_instruction, p.fits.opcode_eq q.fits hfirst hsecond]
  have hrex : p.instruction.rex = q.instruction.rex := by
    apply eq_of_getD_map_eq _ _ (congrArg CompactRecord.rex h)
    · rw [← p.contains_rex, ← q.contains_rex, hflags]
    · exact fun r _ r' _ hbyte => congrArg Rex.mk hbyte
  have hmodrm : p.instruction.modrm = q.instruction.modrm := by
    apply eq_of_getD_map_eq _ _ (congrArg CompactRecord.modrm h)
    · rw [← p.contains_modrm, ← q.contains_modrm, hflags]
    · exact fun m _ m' _ hbyte => congrArg ModRM.mk hbyte
  have hsib : p.instruction.sib = q.instruction.sib := by
    apply eq_of_getD_map_eq _ _ (congrArg CompactRecord.sib h)
    · rw [← p.contains_sib, ← q.contains_sib, hflags]
    · exact fun s _ s' _ hbyte => congrArg Sib.mk hbyte
  have hwidth := width_kept_congr hflags hopcode hrex hmodrm hsib
  apply Instruction.ext hflags (congrArg CompactRecord.length h) hopcode hrex hmodrm hsib
  · exact kept_eq (hwidth true) (congrArg CompactRecord.disp h)
  · exact kept_eq (hwidth false) (congrArg CompactRecord.imm h)

end Parse

/-- Instructions that are decoded in one mode and have the same compact record are the same, with
the widths of their literals, which a record does not store. Likewise the compact form of flags
tells them, if they have bits of flags only and one segment override at most. -/
theorem decode_record_lossless :
    (∀ (mode : Mode) (code code' : List Byte) (i j : Instruction), decode mode code = .ok i →
      decode mode code' = .ok j → i.record = j.record → i = j) ∧
    ∀ f g : InsnFlags, f.IsPlain → g.IsPlain →
      CompactFlags.ofFlags f = CompactFlags.ofFlags g → f = g := by
  constructor
  · intro mode code code' i j hi hj hrecord
    obtain ⟨p, rfl, -, -⟩ := exists_parse_of_decode hi
    obtain ⟨q, rfl, -, -⟩ := exists_parse_of_decode hj
    exact Parse.instruction_eq_of_record_eq hrecord
  · intro f g hf hg h
    exact CompactFlags.eq_of_ofFlags_eq hf hg h

/-- Two orders of an operand size and a segment override in front of a far call: the records are the
same, and so is the width of the selector, which is kept as a displacement. -/
theorem decode_record_lossless_far_call :
    ∃ i j, decode .protected32 [0x2e, 0x66, 0x9a, 4, 3, 2, 1] = .ok i ∧
      decode .protected32 [0x66, 0x2e, 0x9a, 4, 3, 2, 1] = .ok j ∧ i.record = j.record ∧ i = j ∧
      i.disp = some ⟨0x0102, 16⟩ ∧ i.flags.IsPlain ∧ j.flags.IsPlain ∧
      CompactFlags.ofFlags i.flags = CompactFlags.ofFlags j.flags ∧ i.flags = j.flags := by
  obtain ⟨i, j, hi, hj, hrecord, hdisp, hflags⟩ : ∃ i j,
      decode .protected32 [0x2e, 0x66, 0x9a, 4, 3, 2, 1] = .ok i ∧
      decode .protected32 [0x66, 0x2e, 0x9a, 4, 3, 2, 1] = .ok j ∧ i.record = j.record ∧
      i.disp = some ⟨0x0102, 16⟩ ∧ CompactFlags.ofFlags i.flags = CompactFlags.ofFlags j.flags :=
    ⟨_, _, rfl, rfl, rfl, rfl, rfl⟩
  have hplain {code : List Byte} {k : Instruction} (hk : decode .protected32 code = .ok k) :
      k.flags.IsPlain := by
    obtain ⟨p, rfl, -, -⟩ := exists_parse_of_decode hk
    exact p.isPlain_flags
  obtain ⟨hinstructions, hwords⟩ := decode_record_lossless
  exact ⟨i, j, hi, hj, hrecord, hinstructions .protected32 _ _ i j hi hj hrecord, hdisp, hplain hi,
    hplain hj, hflags, hwords i.flags j.flags (hplain hi) (hplain hj) hflags⟩

end LengthDisasm
