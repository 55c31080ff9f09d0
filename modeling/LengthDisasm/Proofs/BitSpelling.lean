import Mathlib.Data.Nat.BitIndices
import LengthDisasm.Bits.Spelling
import LengthDisasm.Proofs.FlagNames

/-!
# What a word is spelled as

The text of a word follows a rule that says nothing of loops. Of the set bits those are left out
that an entry without a name has. The others are shown in ascending order: first the names of those
that have one, from the first entry that is this bit alone, and then the value of those that have
none. A loop that takes the bits away one after the other follows the rule, since in each turn it
deals with the lowest bit that is left and writes what the rule says about it.

## Main definitions

* `BitNames.visibleAt`, `BitNames.nameAt?`, `BitNames.unnamedAt` — the bits that are shown, with a
  name and without
* `BitNames.ruleText` — the text of a word, by the rule
* `Spelling.Visits` — turns of the loop, and the bits that they deal with
* `Spelling.Wrote` — what is written after some bits

## Main results

* `Bits.bitIndices_eq_cons` — the lowest bit comes first
* `Spelling.Wrote.exists_step`, `Spelling.Wrote.exists_run` — what a turn of the loop writes, and
  all of them
* `BitNames.describe_eq_ruleText` — the names of all bits at once follow the rule as well
* `bit_names_spelled` — words are spelled by the rule, and each bit is visited once
-/

namespace LengthDisasm

/-! ### Positions of bits -/

namespace Bits

variable {w : Nat} {v : BitVec w}

theorem mem_bitIndices {k : Nat} : k ∈ v.toNat.bitIndices ↔ v.getLsbD k = true := Nat.mem_bitIndices

theorem bitIndices_eq {ks : List Nat} (hsorted : ks.SortedLT)
    (h : ∀ k, k ∈ ks ↔ v.getLsbD k = true) :
    v.toNat.bitIndices = ks := by
  apply Nat.bitIndices_sorted.eq_of_mem_iff hsorted
  intro k
  rw [mem_bitIndices, h]

theorem toNat_eq_sum {ks : List Nat} (hsorted : ks.SortedLT)
    (h : ∀ k, k ∈ ks ↔ v.getLsbD k = true) :
    v.toNat = (ks.map (2 ^ ·)).sum := by
  rw [← bitIndices_eq hsorted h, Nat.sum_map_two_pow_bitIndices]

theorem bitIndices_eq_nil_iff : v.toNat.bitIndices = [] ↔ v = 0 := by
  constructor
  · intro h
    have hsum := Nat.sum_map_two_pow_bitIndices v.toNat
    rw [h] at hsum
    exact BitVec.eq_of_toNat_eq hsum.symm
  · rintro rfl
    exact Nat.bitIndices_zero

/-- The lowest set bit comes first, and the others are those of the word without it. -/
theorem bitIndices_eq_cons {v' : BitVec w} {t : Nat} (hset : v.getLsbD t = true)
    (hlow : ∀ k < t, v.getLsbD k = false)
    (hrest : ∀ k, v'.getLsbD k = (v.getLsbD k && decide (k ≠ t))) :
    v.toNat.bitIndices = t :: v'.toNat.bitIndices := by
  have hmem (k : Nat) : k ∈ v'.toNat.bitIndices ↔ v.getLsbD k = true ∧ k ≠ t := by
    rw [mem_bitIndices, hrest, Bool.and_eq_true, decide_eq_true_eq]
  apply bitIndices_eq
  · rw [List.sortedLT_iff_pairwise, List.pairwise_cons]
    refine ⟨fun k hk => ?_, Nat.bitIndices_sorted.pairwise⟩
    obtain ⟨hk, hne⟩ := (hmem k).mp hk
    by_contra hle
    have hfalse := hlow k (by omega)
    rw [hk] at hfalse
    cases hfalse
  · intro k
    rw [List.mem_cons, hmem]
    constructor
    · rintro (rfl | ⟨hk, -⟩)
      · exact hset
      · exact hk
    · intro hk
      by_cases hkt : k = t
      · exact .inl hkt
      · exact .inr ⟨hk, hkt⟩

end Bits

/-! ### The rule -/

namespace BitNames

variable (names : BitNames) (word : BitVec 32)

/-- An entry without a name has the bit at position `k`. -/
def hides (k : Nat) : Bool := names.entries.any fun entry => entry.2 == "" && entry.1.getLsbD k

/-- The name of the bit at position `k`: the one of the first entry that is this bit alone and has a
name. -/
def nameAt? (k : Nat) : Option String :=
  (names.entries.filter fun entry => entry.1 == BitVec.twoPow 32 k && entry.2 != "").head?.map (·.2)

/-- The positions of the set bits that are not hidden, in ascending order. -/
def visibleAt : List Nat := word.toNat.bitIndices.filter fun k => !names.hides k

/-- The positions of the visible bits without a name. -/
def unnamedAt : List Nat := (names.visibleAt word).filter fun k => (names.nameAt? k).isNone

/-- The text of a word, by the rule. -/
def ruleText : String :=
  if names.visibleAt word = [] then "None"
  else
    let named := (names.visibleAt word).filterMap names.nameAt?
    let value := ((names.unnamedAt word).map (2 ^ ·)).sum
    let rest := if names.unnamedAt word = [] then []
      else [names.typeName ++ "(" ++ Text.hexMarked value ++ ")"]
    "|".intercalate (named ++ rest)

variable {names word}

theorem isEmpty_eq_beq (text : String) : text.isEmpty = (text == "") := by
  rw [Bool.eq_iff_iff, String.isEmpty_iff, beq_iff_eq]

theorem getLsbD_hidden (k : Nat) : names.hidden.getLsbD k = names.hides k := by
  rw [hidden, Bits.getLsbD_foldl_or, List.any_filter, hides]
  simp only [isEmpty_eq_beq, BitVec.ofNat_eq_ofNat, BitVec.getLsbD_zero, Bool.false_or]

theorem nameOf?_twoPow (k : Nat) : names.nameOf? (BitVec.twoPow 32 k) = names.nameAt? k := by
  rw [nameOf?, nameAt?, List.head?_filter]
  simp only [isEmpty_eq_beq]
  rfl

/-- The visible bits of a word are what is left when the hidden ones are cleared. -/
theorem bitIndices_visible :
    (word &&& ~~~names.hidden).toNat.bitIndices = names.visibleAt word := by
  apply Bits.bitIndices_eq
  · rw [List.sortedLT_iff_pairwise]
    exact Nat.bitIndices_sorted.pairwise.filter _
  · intro k
    rw [visibleAt, List.mem_filter, Bits.mem_bitIndices, BitVec.getLsbD_and, BitVec.getLsbD_not,
      getLsbD_hidden, Bool.and_eq_true]
    refine and_congr_right fun hset => ?_
    rw [decide_eq_true (BitVec.lt_of_getLsbD hset), Bool.true_and]

theorem sortedLT_unnamedAt : (names.unnamedAt word).SortedLT := by
  rw [List.sortedLT_iff_pairwise]
  exact (Nat.bitIndices_sorted.pairwise.filter _).filter _

theorem mem_unnamedAt {k : Nat} :
    k ∈ names.unnamedAt word ↔ k ∈ names.visibleAt word ∧ names.nameAt? k = none := by
  rw [unnamedAt, List.mem_filter, Option.isNone_iff_eq_none]

end BitNames

/-! ### Turns of the loop -/

namespace Spelling

variable {names : BitNames} {s s' : Spelling} {done ks : List Nat}

/-- Turns of the loop lead from one spelling to another. The bits at the positions `ks` are taken
away on the way, one in each turn, and each of them is the lowest bit that is left. -/
inductive Visits (names : BitNames) : Spelling → List Nat → Spelling → Prop
  | stay (s : Spelling) : Visits names s [] s
  | turn {s s' s'' : Spelling} {k : Nat} {ks : List Nat} (hstep : s.step names = .ok s')
      (hbits : s.rest.toNat.bitIndices = k :: s'.rest.toNat.bitIndices)
      (h : Visits names s' ks s'') :
      Visits names s (k :: ks) s''

/-- What the loop has written after the bits at some positions. -/
structure Wrote (names : BitNames) (done : List Nat) (s : Spelling) : Prop where
  text_eq : s.text = "|".intercalate (done.filterMap names.nameAt?)
  isFirst_eq : s.isFirst = (done.filterMap names.nameAt?).isEmpty
  unknown_iff : ∀ k, s.unknown.getLsbD k = true ↔ k ∈ done ∧ names.nameAt? k = none

theorem wrote_start (names : BitNames) (word : BitVec 32) : (start word).Wrote names [] where
  text_eq := rfl
  isFirst_eq := rfl
  unknown_iff k := by simp [start]

/-- A part that is written is joined to those before it. -/
theorem text_write {parts : List String} (htext : s.text = "|".intercalate parts)
    (hfirst : s.isFirst = parts.isEmpty)
    (part : String) : (s.write part).text = "|".intercalate (parts ++ [part]) := by
  cases parts with
  | nil =>
    simp only [write, hfirst, htext, List.isEmpty_nil, if_true]
    simp
  | cons first parts =>
    rw [String.intercalate_append_of_ne_nil (List.cons_ne_nil _ _) (List.cons_ne_nil _ _), ← htext,
      String.intercalate_singleton]
    simp only [write, hfirst, List.isEmpty_cons, Bool.false_eq_true, if_false]

/-- A bit inside the word is dealt with as the rule says. -/
theorem Wrote.visit (h : s.Wrote names done) {k : Nat} (hk : k < 32) :
    (s.visit names (BitVec.twoPow 32 k)).Wrote names (done ++ [k]) := by
  unfold Spelling.visit
  rw [BitNames.nameOf?_twoPow]
  cases hname : names.nameAt? k with
  | some name =>
    have hparts :
        (done ++ [k]).filterMap names.nameAt? = done.filterMap names.nameAt? ++ [name] := by
      rw [List.filterMap_append, List.filterMap_cons, hname]
      rfl
    refine ⟨?_, ?_, fun j => ?_⟩
    · rw [hparts]
      exact text_write h.text_eq h.isFirst_eq name
    · simp [hparts, write]
    · -- a bit with a name is not among those without one
      rw [List.mem_append, List.mem_singleton]
      refine (h.unknown_iff j).trans ⟨fun hj => ⟨.inl hj.1, hj.2⟩, ?_⟩
      rintro ⟨hj | rfl, hnone⟩
      · exact ⟨hj, hnone⟩
      · rw [hname] at hnone
        cases hnone
  | none =>
    have hparts : (done ++ [k]).filterMap names.nameAt? = done.filterMap names.nameAt? := by
      rw [List.filterMap_append, List.filterMap_cons, hname, List.filterMap_nil, List.append_nil]
    refine ⟨?_, ?_, fun j => ?_⟩
    · rw [hparts]
      exact h.text_eq
    · rw [hparts]
      exact h.isFirst_eq
    · rw [BitVec.getLsbD_or, Bool.or_eq_true, h.unknown_iff, BitVec.getLsbD_twoPow, List.mem_append,
        List.mem_singleton, decide_eq_true hk, Bool.true_and, decide_eq_true_eq]
      constructor
      · rintro (⟨hj, hnone⟩ | rfl)
        · exact ⟨.inl hj, hnone⟩
        · exact ⟨.inr rfl, hname⟩
      · rintro ⟨hj | rfl, hnone⟩
        · exact .inl ⟨hj, hnone⟩
        · exact .inr rfl

/-- A turn of the loop deals with the lowest bit that is left. -/
theorem Wrote.exists_step (h : s.Wrote names done) (hne : s.rest ≠ 0) :
    ∃ k s', s.step names = .ok s' ∧ s.rest.toNat.bitIndices = k :: s'.rest.toNat.bitIndices ∧
      s'.Wrote names (done ++ [k]) := by
  have hset : s.rest.getLsbD s.rest.ctz.toNat = true := BitVec.getLsbD_true_ctz_of_ne_zero hne
  refine ⟨s.rest.ctz.toNat, _, step_of_ne names hne, ?_, ?_⟩
  · apply Bits.bitIndices_eq_cons hset fun k hk => BitVec.getLsbD_false_of_lt_ctz hk
    intro k
    rw [rest_visit, getLsbD_without]
  · have hbit : (1 : BitVec 32) <<< s.rest.ctz.toNat = BitVec.twoPow 32 s.rest.ctz.toNat :=
      (BitVec.twoPow_eq _ _).symm
    rw [hbit]
    exact h.visit (BitVec.lt_of_getLsbD hset)

/-- The loop ends, and until then it deals with each bit once. -/
theorem Wrote.exists_run (h : s.Wrote names done) :
    ∃ s', s.run names = .ok s' ∧ s.Visits names s.rest.toNat.bitIndices s' ∧ s'.rest = 0 ∧
      s'.Wrote names (done ++ s.rest.toNat.bitIndices) := by
  -- along the bits that are left, which are one less after each turn
  generalize hks : s.rest.toNat.bitIndices = ks
  induction ks generalizing s done with
  | nil =>
    have hzero := Bits.bitIndices_eq_nil_iff.mp hks
    refine ⟨s, by rw [run_eq, if_pos hzero], .stay s, hzero, ?_⟩
    rwa [List.append_nil]
  | cons k ks ih =>
    have hne : s.rest ≠ 0 := fun hzero => by
      rw [Bits.bitIndices_eq_nil_iff.mpr hzero] at hks
      cases hks
    obtain ⟨j, s', hstep, hbits, hwrote⟩ := h.exists_step hne
    obtain ⟨rfl, hrest⟩ := List.cons.inj (hbits.symm.trans hks)
    obtain ⟨s'', hrun, hvisits, hzero, hwrote''⟩ := ih hwrote hrest
    refine ⟨s'', ?_, ?_, hzero, ?_⟩
    · rw [run_eq, if_neg hne, hstep]
      exact hrun
    · exact .turn hstep hbits hvisits
    · rwa [List.append_assoc, List.singleton_append] at hwrote''

end Spelling

/-! ### All bits at once -/

namespace BitNames

variable {names : BitNames} {word : BitVec 32}

theorem visible_eq_zero_iff : word &&& ~~~names.hidden = 0 ↔ names.visibleAt word = [] := by
  rw [← bitIndices_visible, Bits.bitIndices_eq_nil_iff]

theorem lt_of_mem_visibleAt {k : Nat} (h : k ∈ names.visibleAt word) : k < 32 := by
  rw [← bitIndices_visible, Bits.mem_bitIndices] at h
  exact BitVec.lt_of_getLsbD h

/-- The rule in terms of a word that has the visible bits without a name. -/
theorem ruleText_eq (hsome : names.visibleAt word ≠ []) {unnamed : BitVec 32}
    (h : ∀ k, unnamed.getLsbD k = true ↔ k ∈ names.visibleAt word ∧ names.nameAt? k = none) :
    names.ruleText word = "|".intercalate ((names.visibleAt word).filterMap names.nameAt? ++
      if unnamed = 0 then []
        else [names.typeName ++ "(" ++ Text.hexMarked unnamed.toNat ++ ")"]) := by
  have hmem (k : Nat) : k ∈ names.unnamedAt word ↔ unnamed.getLsbD k = true :=
    mem_unnamedAt.trans (h k).symm
  have hzero : unnamed = 0 ↔ names.unnamedAt word = [] := by
    rw [← Bits.bitIndices_eq sortedLT_unnamedAt hmem, Bits.bitIndices_eq_nil_iff]
  simp only [ruleText, hsome, if_false, hzero, Bits.toNat_eq_sum sortedLT_unnamedAt hmem]

/-- The loop writes the text that the rule gives. -/
theorem spell_eq_ruleText (names : BitNames) (word : BitVec 32) :
    names.spell word = .ok (names.ruleText word) := by
  by_cases hnone : names.visibleAt word = []
  · simp only [spell, ruleText, visible_eq_zero_iff.mpr hnone, hnone, if_true]
    rfl
  · obtain ⟨s, hrun, -, -, hwrote⟩ :=
      (Spelling.wrote_start names (word &&& ~~~names.hidden)).exists_run
    have hbits : (Spelling.start (word &&& ~~~names.hidden)).rest.toNat.bitIndices =
        names.visibleAt word :=
      bitIndices_visible
    rw [hbits, List.nil_append] at hwrote
    rw [ruleText_eq hnone hwrote.unknown_iff]
    simp only [spell, visible_eq_zero_iff, hnone, if_false, hrun, bind, Except.bind, pure,
      Except.pure]
    by_cases hzero : s.unknown = 0
    · rw [if_pos hzero, if_pos hzero, List.append_nil, hwrote.text_eq]
    · rw [if_neg hzero, if_neg hzero, Spelling.text_write hwrote.text_eq hwrote.isFirst_eq]

theorem setBits_eq_map (v : BitVec 32) : setBits v = v.toNat.bitIndices.map (BitVec.twoPow 32) := by
  induction v using setBits.induct with
  | case1 => rw [setBits, if_pos rfl, Bits.bitIndices_eq_nil_iff.mpr rfl, List.map_nil]
  | case2 v hne ih =>
    obtain ⟨t, -, hset, hlow, hlowest, hdrop⟩ := exists_lowest hne
    rw [setBits, if_neg hne, ih, hlowest, Bits.bitIndices_eq_cons hset hlow hdrop, List.map_cons]

/-- Naming all bits at once gives the same text. -/
theorem describe_eq_ruleText (names : BitNames) (word : BitVec 32) :
    names.describe word = names.ruleText word := by
  by_cases hnone : names.visibleAt word = []
  · simp only [describe, ruleText, visible_eq_zero_iff.mpr hnone, hnone, if_true]
  · have hbits :
        setBits (word &&& ~~~names.hidden) = (names.visibleAt word).map (BitVec.twoPow 32) := by
      rw [setBits_eq_map, bitIndices_visible]
    have hunnamed (k : Nat) : (((setBits (word &&& ~~~names.hidden)).filter fun bit =>
        (names.nameOf? bit).isNone).foldl (· ||| ·) 0).getLsbD k = true ↔
          k ∈ names.visibleAt word ∧ names.nameAt? k = none := by
      rw [Bits.getLsbD_foldl_or fun bit => bit, hbits, List.any_filter, List.any_map]
      simp only [BitVec.ofNat_eq_ofNat, BitVec.getLsbD_zero, Bool.false_or, List.any_eq_true,
        Function.comp_apply, nameOf?_twoPow, Bool.and_eq_true, Option.isNone_iff_eq_none,
        BitVec.getLsbD_twoPow, decide_eq_true_eq]
      constructor
      · rintro ⟨j, hj, hname, -, rfl⟩
        exact ⟨hj, hname⟩
      · rintro ⟨hk, hname⟩
        exact ⟨k, hk, hname, lt_of_mem_visibleAt hk, rfl⟩
    have hnamed : (setBits (word &&& ~~~names.hidden)).filterMap names.nameOf? =
        (names.visibleAt word).filterMap names.nameAt? := by
      rw [hbits, List.filterMap_map]
      congr 1
      funext k
      exact nameOf?_twoPow k
    rw [ruleText_eq hnone hunnamed]
    simp only [describe, visible_eq_zero_iff, hnone, if_false, hnamed]

end BitNames

/-- Words are spelled by the rule, for every table and word, bit by bit in a loop or all bits at
once. The loop ends when no bit is left, and until then it visits the bits that are shown in
ascending order, each of them once. -/
theorem bit_names_spelled (names : BitNames) (word : BitVec 32) :
    names.spell word = .ok (names.ruleText word) ∧ names.describe word = names.ruleText word ∧
      (names.visibleAt word).SortedLT ∧
      (∀ k, k ∈ names.visibleAt word ↔ word.getLsbD k = true ∧ names.hides k = false) ∧
      ∃ s, (Spelling.start (word &&& ~~~names.hidden)).run names = .ok s ∧ s.rest = 0 ∧
        (Spelling.start (word &&& ~~~names.hidden)).Visits names (names.visibleAt word) s := by
  refine ⟨names.spell_eq_ruleText word, names.describe_eq_ruleText word, ?_, fun k => ?_, ?_⟩
  · rw [← BitNames.bitIndices_visible]
    exact Nat.bitIndices_sorted
  · rw [BitNames.visibleAt, List.mem_filter, Bits.mem_bitIndices, Bool.not_eq_true']
  · obtain ⟨s, hrun, hvisits, hzero, -⟩ :=
      (Spelling.wrote_start names (word &&& ~~~names.hidden)).exists_run
    rw [← BitNames.bitIndices_visible]
    exact ⟨s, hrun, hzero, hvisits⟩

end LengthDisasm
