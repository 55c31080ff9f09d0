import Mathlib.Data.Nat.Factorization.Basic
import LengthDisasm.Instruction.Flags

/-!
# Names of flags can be read

A word is written as the names of its set bits with bars between them. Cut at the bars, such a text
gives back the names, if no name has a bar in it; and the names give back the bits, if no two bits
have the same name. A word of which no bit is shown is written as a name that no bit has. So the
text tells all bits that have a name, which are all flags but the one that says that there are no
prefixes.

## Main definitions

* `BitNames.TellApart` — the names can be told apart, also where they are joined
* `BitNames.Covers` — every bit of a word that is not hidden has a name
* `BitNames.shown` — the names that stand in the text of a word

## Main results

* `BitNames.exists_lowest` — the lowest set bit of a word, and the word without it
* `BitNames.mem_setBits` — the set bits of a word
* `BitNames.getLsbD_eq_of_describe_eq` — the text of a word tells the bits that are not hidden
* `InsnFlags.getLsbD_eq_of_text_eq` — the text of flags tells all of them but one
-/

namespace LengthDisasm

/-- Words that are put together have the bits of all of them. -/
theorem Bits.getLsbD_foldl_or {α : Type} {w : Nat} (bits : α → BitVec w) (entries : List α)
    (word : BitVec w) (k : Nat) :
    (entries.foldl (fun word entry => word ||| bits entry) word).getLsbD k =
      (word.getLsbD k || entries.any fun entry => (bits entry).getLsbD k) := by
  induction entries generalizing word with
  | nil => simp
  | cons entry entries ih => rw [List.foldl_cons, ih, BitVec.getLsbD_or, List.any_cons,
    Bool.or_assoc]

namespace BitNames

/-! ### The set bits of a word -/

/-- One less than a number clears its lowest set bit, sets the bits below it and keeps the bits
above it. -/
theorem testBit_sub_one (t u k : Nat) : (2 ^ t * (2 * u + 1) - 1).testBit k =
    (decide (k < t) || decide (t < k) && (2 ^ t * (2 * u + 1)).testBit k) := by
  have hpos : 0 < 2 ^ t := Nat.two_pow_pos t
  have hsub : 2 ^ t * (2 * u + 1) - 1 = 2 ^ t * (2 * u) + (2 ^ t - 1) := by
    rw [Nat.mul_add]
    omega
  rw [hsub, Nat.testBit_two_pow_mul_add _ (Nat.sub_lt hpos Nat.one_pos),
    Nat.testBit_two_pow_sub_one, Nat.testBit_two_pow_mul]
  rcases Nat.lt_trichotomy k t with hlt | rfl | hgt
  · simp [hlt]
  · simp
  · obtain ⟨n, rfl⟩ : ∃ n, k = t + n + 1 := ⟨k - t - 1, by omega⟩
    have hshift : t + n + 1 - t = n + 1 := by omega
    have hodd : (2 * u + 1) / 2 = u := by omega
    simp [hshift, Nat.testBit_succ, hodd, hgt, Nat.le_of_lt hgt, Nat.lt_asymm hgt]

theorem toNat_sub_one {v : BitVec 32} (h : v ≠ 0) : (v - 1).toNat = v.toNat - 1 := by
  have hpos : v.toNat ≠ 0 := fun hzero => h (BitVec.eq_of_toNat_eq hzero)
  exact BitVec.toNat_sub_of_le (BitVec.le_def.mpr (Nat.one_le_iff_ne_zero.mpr hpos))

/-- A word that is not zero has a lowest set bit, and apart from that bit it stays as it is. -/
theorem exists_lowest {v : BitVec 32} (h : v ≠ 0) : ∃ t < 32, v.getLsbD t = true ∧
    (∀ k < t, v.getLsbD k = false) ∧ lowest v = BitVec.twoPow 32 t ∧
    ∀ k, (dropLowest v).getLsbD k = (v.getLsbD k && decide (k ≠ t)) := by
  have hne : v.toNat ≠ 0 := fun hzero => h (BitVec.eq_of_toNat_eq hzero)
  obtain ⟨t, m, ⟨u, rfl⟩, hv⟩ := Nat.exists_eq_two_pow_mul_odd hne
  have hbit (k : Nat) : v.getLsbD k = (decide (t ≤ k) && (2 * u + 1).testBit (k - t)) := by
    rw [BitVec.getLsbD, hv, Nat.testBit_two_pow_mul]
  have hpred (k : Nat) : (v - 1).getLsbD k = (decide (k < t) || decide (t < k) && v.getLsbD k) := by
    rw [BitVec.getLsbD, toNat_sub_one h, hv, testBit_sub_one, ← hv, BitVec.getLsbD]
  have hset : v.getLsbD t = true := by simp [hbit]
  have hlow (k : Nat) (hk : k < t) : v.getLsbD k = false := by simp [hbit, hk]
  refine ⟨t, BitVec.lt_of_getLsbD hset, hset, hlow, ?_, fun k => ?_⟩
  · apply BitVec.eq_of_getLsbD_eq
    intro k hk
    rw [lowest, BitVec.getLsbD_and, BitVec.getLsbD_not, hpred, BitVec.getLsbD_twoPow]
    rcases Nat.lt_trichotomy k t with hlt | rfl | hgt
    · simp [hlow k hlt, hlt.ne']
    · simp [hset, hk]
    · cases v.getLsbD k <;> simp [hgt, hgt.ne]
  · rw [dropLowest, BitVec.getLsbD_and, hpred]
    rcases Nat.lt_trichotomy k t with hlt | rfl | hgt
    · simp [hlow k hlt]
    · simp
    · cases v.getLsbD k <;> simp [hgt, hgt.ne']

theorem mem_setBits {v bit : BitVec 32} :
    bit ∈ setBits v ↔ ∃ k, v.getLsbD k = true ∧ bit = BitVec.twoPow 32 k := by
  -- along the word without its lowest bit, then without its lowest two, and so on
  induction v using setBits.induct with
  | case1 => simp [setBits]
  | case2 v hne ih =>
    obtain ⟨t, -, hset, -, hlowest, hdrop⟩ := exists_lowest hne
    rw [setBits, if_neg hne, List.mem_cons, ih, hlowest]
    simp only [hdrop, Bool.and_eq_true, decide_eq_true_eq]
    constructor
    · rintro (rfl | ⟨k, ⟨hk, -⟩, rfl⟩)
      · exact ⟨t, hset, rfl⟩
      · exact ⟨k, hk, rfl⟩
    · rintro ⟨k, hk, rfl⟩
      by_cases hkt : k = t
      · exact .inl (by rw [hkt])
      · exact .inr ⟨k, ⟨hk, hkt⟩, rfl⟩

theorem setBits_ne_nil {v : BitVec 32} (h : v ≠ 0) : setBits v ≠ [] := by
  rw [setBits, if_neg h]
  exact List.cons_ne_nil _ _

/-! ### The text of a word -/

variable {names : BitNames}

/-- No two entries have one name, no name has a bar in it, and none reads like the text of a word
without bits. -/
structure TellApart (names : BitNames) : Prop where
  nodup : (names.entries.map (·.2)).Nodup
  bar : ∀ entry ∈ names.entries, '|' ∉ entry.2.toList
  ne_none : ∀ entry ∈ names.entries, entry.2 ≠ "None"

/-- Every bit of the word that is not hidden has a name. -/
def Covers (names : BitNames) (word : BitVec 32) : Prop :=
  ∀ bit ∈ setBits (word &&& ~~~names.hidden), (names.nameOf? bit).isSome = true

/-- The names that stand in the text of a word. -/
def shown (names : BitNames) (word : BitVec 32) : List String :=
  if word &&& ~~~names.hidden = 0 then ["None"]
    else (setBits (word &&& ~~~names.hidden)).filterMap names.nameOf?

theorem mem_entries_of_nameOf? {bit : BitVec 32} {name : String}
    (h : names.nameOf? bit = some name) :
    (bit, name) ∈ names.entries := by
  obtain ⟨entry, hfind, rfl⟩ := Option.map_eq_some_iff.mp h
  have hbit := List.find?_some hfind
  rw [Bool.and_eq_true, beq_iff_eq] at hbit
  rw [← hbit.1]
  exact List.mem_of_find?_eq_some hfind

theorem describe_eq_intercalate {word : BitVec 32} (h : names.Covers word) :
    names.describe word = "|".intercalate (names.shown word) := by
  have hunnamed :
      (setBits (word &&& ~~~names.hidden)).filter (fun bit => (names.nameOf? bit).isNone) = [] := by
    rw [List.filter_eq_nil_iff]
    intro bit hbit
    simpa [Option.isSome_iff_ne_none] using h bit hbit
  simp only [describe, shown, hunnamed, List.foldl_nil, if_true, List.append_nil]
  split
  · rfl
  · rfl

theorem shown_ne_nil {word : BitVec 32} (h : names.Covers word) : names.shown word ≠ [] := by
  unfold shown
  split
  · exact List.cons_ne_nil _ _
  · rename_i hne
    obtain ⟨bit, hbit⟩ := List.exists_mem_of_ne_nil _ (setBits_ne_nil hne)
    obtain ⟨name, hname⟩ := Option.isSome_iff_exists.mp (h bit hbit)
    exact List.ne_nil_of_mem (List.mem_filterMap.mpr ⟨bit, hbit, hname⟩)

namespace TellApart

variable (hnames : names.TellApart)
include hnames

theorem not_mem_shown {word : BitVec 32} {name : String} (h : name ∈ names.shown word) :
    '|' ∉ name.toList := by
  unfold shown at h
  split at h
  · rw [List.mem_singleton] at h
    rw [h]
    decide
  · obtain ⟨bit, -, hname⟩ := List.mem_filterMap.mp h
    exact hnames.bar _ (mem_entries_of_nameOf? hname)

/-- Cut at the bars, a text gives back the names that stand in it. -/
theorem splitOn_describe {word : BitVec 32} (h : names.Covers word) :
    (names.describe word).toList.splitOn '|' = (names.shown word).map String.toList := by
  rw [describe_eq_intercalate h, String.toList_intercalate]
  apply List.splitOn_intercalate
  · intro text htext
    obtain ⟨name, hname, rfl⟩ := List.mem_map.mp htext
    exact hnames.not_mem_shown hname
  · simpa using shown_ne_nil h

/-- A name stands in the text if its bit is set. -/
theorem mem_shown_iff {word : BitVec 32} {name : String} {k : Nat} (hk : k < 32)
    (hname : names.nameOf? (BitVec.twoPow 32 k) = some name) :
    name ∈ names.shown word ↔ (word &&& ~~~names.hidden).getLsbD k = true := by
  have hentry := mem_entries_of_nameOf? hname
  unfold shown
  split
  · rename_i hzero
    rw [hzero, List.mem_singleton]
    exact iff_of_false (hnames.ne_none _ hentry) (by simp)
  · rw [List.mem_filterMap]
    constructor
    · rintro ⟨bit, hbit, hsame⟩
      obtain ⟨j, hj, rfl⟩ := mem_setBits.mp hbit
      -- entries with one name are the same, so that the bits are
      have heq := List.inj_on_of_nodup_map hnames.nodup (mem_entries_of_nameOf? hsame) hentry rfl
      have hbits := congrArg (BitVec.getLsbD · k) (congrArg Prod.fst heq)
      have hkj : k = j := by simpa [BitVec.getLsbD_twoPow, hk] using hbits
      rwa [hkj]
    · intro hset
      exact ⟨_, mem_setBits.mpr ⟨k, hset, rfl⟩, hname⟩

end TellApart

theorem exists_nameOf? {word : BitVec 32} (h : names.Covers word) {k : Nat}
    (hset : (word &&& ~~~names.hidden).getLsbD k = true) :
    ∃ name, names.nameOf? (BitVec.twoPow 32 k) = some name :=
  Option.isSome_iff_exists.mp (h _ (mem_setBits.mpr ⟨k, hset, rfl⟩))

/-- The text of a word tells the bits that are not hidden. -/
theorem getLsbD_eq_of_describe_eq (hnames : names.TellApart) {v w : BitVec 32} (hv : names.Covers v)
    (hw : names.Covers w) (h : names.describe v = names.describe w) (k : Nat) :
    (v &&& ~~~names.hidden).getLsbD k = (w &&& ~~~names.hidden).getLsbD k := by
  have hshown : names.shown v = names.shown w := by
    have hsplit := congrArg (fun text => text.toList.splitOn '|') h
    simp only [hnames.splitOn_describe hv, hnames.splitOn_describe hw] at hsplit
    exact List.map_injective_iff.mpr (fun _ _ => String.toList_inj.mp) hsplit
  -- a bit that is set in one of the words has a name, which stands in both texts
  rw [Bool.eq_iff_iff]
  constructor
  · intro hset
    obtain ⟨name, hname⟩ := exists_nameOf? hv hset
    have hk := BitVec.lt_of_getLsbD hset
    rwa [← hnames.mem_shown_iff hk hname, ← hshown, hnames.mem_shown_iff hk hname]
  · intro hset
    obtain ⟨name, hname⟩ := exists_nameOf? hw hset
    have hk := BitVec.lt_of_getLsbD hset
    rwa [← hnames.mem_shown_iff hk hname, hshown, hnames.mem_shown_iff hk hname]

end BitNames

/-! ### The names of flags -/

namespace InsnFlags

theorem tellApart_names : names.TellApart where
  nodup := by decide +kernel
  bar := by decide +kernel
  ne_none := by decide +kernel

/-- Only the flag that says that there are no prefixes is hidden. -/
theorem hidden_names : names.hidden = BitVec.twoPow 32 10 := by decide +kernel

theorem getLsbD_visible (f : InsnFlags) (k : Nat) :
    (f.bits &&& ~~~names.hidden).getLsbD k = (f.bits.getLsbD k && decide (k ≠ 10)) := by
  rw [hidden_names, BitVec.getLsbD_and, BitVec.getLsbD_not, BitVec.getLsbD_twoPow]
  by_cases hk : k < 32
  · simp [hk, eq_comm]
  · simp [BitVec.getLsbD_of_ge _ _ (Nat.le_of_not_lt hk)]

/-- The names cover a word that has bits of flags only. -/
theorem covers_bits {f : InsnFlags} (hf : ∀ k, 23 ≤ k → f.bits.getLsbD k = false) :
    names.Covers f.bits := by
  have hall : ∀ k < 23, k ≠ 10 → (names.nameOf? (BitVec.twoPow 32 k)).isSome = true := by
    decide +kernel
  intro bit hbit
  obtain ⟨k, hset, rfl⟩ := BitNames.mem_setBits.mp hbit
  rw [getLsbD_visible, Bool.and_eq_true, decide_eq_true_eq] at hset
  refine hall k (Nat.lt_of_not_le fun hle => ?_) hset.2
  rw [hf k hle] at hset
  cases hset.1

/-- The text of flags tells all of them but the one that says that there are no prefixes. -/
theorem getLsbD_eq_of_text_eq {f g : InsnFlags} (hf : ∀ k, 23 ≤ k → f.bits.getLsbD k = false)
    (hg : ∀ k, 23 ≤ k → g.bits.getLsbD k = false) (h : f.text = g.text) {k : Nat} (hk : k ≠ 10) :
    f.bits.getLsbD k = g.bits.getLsbD k := by
  have hvisible :=
    BitNames.getLsbD_eq_of_describe_eq tellApart_names (covers_bits hf) (covers_bits hg) h k
  simpa only [getLsbD_visible, decide_eq_true hk, Bool.and_true] using hvisible

end InsnFlags

end LengthDisasm
