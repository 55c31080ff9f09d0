import LengthDisasm.Proofs.ReportedPrefixes

/-!
# One prefix for each place

A set of prefixes has one segment override at most, and one repeat prefix. Adding a prefix makes
room for it, so that sets stay like that however they are put together. The prefix field of flags
takes a set as it is: replacing the field keeps the rule, but putting more prefixes into it keeps it
only if they agree with those that are there.

## Main definitions

* `PrefixSet.IsExclusive` — one segment override and one repeat prefix at most
* `PrefixSet.Agrees` — no prefix of one set takes the place of one of the other
* `PrefixSet.Edit`, `PrefixSet.edited` — the ways to change a set, one after the other

## Main results

* `PrefixSet.isExclusive_iff_agrees` — a set is exclusive if it agrees with itself
* `PrefixSet.IsExclusive.apply`, `PrefixSet.IsExclusive.edited` — changes keep a set exclusive
* `PrefixSet.agrees_or_iff` — two sets agree with two others if each one does
* `flags_exclusive_iff` — when sets and the prefix fields of flags are exclusive
-/

namespace LengthDisasm

theorem Prefix.mem_all (p : Prefix) : p ∈ all := List.mem_of_getElem? p.all_position

theorem Prefix.competes_comm (p q : Prefix) : p.competes q = q.competes p := by
  rw [Bool.eq_iff_iff]
  simp only [competes, Bool.or_eq_true, Bool.and_eq_true, beq_iff_eq]
  grind

namespace PrefixSet

/-- A set has one segment override at most, and one of the two repeat prefixes. -/
structure IsExclusive (s : PrefixSet) : Prop where
  segment_unique : ∀ a b, s.contains (.segment a) = true → s.contains (.segment b) = true → a = b
  repeat_unique : ¬ (s.contains .rep = true ∧ s.contains .repNZ = true)

/-- Where prefixes of the two sets are for one place, they are the same. -/
def Agrees (s t : PrefixSet) : Prop :=
  ∀ p q, s.contains p = true → t.contains q = true → p.competes q = true → p = q

/-- A set is exclusive if its prefixes are for different places. -/
theorem isExclusive_iff_agrees (s : PrefixSet) : s.IsExclusive ↔ s.Agrees s := by
  constructor
  · rintro ⟨hsegment, hrepeat⟩ p q hp hq hcompetes
    cases p with
    | segment a =>
      rw [Prefix.competes_segment] at hcompetes
      cases q with
      | segment b => rw [hsegment a b hp hq]
      | _ => cases hcompetes
    | rep =>
      rw [Prefix.competes_of_isRepeat rfl] at hcompetes
      cases q with
      | rep => rfl
      | repNZ => exact absurd ⟨hp, hq⟩ hrepeat
      | _ => cases hcompetes
    | repNZ =>
      rw [Prefix.competes_of_isRepeat rfl] at hcompetes
      cases q with
      | repNZ => rfl
      | rep => exact absurd ⟨hq, hp⟩ hrepeat
      | _ => cases hcompetes
    | _ =>
      -- the others have a place of their own
      rw [Prefix.competes_of_isLasting rfl, beq_iff_eq] at hcompetes
      exact hcompetes.symm
  · intro h
    refine ⟨fun a b ha hb => ?_, fun ⟨hrep, hrepNZ⟩ => ?_⟩
    · have heq := h _ _ ha hb (by simp [Prefix.competes, Prefix.segment?])
      exact Prefix.segment.inj heq
    · cases h _ _ hrep hrepNZ rfl

instance (s t : PrefixSet) : Decidable (s.Agrees t) :=
  decidable_of_iff (∀ p ∈ Prefix.all, ∀ q ∈ Prefix.all,
      s.contains p = true → t.contains q = true → p.competes q = true → p = q)
    ⟨fun h p q => h p p.mem_all q q.mem_all, fun h p _ q _ => h p q⟩

instance (s : PrefixSet) : Decidable s.IsExclusive :=
  decidable_of_iff _ s.isExclusive_iff_agrees.symm

theorem Agrees.symm {s t : PrefixSet} (h : s.Agrees t) : t.Agrees s := by
  intro p q hp hq hcompetes
  rw [Prefix.competes_comm] at hcompetes
  exact (h q p hq hp hcompetes).symm

theorem agrees_comm {s t : PrefixSet} : s.Agrees t ↔ t.Agrees s := ⟨Agrees.symm, Agrees.symm⟩

theorem Agrees.mono {s s' t t' : PrefixSet} (h : s.Agrees t)
    (hs : ∀ p, s'.contains p = true → s.contains p = true)
    (ht : ∀ p, t'.contains p = true → t.contains p = true) : s'.Agrees t' :=
  fun p q hp hq => h p q (hs p hp) (ht q hq)

/-! ### Changing sets -/

theorem contains_empty (p : Prefix) : empty.contains p = false := by
  rw [contains_eq_getLsbD]
  exact BitVec.getLsbD_zero

/-- A change to a set of prefixes. -/
inductive Edit where
  | insert (p : Prefix)
  | erase (p : Prefix)
  /-- Start over with the set of a list. -/
  | collect (ps : List Prefix)

namespace Edit

/-- The set after a change. -/
def apply (s : PrefixSet) : Edit → PrefixSet
  | insert p => s.insert p
  | erase p => s.erase p
  | collect ps => ofList ps

end Edit

/-- The set after some changes. -/
def edited (s : PrefixSet) (edits : List Edit) : PrefixSet := edits.foldl Edit.apply s

theorem isExclusive_empty : empty.IsExclusive := by
  rw [isExclusive_iff_agrees]
  intro p q hp
  rw [contains_empty] at hp
  cases hp

namespace IsExclusive

variable {s : PrefixSet}

/-- The prefix that is added is the only one for its place, and the others are as they were. -/
theorem insert (h : s.IsExclusive) (r : Prefix) : (s.insert r).IsExclusive := by
  rw [isExclusive_iff_agrees] at h ⊢
  intro p q hp hq hcompetes
  rw [contains_insert] at hp hq
  by_cases hpr : p.competes r = true <;> by_cases hqr : q.competes r = true
  · rw [if_pos hpr, beq_iff_eq] at hp
    rw [if_pos hqr, beq_iff_eq] at hq
    rw [← hp, ← hq]
  · -- `p` is the one that was added, and `q` is for its place
    rw [if_pos hpr, beq_iff_eq] at hp
    rw [← hp, Prefix.competes_comm] at hcompetes
    exact absurd hcompetes hqr
  · rw [if_pos hqr, beq_iff_eq] at hq
    rw [← hq] at hcompetes
    exact absurd hcompetes hpr
  · rw [if_neg hpr] at hp
    rw [if_neg hqr] at hq
    exact h p q hp hq hcompetes

theorem erase (h : s.IsExclusive) (r : Prefix) : (s.erase r).IsExclusive := by
  have hsubset : ∀ p, (s.erase r).contains p = true → s.contains p = true := by
    intro p hp
    rw [contains_erase, Bool.and_eq_true] at hp
    exact hp.1
  rw [isExclusive_iff_agrees] at h ⊢
  exact h.mono hsubset hsubset

theorem foldl_insert (h : s.IsExclusive) (ps : List Prefix) :
    (ps.foldl PrefixSet.insert s).IsExclusive := by
  induction ps generalizing s with
  | nil => exact h
  | cons p ps ih => exact ih (h.insert p)

theorem apply (h : s.IsExclusive) (edit : Edit) : (edit.apply s).IsExclusive := by
  cases edit with
  | insert p => exact h.insert p
  | erase p => exact h.erase p
  | collect ps => exact isExclusive_empty.foldl_insert ps

theorem edited (h : s.IsExclusive) (edits : List Edit) : (s.edited edits).IsExclusive := by
  induction edits generalizing s with
  | nil => exact h
  | cons edit edits ih => exact ih (h.apply edit)

end IsExclusive

/-! ### Sets put together as they are -/

theorem contains_or (s t : PrefixSet) (p : Prefix) :
    contains ⟨s.bits ||| t.bits⟩ p = (s.contains p || t.contains p) := by
  rw [contains_eq_getLsbD, contains_eq_getLsbD, contains_eq_getLsbD, BitVec.getLsbD_or]

/-- Sets that are put together agree with a set if both do. -/
theorem agrees_or_iff (s t u : PrefixSet) :
    Agrees ⟨s.bits ||| t.bits⟩ u ↔ s.Agrees u ∧ t.Agrees u := by
  constructor
  · intro h
    exact ⟨h.mono (fun p hp => by rw [contains_or, hp, Bool.true_or]) fun _ => id,
      h.mono (fun p hp => by rw [contains_or, hp, Bool.or_true]) fun _ => id⟩
  · rintro ⟨hs, ht⟩ p q hp hq hcompetes
    rw [contains_or, Bool.or_eq_true] at hp
    rcases hp with hp | hp
    · exact hs p q hp hq hcompetes
    · exact ht p q hp hq hcompetes

/-- Exclusive sets that are put together are exclusive if they agree. -/
theorem isExclusive_or_iff {s t : PrefixSet} (hs : s.IsExclusive) (ht : t.IsExclusive) :
    IsExclusive ⟨s.bits ||| t.bits⟩ ↔ s.Agrees t := by
  rw [isExclusive_iff_agrees] at hs ht ⊢
  -- each of the two with each of the two
  rw [agrees_or_iff, agrees_comm (s := s), agrees_comm (s := t), agrees_or_iff, agrees_or_iff]
  exact ⟨fun h => h.2.1, fun h => ⟨⟨hs, h.symm⟩, h, ht⟩⟩

theorem isExclusive_congr {s t : PrefixSet} (h : ∀ p, s.contains p = t.contains p) :
    s.IsExclusive ↔ t.IsExclusive := by
  rw [isExclusive_iff_agrees, isExclusive_iff_agrees]
  simp only [Agrees, h]

end PrefixSet

/-! ### The prefix field of flags -/

namespace InsnFlags

/-- The prefix set of the flags is the one that was put there. -/
theorem contains_prefixes_withPrefixes (f : InsnFlags) (s : PrefixSet) (p : Prefix) :
    (f.withPrefixes s).prefixes.contains p = s.contains p := by
  have hlt := p.position_lt
  have hfield : 10 ≤ 10 + p.position ∧ 10 + p.position < 23 := by omega
  rw [PrefixSet.contains_eq_getLsbD, PrefixSet.contains_eq_getLsbD, getLsbD_prefixes,
    getLsbD_withPrefixes, if_pos hfield, decide_eq_true hlt, Bool.true_and, Nat.add_sub_cancel_left]

theorem contains_prefixes_addPrefixes (f : InsnFlags) (s : PrefixSet) (p : Prefix) :
    (f.addPrefixes s).prefixes.contains p = (f.prefixes.contains p || s.contains p) := by
  rw [addPrefixes, contains_prefixes_withPrefixes, PrefixSet.contains_or]

theorem getLsbD_withPrefixes_of_outside (f : InsnFlags) (s : PrefixSet) {k : Nat}
    (hk : k < 10 ∨ 23 ≤ k) :
    (f.withPrefixes s).bits.getLsbD k = f.bits.getLsbD k := by
  rw [getLsbD_withPrefixes, if_neg (by omega)]

end InsnFlags

/-- One prefix for each place. Sets of prefixes stay exclusive however they are put together, and so
does the prefix field of flags if a set replaces it. If more prefixes are put into the field, it
stays exclusive exactly if they agree with those that are there. In either case the field has the
prefixes that it should have, and no other bit changes. -/
theorem flags_exclusive_iff (edits : List PrefixSet.Edit) (f : InsnFlags) (s : PrefixSet) :
    (PrefixSet.empty.edited edits).IsExclusive ∧
      (f.prefixes.IsExclusive → s.IsExclusive →
        (f.withPrefixes s).prefixes.IsExclusive ∧
          ((f.addPrefixes s).prefixes.IsExclusive ↔ f.prefixes.Agrees s)) ∧
      (∀ p, (f.withPrefixes s).prefixes.contains p = s.contains p ∧
        (f.addPrefixes s).prefixes.contains p = (f.prefixes.contains p || s.contains p)) ∧
      ∀ k, k < 10 ∨ 23 ≤ k → (f.withPrefixes s).bits.getLsbD k = f.bits.getLsbD k ∧
        (f.addPrefixes s).bits.getLsbD k = f.bits.getLsbD k := by
  refine ⟨PrefixSet.isExclusive_empty.edited edits, fun hf hs => ⟨?_, ?_⟩, fun p => ?_,
    fun k hk => ?_⟩
  · rwa [PrefixSet.isExclusive_congr (f.contains_prefixes_withPrefixes s)]
  · rw [InsnFlags.addPrefixes, PrefixSet.isExclusive_congr (f.contains_prefixes_withPrefixes _),
      PrefixSet.isExclusive_or_iff hf hs]
  · exact ⟨f.contains_prefixes_withPrefixes s p, f.contains_prefixes_addPrefixes s p⟩
  · exact ⟨f.getLsbD_withPrefixes_of_outside s hk, f.getLsbD_withPrefixes_of_outside _ hk⟩

/-- The flags of a locked instruction with a ModRM byte, to which a segment override is added. -/
theorem flags_exclusive_iff_lock :
    (InsnFlags.modrm.withPrefixes (.ofList [.lock])).prefixes.IsExclusive ∧
      (PrefixSet.ofList [.segment .fs]).IsExclusive ∧
      ((InsnFlags.modrm.withPrefixes (.ofList [.lock])).addPrefixes
        (.ofList [.segment .fs])).prefixes.IsExclusive := by
  have hlock : (InsnFlags.modrm.withPrefixes (.ofList [.lock])).prefixes.IsExclusive := by decide
  have hsegment : (PrefixSet.ofList [.segment .fs]).IsExclusive := by decide
  have hiff := ((flags_exclusive_iff [] _ _).2.1 hlock hsegment).2
  exact ⟨hlock, hsegment, hiff.mpr (by decide)⟩

/-- A second segment override that is added does not take the place of the first. -/
theorem addPrefixes_two_segments :
    (InsnFlags.modrm.withPrefixes (.ofList [.segment .ds])).prefixes.IsExclusive ∧
      (PrefixSet.ofList [.segment .cs]).IsExclusive ∧
      ¬ ((InsnFlags.modrm.withPrefixes (.ofList [.segment .ds])).addPrefixes
        (.ofList [.segment .cs])).prefixes.IsExclusive := by decide

end LengthDisasm
