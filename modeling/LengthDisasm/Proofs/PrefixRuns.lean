import Mathlib.Data.List.Induction
import Mathlib.Data.List.Perm.Basic
import LengthDisasm.Instruction.Prefix

/-!
# Which prefixes a run leaves

Prefixes compete for places in a set: a segment override takes the place of another one, and so does
a repeat prefix. Of those that compete for a place the last one has it. All other prefixes last:
once one stands in a run, the set of the run has it. So the order of a run matters only through its
last segment override and its last repeat prefix.

## Main definitions

* `Prefix.competes` — two prefixes are for the same place
* `Prefix.isLasting` — no other prefix takes the place of this one

## Main results

* `PrefixSet.contains_insert` — what adding a prefix does to the others
* `PrefixSet.contains_ofList` — the last of the prefixes that compete has the place
* `PrefixSet.contains_ofRun` — the set of a run has the lasting prefixes that stand in the run, and
  no others
* `PrefixSet.ofList_eq_of_perm` — when the order of prefixes does not matter
-/

namespace LengthDisasm

namespace Prefix

/-- The prefixes compete for one place in a set: they are the same, or both segment overrides, or
both repeat prefixes. -/
def competes (p q : Prefix) : Bool :=
  q == p || (p.segment?.isSome && q.segment?.isSome) || (p.isRepeat && q.isRepeat)

/-- No other prefix takes the place of this one. -/
def isLasting (p : Prefix) : Bool := p.segment?.isNone && !p.isRepeat

theorem competes_of_isLasting {p : Prefix} (hp : p.isLasting = true) : p.competes = (· == p) := by
  funext q
  cases p with
  | segment | rep | repNZ => cases hp
  | _ => simp [competes, segment?, isRepeat]

theorem competes_segment (s : Segment) : (segment s).competes = (·.segment?.isSome) := by
  funext q
  cases q with
  | segment t => simp [competes, segment?]
  | _ => rfl

theorem competes_of_isRepeat {p : Prefix} (hp : p.isRepeat = true) : p.competes = isRepeat := by
  funext q
  cases p with
  | rep | repNZ => cases q <;> rfl
  | _ => cases hp

theorem position_lt (p : Prefix) : p.position < 13 := by
  cases p with
  | segment s => cases s <;> decide
  | _ => decide

theorem all_position (p : Prefix) : all[p.position]? = some p := by
  cases p with
  | segment s => cases s <;> rfl
  | _ => rfl

theorem exists_position_eq {k : Nat} (hk : k < 13) : ∃ p : Prefix, p.position = k := by
  have hposition : ∀ k (hk : k < all.length), all[k].position = k := by decide
  exact ⟨all[k], hposition k hk⟩

theorem position_injective {p q : Prefix} (h : p.position = q.position) : p = q := by
  have hp := p.all_position
  rw [h, q.all_position] at hp
  exact (Option.some.inj hp).symm

theorem decide_position_eq (p q : Prefix) : decide (q.position = p.position) = (q == p) := by
  rw [Bool.eq_iff_iff, decide_eq_true_iff, beq_iff_eq]
  exact ⟨position_injective, fun h => by rw [h]⟩

theorem getLsbD_bit (p : Prefix) (k : Nat) : p.bit.getLsbD k = decide (p.position = k) := by
  have hlt : p.position < 16 := Nat.lt_trans p.position_lt (by decide)
  have hbit : p.bit = BitVec.twoPow 16 p.position := rfl
  rw [hbit, BitVec.getLsbD_twoPow, decide_eq_true hlt, Bool.true_and]

end Prefix

namespace PrefixSet

variable {p : Prefix} {ps qs : List Prefix}

theorem contains_eq_getLsbD (s : PrefixSet) (p : Prefix) :
    s.contains p = s.bits.getLsbD p.position := by
  have hlt : p.position < 16 := Nat.lt_trans p.position_lt (by decide)
  have hne : BitVec.twoPow 16 p.position ≠ 0 := by
    intro h
    have hbit := congrArg (BitVec.getLsbD · p.position) h
    simp [hlt] at hbit
  have hbit : p.bit = BitVec.twoPow 16 p.position := rfl
  rw [contains, hbit, BitVec.and_twoPow]
  cases s.bits.getLsbD p.position with
  | false => rfl
  | true => simpa using hne

/-! ### Adding a prefix and taking it out -/

theorem getLsbD_segmentMask (p : Prefix) :
    (~~~segmentMask).getLsbD p.position = !p.segment?.isSome := by
  cases p with
  | segment s => cases s <;> rfl
  | _ => rfl

theorem getLsbD_repeatMask (p : Prefix) : (~~~repeatMask).getLsbD p.position = !p.isRepeat := by
  cases p with
  | segment s => cases s <;> rfl
  | _ => rfl

/-- Room is made for a segment override among segment overrides, and for a repeat prefix among
those. -/
theorem contains_makeRoom (s : PrefixSet) (p q : Prefix) :
    (s.makeRoom q).contains p =
      (s.contains p && !(p.segment?.isSome && q.segment?.isSome) &&
        !(p.isRepeat && q.isRepeat)) := by
  have hsegment := getLsbD_segmentMask p
  have hrepeat := getLsbD_repeatMask p
  rw [contains_eq_getLsbD, contains_eq_getLsbD]
  cases q with
  | segment t =>
    rw [makeRoom, BitVec.getLsbD_and, hsegment]
    cases p.segment?.isSome <;> simp [Prefix.segment?, Prefix.isRepeat]
  | rep | repNZ =>
    rw [makeRoom, BitVec.getLsbD_and, hrepeat]
    cases p.isRepeat <;> simp [Prefix.segment?, Prefix.isRepeat]
  | _ => simp [makeRoom, Prefix.segment?, Prefix.isRepeat]

/-- A prefix that is added has its place, and no other one that competes for it is left. -/
theorem contains_insert (s : PrefixSet) (p q : Prefix) :
    (s.insert q).contains p = if p.competes q then q == p else s.contains p := by
  have hroom := s.contains_makeRoom p q
  rw [contains_eq_getLsbD] at hroom
  rw [contains_eq_getLsbD, insert, BitVec.getLsbD_or, hroom, Prefix.getLsbD_bit,
    Prefix.decide_position_eq, Prefix.competes]
  cases q == p <;> cases p.segment?.isSome && q.segment?.isSome <;> cases p.isRepeat &&
    q.isRepeat <;> simp

theorem contains_erase (s : PrefixSet) (p q : Prefix) :
    (s.erase q).contains p = (s.contains p && q != p) := by
  have hlt : p.position < 16 := Nat.lt_trans p.position_lt (by decide)
  rw [contains_eq_getLsbD, contains_eq_getLsbD, erase, BitVec.getLsbD_and, BitVec.getLsbD_not,
    Prefix.getLsbD_bit, Prefix.decide_position_eq, decide_eq_true hlt, Bool.true_and]
  rfl

/-! ### Sets of lists -/

theorem ofList_append (ps qs : List Prefix) : ofList (ps ++ qs) = qs.foldl insert (ofList ps) := by
  rw [ofList, List.foldl_append]
  rfl

theorem ofList_concat (ps : List Prefix) (q : Prefix) :
    ofList (ps ++ [q]) = (ofList ps).insert q :=
  ofList_append ps [q]

/-- Of the prefixes that compete for a place, the last one has it. -/
theorem contains_ofList (ps : List Prefix) (p : Prefix) :
    (ofList ps).contains p = (ps.reverse.find? p.competes == some p) := by
  -- from the right, since the last prefix decides first
  induction ps using List.reverseRecOn with
  | nil =>
    rw [contains_eq_getLsbD]
    simp [ofList, empty]
  | append_singleton ps q ih =>
    rw [ofList_concat, contains_insert, List.reverse_append, ih]
    cases hq : p.competes q <;> simp [hq]

/-- A prefix that lasts is in the set wherever it stands in the list. -/
theorem contains_ofList_of_isLasting (hp : p.isLasting = true) (ps : List Prefix) :
    (ofList ps).contains p = decide (p ∈ ps) := by
  rw [contains_ofList, Prefix.competes_of_isLasting hp, Bool.eq_iff_iff, beq_iff_eq,
    decide_eq_true_iff, ← List.mem_reverse]
  constructor
  · exact List.mem_of_find?_eq_some
  · intro hmem
    have hsome : (ps.reverse.find? (· == p)).isSome = true :=
      List.find?_isSome.mpr ⟨p, hmem, beq_self_eq_true p⟩
    obtain ⟨q, hq⟩ := Option.isSome_iff_exists.mp hsome
    have hqp : q = p := by simpa using List.find?_some hq
    rw [hq, hqp]

theorem getLsbD_ofList_of_le {k : Nat} (hk : 13 ≤ k) (ps : List Prefix) :
    (ofList ps).bits.getLsbD k = false := by
  induction ps using List.reverseRecOn with
  | nil => simp [ofList, empty]
  | append_singleton ps q ih =>
    have hroom : ((ofList ps).makeRoom q).bits.getLsbD k = false := by
      unfold makeRoom
      split <;> simp [ih]
    have hbit : q.position ≠ k := Nat.ne_of_lt (Nat.lt_of_lt_of_le q.position_lt hk)
    simp [ofList_concat, insert, hroom, Prefix.getLsbD_bit, hbit]

/-- The sets of two lists are equal if they have the same prefixes. -/
theorem ofList_ext (h : ∀ p, (ofList ps).contains p = (ofList qs).contains p) :
    ofList ps = ofList qs := by
  have hbits : (ofList ps).bits = (ofList qs).bits := by
    apply BitVec.eq_of_getLsbD_eq
    intro k _
    by_cases hk : k < 13
    · -- every low bit stands for a prefix
      obtain ⟨p, rfl⟩ := Prefix.exists_position_eq hk
      have hp := h p
      rwa [contains_eq_getLsbD, contains_eq_getLsbD] at hp
    · have hk : 13 ≤ k := Nat.le_of_not_lt hk
      rw [getLsbD_ofList_of_le hk, getLsbD_ofList_of_le hk]
  exact congrArg PrefixSet.mk hbits

/-- A set is empty if it has no prefix. -/
theorem isEmpty_ofList_iff : (ofList ps).isEmpty = true ↔ ∀ p, (ofList ps).contains p = false := by
  have hnone : ∀ p, (ofList []).contains p = false := fun p => by simp [contains_ofList]
  rw [isEmpty, beq_iff_eq]
  constructor
  · intro hzero p
    rw [contains_eq_getLsbD, hzero, BitVec.ofNat_eq_ofNat, BitVec.getLsbD_zero]
  · intro hall
    have hset : ofList ps = ofList [] := ofList_ext fun p => by rw [hall, hnone]
    rw [hset]
    rfl

/-- The order of prefixes matters to a set only through the last segment override and the last
repeat prefix. -/
theorem ofList_eq_of_perm (hperm : ps.Perm qs)
    (hsegment : ps.reverse.find? (·.segment?.isSome) = qs.reverse.find? (·.segment?.isSome))
    (hrepeat : ps.reverse.find? Prefix.isRepeat = qs.reverse.find? Prefix.isRepeat) :
    ofList ps = ofList qs := by
  apply ofList_ext
  intro p
  by_cases hlasting : p.isLasting = true
  · rw [contains_ofList_of_isLasting hlasting, contains_ofList_of_isLasting hlasting,
      decide_eq_decide]
    exact hperm.mem_iff
  · rw [contains_ofList, contains_ofList]
    cases p with
    | segment s => rw [Prefix.competes_segment, hsegment]
    | rep | repNZ => rw [Prefix.competes_of_isRepeat rfl, hrepeat]
    | _ => exact absurd rfl hlasting

/-! ### Sets of runs -/

/-- But for the mark of an empty run, the set of a run has the prefixes that its bytes leave. -/
theorem contains_ofRun_of_ne (hne : p ≠ .unprefixed) (run : List Byte) :
    (ofRun run).contains p = (ofList (run.filterMap Prefix.ofByte?)).contains p := by
  have hcompetes : p.competes .unprefixed = false := by
    have hbeq : (Prefix.unprefixed == p) = false := beq_false_of_ne hne.symm
    simp [Prefix.competes, Prefix.segment?, Prefix.isRepeat, hbeq]
  unfold ofRun
  dsimp only
  split
  · rw [contains_insert, hcompetes]
    rfl
  · rfl

/-- The set of a run has the lasting prefixes whose bytes stand in it, and no others. -/
theorem contains_ofRun (hp : p.isLasting = true) (hne : p ≠ .unprefixed) (run : List Byte) :
    (ofRun run).contains p = run.any fun b => Prefix.ofByte? b == some p := by
  rw [contains_ofRun_of_ne hne, contains_ofList_of_isLasting hp, Bool.eq_iff_iff]
  simp [List.mem_filterMap]

/-- What follows a run adds to its set, and to nothing else that the run leaves. -/
theorem ofRun_append_congr {run run' : List Byte}
    (h : ofList (run.filterMap Prefix.ofByte?) = ofList (run'.filterMap Prefix.ofByte?))
    (more : List Byte) :
    ofRun (run ++ more) = ofRun (run' ++ more) := by
  have hset : ofList ((run ++ more).filterMap Prefix.ofByte?) =
      ofList ((run' ++ more).filterMap Prefix.ofByte?) := by
    rw [List.filterMap_append, List.filterMap_append, ofList_append, ofList_append, h]
  rw [ofRun, ofRun, hset]

end PrefixSet

end LengthDisasm
