import Mathlib.Algebra.Order.BigOperators.Group.List
import Mathlib.Algebra.Order.Floor.Div
import Mathlib.GroupTheory.GroupAction.Ring
import LengthDisasm.Decoder

/-!
# The steps of a walk

A walk is asked for its next step again and again. Every step covers at least one byte of what is
left and at most fifteen, so that the walk comes to an end, and its steps lie one behind the other
from the first byte of the data to the last. The same bounds say how many steps are still to come,
at every point on the way.

## Main definitions

* `Walk.Yields` — asking for steps gives these steps and leaves the walk there

## Main results

* `Walk.step_induction`, `Walk.exists_yields_steps` — a walk ends, after its steps
* `Walk.Yields.eq_advance` — after some steps a walk stands behind the bytes that they cover
* `Walk.Yields.remaining_bounds` — how many bytes some steps can cover
* `walk_partitions` — the steps of a walk divide its data
-/

namespace LengthDisasm

theorem decodedLength_le_maxLength (mode : Mode) (code : List Byte) :
    decodedLength (decode mode code) ≤ Instruction.maxLength := by
  cases h : decode mode code with
  | ok i => exact (length_le_of_decode h).trans (Nat.min_le_left _ _)
  | error e => exact (by decide : 1 ≤ Instruction.maxLength)

namespace Walk

/-- Asking a walk for its next step again and again gives the steps, and leaves the second walk. -/
inductive Yields : Walk → List Step → Walk → Prop
  | nil (w : Walk) : Yields w [] w
  | cons {w w' last : Walk} {s : Step} {steps : List Step} (h : w.next? = some (s, w'))
      (hrest : Yields w' steps last) : Yields w (s :: steps) last

variable {w w' last : Walk} {s : Step} {steps before after : List Step}

/-! ### One step -/

theorem next?_eq_none_iff : w.next? = none ↔ w.data = [] := by
  simp [next?]

theorem next?_eq_some_iff :
    w.next? = some (s, w') ↔ w.data ≠ [] ∧ s = w.current ∧ w' = w.advance w.current.length := by
  unfold next?
  split
  · rename_i hempty
    exact iff_of_false (by nofun) fun h => h.1 (List.isEmpty_iff.mp hempty)
  · rename_i hne
    rw [List.isEmpty_iff] at hne
    rw [Option.some.injEq, Prod.mk.injEq, eq_comm, and_iff_right hne, @eq_comm Walk]

theorem length_current_pos (w : Walk) : 0 < w.current.length := decodedLength_pos w.mode w.data

theorem length_current_le (h : w.data ≠ []) : w.current.length ≤ w.data.length := decodedLength_le h

theorem length_current_le_maxLength (w : Walk) : w.current.length ≤ Instruction.maxLength :=
  decodedLength_le_maxLength w.mode w.data

theorem advance_advance (w : Walk) (m n : Nat) : (w.advance m).advance n = w.advance (m + n) := by
  simp only [advance, List.drop_drop, BitVec.add_assoc, ← BitVec.ofNat_add]

theorem advance_zero (w : Walk) : w.advance 0 = w := by
  simp [advance]

/-! ### Many steps -/

/-- Induction along a walk: it ends, or goes on behind its next step. -/
theorem step_induction {motive : Walk → Prop} (nil : ∀ w : Walk, w.next? = none → motive w)
    (step : ∀ (w : Walk) s w', w.next? = some (s, w') → motive w' → motive w) (w : Walk) :
    motive w := by
  -- by the bytes that are left, of which every step takes some
  induction hn : w.data.length using Nat.strongRecOn generalizing w with
  | ind n ih =>
    cases hnext : w.next? with
    | none => exact nil w hnext
    | some p =>
      have hlt := remaining_lt_of_next? hnext
      exact step w p.1 p.2 hnext (ih _ (hn ▸ hlt) p.2 rfl)

/-- A walk ends, after its steps. -/
theorem exists_yields_steps (w : Walk) : ∃ last, w.Yields w.steps last ∧ last.next? = none := by
  induction w using step_induction with
  | nil w hnext =>
    rw [steps_eq, hnext]
    exact ⟨w, .nil w, hnext⟩
  | step w s w' hnext ih =>
    obtain ⟨last, hyields, hlast⟩ := ih
    rw [steps_eq, hnext]
    exact ⟨last, .cons hnext hyields, hlast⟩

namespace Yields

/-- The steps that a walk gives are the first of its steps, and the others are still to come. -/
theorem steps_eq_append (h : w.Yields before w') : w.steps = before ++ w'.steps := by
  induction h with
  | nil w => rfl
  | @cons w w' _ s _ hnext _ ih =>
    have hsteps : w.steps = s :: w'.steps := by rw [steps_eq, hnext]
    rw [hsteps, ih, List.cons_append]

/-- Some steps and then some more: there is a walk in between. -/
theorem exists_between (h : w.Yields (before ++ after) last) :
    ∃ w', w.Yields before w' ∧ w'.Yields after last := by
  induction before generalizing w with
  | nil => exact ⟨w, .nil w, h⟩
  | cons s before ih =>
    cases h with
    | cons hnext hrest =>
      obtain ⟨w', hbefore, hafter⟩ := ih hrest
      exact ⟨w', .cons hnext hbefore, hafter⟩

/-- After some steps a walk stands behind the bytes that they cover, which lie inside its data. -/
theorem eq_advance (h : w.Yields steps w') :
    w' = w.advance (steps.map Step.length).sum ∧ (steps.map Step.length).sum ≤ w.remaining := by
  induction h with
  | nil w => exact ⟨w.advance_zero.symm, Nat.zero_le _⟩
  | cons hnext _ ih =>
    obtain ⟨hne, rfl, rfl⟩ := next?_eq_some_iff.mp hnext
    obtain ⟨hlast, hsum⟩ := ih
    have hle := length_current_le hne
    rw [advance_advance] at hlast
    rw [remaining, advance, List.length_drop] at hsum
    rw [List.map_cons, List.sum_cons]
    exact ⟨hlast, by rw [remaining]; omega⟩

/-- Every step is the current one of some walk on the way. -/
theorem exists_current_of_mem (h : w.Yields steps last) (hs : s ∈ steps) : ∃ w' :
    Walk, s = w'.current := by
  obtain ⟨before, after, rfl⟩ := List.append_of_mem hs
  obtain ⟨w', -, hafter⟩ := h.exists_between
  cases hafter with
  | cons hnext _ => exact ⟨w', (next?_eq_some_iff.mp hnext).2.1⟩

/-- The steps to the end cover all that is left. -/
theorem sum_length (h : w.Yields steps last) (hlast : last.next? = none) :
    (steps.map Step.length).sum = w.remaining := by
  obtain ⟨rfl, hsum⟩ := h.eq_advance
  have hend : w.data.drop (steps.map Step.length).sum = [] := next?_eq_none_iff.mp hlast
  exact Nat.le_antisymm hsum (List.drop_eq_nil_iff.mp hend)

/-- The bytes that are left are at least as many as the steps to the end, and at most fifteen times
as many. -/
theorem remaining_bounds (h : w.Yields steps last) (hlast : last.next? = none) :
    steps.length ≤ w.remaining ∧ w.remaining ≤ Instruction.maxLength * steps.length := by
  have hcover := h.sum_length hlast
  have hbounds : ∀ n ∈ steps.map Step.length, 1 ≤ n ∧ n ≤ Instruction.maxLength := by
    intro n hn
    obtain ⟨s, hs, rfl⟩ := List.mem_map.mp hn
    obtain ⟨w', rfl⟩ := h.exists_current_of_mem hs
    exact ⟨w'.length_current_pos, w'.length_current_le_maxLength⟩
  have hlow := List.card_nsmul_le_sum _ 1 fun n hn => (hbounds n hn).1
  have hhigh := List.sum_le_card_nsmul _ Instruction.maxLength fun n hn => (hbounds n hn).2
  rw [List.length_map, hcover, smul_eq_mul, Nat.mul_comm] at hlow hhigh
  exact ⟨by omega, hhigh⟩

end Yields

theorem stepBounds_eq (w : Walk) :
    w.stepBounds = (w.remaining ⌈/⌉ Instruction.maxLength, w.remaining) := by
  rw [stepBounds, Nat.ceilDiv_eq_add_pred_div]

end Walk

/-- A walk divides its data. Asking for steps comes to an end; each step covers at least one byte
and at most fifteen, and a failed one covers one; together they cover all data; each has the address
and the decode result of the bytes behind the steps before it; and at every point on the way the
bounds hold of the number of steps that are still to come. -/
theorem walk_partitions (d : Decoder) (data : List Byte) :
    ∃ steps last, (d.walk data).Yields steps last ∧ last.next? = none ∧
      (d.walk data).steps = steps ∧
      (∀ s ∈ steps, 1 ≤ s.length ∧ s.length ≤ 15 ∧ (∀ i, s.result = .ok i → s.length = i.length) ∧
        ∀ e, s.result = .error e → s.length = 1) ∧
      (steps.map Step.length).sum = data.length ∧
      (∀ before s after, steps = before ++ s :: after →
        s.address.toNat = (d.address.toNat + (before.map Step.length).sum) % 2 ^ 64 ∧
          s.result = decode d.mode (data.drop (before.map Step.length).sum)) ∧
      (∀ before w, (d.walk data).Yields before w →
        w.remaining = data.length - (before.map Step.length).sum ∧
          w.stepBounds = (w.remaining ⌈/⌉ 15, w.remaining) ∧
          ∃ after, steps = before ++ after ∧ w.stepBounds.1 ≤ after.length ∧
            after.length ≤ w.stepBounds.2) := by
  obtain ⟨last, hyields, hlast⟩ := (d.walk data).exists_yields_steps
  refine ⟨_, last, hyields, hlast, rfl, fun s hs => ?_, ?_, fun before s after hsteps => ?_,
    fun before w hbefore => ?_⟩
  · obtain ⟨w, rfl⟩ := hyields.exists_current_of_mem hs
    refine ⟨w.length_current_pos, w.length_current_le_maxLength, fun i hi => ?_, fun e he => ?_⟩
    · exact congrArg decodedLength hi
    · exact congrArg decodedLength he
  · obtain ⟨rfl, hsum⟩ := hyields.eq_advance
    exact Nat.le_antisymm hsum (List.drop_eq_nil_iff.mp (Walk.next?_eq_none_iff.mp hlast))
  · rw [hsteps] at hyields
    obtain ⟨w, hbefore, hafter⟩ := hyields.exists_between
    obtain ⟨rfl, -⟩ := hbefore.eq_advance
    cases hafter with
    | cons hnext _ =>
      obtain ⟨-, rfl, -⟩ := Walk.next?_eq_some_iff.mp hnext
      refine ⟨?_, rfl⟩
      change (d.address + BitVec.ofNat 64 _).toNat = _
      rw [BitVec.toNat_add, BitVec.toNat_ofNat, Nat.add_mod_mod]
  · obtain ⟨last', hyields', hlast'⟩ := w.exists_yields_steps
    obtain ⟨hlow, hhigh⟩ := hyields'.remaining_bounds hlast'
    have hbounds := w.stepBounds_eq
    refine ⟨?_, hbounds, w.steps, hbefore.steps_eq_append, ?_, ?_⟩
    · obtain ⟨rfl, -⟩ := hbefore.eq_advance
      exact List.length_drop
    · rw [hbounds]
      exact (ceilDiv_le_iff_le_mul (by decide)).mpr hhigh
    · rw [hbounds]
      exact hlow

/-- A byte that starts no instruction at the last address, and an instruction behind it at the
first. -/
example : ((Decoder.mk .long64 0xffffffffffffffff .default).walk [0x06, 0xeb, 0x10]).steps.map
    (fun s => (s.address, s.length)) = [(0xffffffffffffffff, 1), (0, 2)] := by cbv

end LengthDisasm
