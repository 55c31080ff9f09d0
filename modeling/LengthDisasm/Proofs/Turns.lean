import Mathlib.Logic.Function.Iterate
import LengthDisasm.Listing.Ring

/-!
# Taking turns

Things that are numbered from zero on go round the ring: the first worker has number 0, the second
one number 1, and after the last worker it is the first one's turn again. A worker that had `x` of
them waits for number `i + n * x`. Where the workers have had the first `low` things between them,
they wait for the next `n` numbers, each for one of them, and so two neighbours have had equally
many, or differ by one in the way that the turn between them tells.

Block tokens and flush tokens both go round in this way.

## Main definitions

* `numberAt` — the number that a worker waits for
* `lap` — counts once more where the turn passes from the last worker to the first
* `IsShared` — the first things, so many, went round

## Main results

* `IsShared.le_previous`, `IsShared.previous_le` — neighbours have had equally many up to the turn
* `IsShared.numberAt_eq_iff` — whose turn it is shows between a worker and the one before it
* `IsShared.advance` — the next thing goes to the worker whose turn it is
-/

namespace LengthDisasm.Ring

variable {n : Nat}

/-! ### Neighbours -/

namespace State

theorem val_next (i : Fin n) :
    i.val + 1 < n ∧ (next i).val = i.val + 1 ∨ i.val + 1 = n ∧ (next i).val = 0 := by
  rcases Nat.lt_or_ge (i.val + 1) n with hlt | hge
  · exact .inl ⟨hlt, Nat.mod_eq_of_lt hlt⟩
  · have heq : i.val + 1 = n := by omega
    refine .inr ⟨heq, ?_⟩
    simp [next, heq]

theorem next_previous (i : Fin n) : next (previous i) = i := by
  apply Fin.ext
  have hi := i.isLt
  have hsum : i.val + (n - 1) + 1 = i.val + n := by omega
  simp only [next, previous, Nat.mod_add_mod, hsum, Nat.add_mod_right]
  exact Nat.mod_eq_of_lt hi

theorem next_injective : Function.Injective (next : Fin n → Fin n) := by
  intro i j h
  have hval : (next i).val = (next j).val := congrArg Fin.val h
  apply Fin.ext
  rcases val_next i with hi | hi <;> rcases val_next j with hj | hj <;> omega

theorem previous_next (i : Fin n) : previous (next i) = i :=
  next_injective (next_previous (next i))

theorem next_ne_self (hn : 2 ≤ n) (i : Fin n) : next i ≠ i := by
  intro h
  have hval : (next i).val = i.val := congrArg Fin.val h
  rcases val_next i with hi | hi <;> omega

theorem previous_ne_self (hn : 2 ≤ n) (i : Fin n) : previous i ≠ i := by
  intro h
  have hnext := next_previous i
  rw [h] at hnext
  exact next_ne_self hn i hnext

/-- What passes from each worker to the next one goes all the way round. -/
theorem forall_of_next {p : Fin n → Prop} (hstep : ∀ i, p i → p (next i)) {i : Fin n} (hi : p i)
    (j : Fin n) : p j := by
  have hround : ∀ k, p (next^[k] i) := by
    intro k
    induction k with
    | zero => exact hi
    | succ k ih =>
      rw [Function.iterate_succ_apply']
      exact hstep _ ih
  -- so far round the ring the worker after `k` others stands
  have hval : ∀ k, (next^[k] i).val = (i.val + k) % n := by
    intro k
    induction k with
    | zero => exact (Nat.mod_eq_of_lt i.isLt).symm
    | succ k ih =>
      have hnext : (next (next^[k] i)).val = ((next^[k] i).val + 1) % n := rfl
      rw [Function.iterate_succ_apply', hnext, ih, Nat.mod_add_mod, Nat.add_assoc]
  have hj : next^[n - i.val + j.val] i = j := by
    apply Fin.ext
    have hsum : i.val + (n - i.val + j.val) = j.val + n := by omega
    rw [hval, hsum, Nat.add_mod_right]
    exact Nat.mod_eq_of_lt j.isLt
  exact hj ▸ hround _

end State

open State

/-! ### Numbers -/

/-- The number that a worker waits for after it had `x` others. -/
def numberAt (i : Fin n) (x : Nat) : Nat := i.val + n * x

/-- One for the first worker and zero for the others: what the first worker gets from the last one
belongs to the next time round. -/
def lap (i : Fin n) : Nat := if i.val = 0 then 1 else 0

theorem numberAt_succ (i : Fin n) (x : Nat) : numberAt i (x + 1) = numberAt i x + n := by
  rw [numberAt, numberAt, Nat.mul_succ, Nat.add_assoc]

theorem numberAt_add_le {x y : Nat} (i : Fin n) (h : x < y) : numberAt i x + n ≤ numberAt i y := by
  rw [← numberAt_succ]
  exact Nat.add_le_add_left (Nat.mul_le_mul_left n h) i.val

/-- Numbers follow each other round the ring. -/
theorem numberAt_lap (i : Fin n) (x : Nat) :
    numberAt i (x + lap i) = numberAt (previous i) x + 1 := by
  have hnext := val_next (previous i)
  rw [next_previous] at hnext
  rcases hnext with ⟨-, hi⟩ | ⟨hlast, hi⟩
  -- only the first worker counts from the next time round
  · have hlap : lap i = 0 := if_neg (by omega)
    simp only [numberAt, hlap, hi, Nat.add_zero]
    omega
  · have hlap : lap i = 1 := if_pos hi
    simp only [numberAt, hlap, hi, Nat.mul_succ]
    omega

theorem eq_of_numberAt_eq {i j : Fin n} {x y : Nat} (h : numberAt i x = numberAt j y) : i = j := by
  have hmod := congrArg (· % n) h
  simp only [numberAt, Nat.add_mul_mod_self_left, Nat.mod_eq_of_lt i.isLt,
    Nat.mod_eq_of_lt j.isLt] at hmod
  exact Fin.ext hmod

/-! ### Things that went round -/

/-- The first things, `low` of them, went round the ring, and worker `i` had `x i` of them. -/
structure IsShared (low : Nat) (x : Fin n → Nat) : Prop where
  le : ∀ i, low ≤ numberAt i (x i)
  lt : ∀ i, numberAt i (x i) < low + n

namespace IsShared

variable {low : Nat} {x : Fin n → Nat}

theorem zero : IsShared 0 fun _ : Fin n => 0 where
  le _ := Nat.zero_le _
  lt i := by simp [numberAt]

/-- Nobody has had more than the worker before. -/
theorem le_previous (h : IsShared low x) (i : Fin n) : x i ≤ x (previous i) + lap i := by
  apply Nat.le_of_not_lt
  intro hlt
  -- else the worker would wait for a number after the next `n`
  have hle := numberAt_add_le i hlt
  have hlt := h.lt i
  have hprevious := h.le (previous i)
  rw [numberAt_lap] at hle
  omega

/-- Nobody is more than one behind the worker before. -/
theorem previous_le (h : IsShared low x) (i : Fin n) : x (previous i) + lap i ≤ x i + 1 := by
  apply Nat.le_of_not_lt
  intro hlt
  have hle := numberAt_add_le i hlt
  have hle' := h.le i
  have hprevious := h.lt (previous i)
  have hpos := i.pos
  rw [numberAt_lap, numberAt_succ] at hle
  omega

/-- It is the turn of the worker that is behind the one before. -/
theorem numberAt_eq_iff (h : IsShared low x) (i : Fin n) :
    numberAt i (x i) = low ↔ x i < x (previous i) + lap i := by
  constructor
  · intro hlow
    apply Nat.lt_of_not_le
    intro hle
    have heq := Nat.le_antisymm (h.le_previous i) hle
    have hprevious := h.le (previous i)
    rw [heq, numberAt_lap] at hlow
    omega
  · intro hlt
    have hle := numberAt_add_le i hlt
    have hle' := h.le i
    have hprevious := h.lt (previous i)
    rw [numberAt_lap] at hle
    omega

theorem exists_numberAt_eq (h : IsShared low x) (hn : 0 < n) : ∃ i, numberAt i (x i) = low := by
  -- the next number belongs to this worker, and no other of its numbers is among the next `n`
  let i : Fin n := ⟨low % n, Nat.mod_lt _ hn⟩
  have hlow : numberAt i (low / n) = low := Nat.mod_add_div low n
  refine ⟨i, ?_⟩
  have hle := h.le i
  have hlt := h.lt i
  rcases Nat.lt_trichotomy (x i) (low / n) with hless | heq | hmore
  · have hadd := numberAt_add_le i hless
    omega
  · rw [heq, hlow]
  · have hadd := numberAt_add_le i hmore
    omega

/-- The next thing goes to the worker whose turn it is. -/
theorem advance (h : IsShared low x) {i : Fin n} (hi : numberAt i (x i) = low) :
    IsShared (low + 1) (Function.update x i (x i + 1)) := by
  have hpos : 0 < n := i.pos
  constructor
  · intro j
    by_cases hj : j = i
    · subst hj
      rw [Function.update_self, numberAt_succ]
      omega
    · -- all others wait for a later number
      have hle := h.le j
      have hne : numberAt j (x j) ≠ low := fun heq => hj (eq_of_numberAt_eq (heq.trans hi.symm))
      rw [Function.update_of_ne hj]
      omega
  · intro j
    by_cases hj : j = i
    · subst hj
      rw [Function.update_self, numberAt_succ]
      omega
    · have hlt := h.lt j
      rw [Function.update_of_ne hj]
      omega

/-- A worker has had no more than there are. -/
theorem le_low (h : IsShared low x) (i : Fin n) : x i ≤ low := by
  apply Nat.le_of_not_lt
  intro hlt
  have hlt' := h.lt i
  have hmul : n * (low + 1) ≤ n * x i := Nat.mul_le_mul_left n hlt
  have hone : 1 * low ≤ n * low := Nat.mul_le_mul_right low i.pos
  rw [numberAt] at hlt'
  rw [Nat.mul_succ] at hmul
  omega

end IsShared

end LengthDisasm.Ring
