import LengthDisasm.Decode

/-!
# Walking through code

A walk decodes one instruction after the other. Where no instruction can be decoded it reports the
error and goes on with the next byte, so that the steps of a walk cover its data without gaps.

## Main definitions

* `decodedLength` — how many bytes a decode result covers
* `Step` — one decode attempt of a walk
* `Walk` — a position in data that is being walked
* `Walk.next?`, `Walk.steps` — the next step, and all steps to the end
* `Walk.stepBounds` — bounds on the number of steps to come

## Main results

* `decodedLength_pos`, `decodedLength_le` — a step covers at least one byte and stays inside the
  data
* `Walk.steps_eq` — the steps are the next step followed by the steps after it
-/

namespace LengthDisasm

/-- The number of bytes that a decode result covers: those of the instruction, or one. -/
def decodedLength : Except DecodeError Instruction → Nat
  | .ok i => i.length
  | .error _ => 1

theorem decodedLength_pos (mode : Mode) (code : List Byte) :
    0 < decodedLength (decode mode code) := by
  cases h : decode mode code with
  | ok i => exact length_pos_of_decode h
  | error e => exact Nat.one_pos

theorem decodedLength_le {mode : Mode} {code : List Byte} (h : code ≠ []) :
    decodedLength (decode mode code) ≤ code.length := by
  cases hd : decode mode code with
  | ok i => exact Nat.le_trans (length_le_of_decode hd) (Nat.min_le_right ..)
  | error e => exact List.length_pos_iff.mpr h

/-- One decode attempt. -/
structure Step where
  address : Address
  /-- The number of bytes covered. -/
  length : Nat
  result : Except DecodeError Instruction

/-- Data that is walked through, from an address on. -/
structure Walk where
  mode : Mode
  address : Address
  data : List Byte

namespace Walk

/-- The number of bytes still to come. -/
def remaining (w : Walk) : Nat := w.data.length

/-- The step at the current position. -/
def current (w : Walk) : Step :=
  let result := decode w.mode w.data
  ⟨w.address, decodedLength result, result⟩

/-- The walk moved over `length` bytes. -/
def advance (w : Walk) (length : Nat) : Walk :=
  { w with address := w.address + BitVec.ofNat 64 length, data := w.data.drop length }

/-- The next step and the walk after it. -/
def next? (w : Walk) : Option (Step × Walk) :=
  if w.data.isEmpty then none
  else some (w.current, w.advance w.current.length)

theorem remaining_lt_of_next? {w w' : Walk} {s : Step} (h : w.next? = some (s, w')) :
    w'.data.length < w.data.length := by
  unfold next? at h
  split at h
  · cases h
  · rename_i hne
    cases h
    have hpos := decodedLength_pos w.mode w.data
    have hlen : 0 < w.data.length := by
      cases hd : w.data with
      | nil => simp [hd] at hne
      | cons b rest => simp
    simp only [advance, current, List.length_drop]
    omega

/-- The steps from `w` on, put in reverse order before `done`. -/
def stepsOnto (done : List Step) (w : Walk) : List Step :=
  match _h : w.next? with
  | none => done
  | some (s, w') => stepsOnto (s :: done) w'
termination_by w.data.length
decreasing_by exact remaining_lt_of_next? (by assumption)

/-- All steps of the walk. -/
def steps (w : Walk) : List Step := (stepsOnto [] w).reverse

theorem stepsOnto_append (done before : List Step) (w : Walk) :
    stepsOnto (done ++ before) w = stepsOnto done w ++ before := by
  fun_induction stepsOnto done w with
  | case1 done w h =>
    rw [stepsOnto]
    split <;> simp_all
  | case2 done w s w' h ih =>
    rw [stepsOnto]
    split
    · simp_all
    · rename_i s' w'' h'
      obtain ⟨rfl, rfl⟩ : s = s' ∧ w' = w'' := by simpa [h] using h'
      exact ih

/-- The steps of a walk are its next step followed by the steps of the walk after it. -/
theorem steps_eq (w : Walk) :
    w.steps = match w.next? with
      | none => []
      | some (s, w') => s :: w'.steps := by
  unfold steps
  rw [stepsOnto]
  split
  · rename_i h
    simp [h]
  · rename_i s w' h
    have happ := stepsOnto_append [] [s] w'
    simp only [List.nil_append] at happ
    simp [h, happ]

/-- The least and the greatest number of steps still to come. -/
def stepBounds (w : Walk) : Nat × Nat :=
  ((w.remaining + Instruction.maxLength - 1) / Instruction.maxLength, w.remaining)

end Walk

end LengthDisasm
