import LengthDisasm.Bits.Field
import LengthDisasm.Bits.Names

/-!
# Words spelled bit by bit

The text of a word is written from left to right while its set bits are taken away, lowest first. A
bit with a name adds the name to the text. The others are kept, and are written together at the end.

## Main definitions

* `Spelling` — the bits that are left, and the text so far
* `Spelling.step`, `Spelling.run` — spell one bit, and all that are left
* `BitNames.spell` — a word as text
-/

namespace LengthDisasm

/-- A word on the way to its text. -/
structure Spelling where
  /-- The bits that are left. -/
  rest : BitVec 32
  /-- The bits so far that have no name. -/
  unknown : BitVec 32
  /-- Nothing was written so far. -/
  isFirst : Bool
  text : String
deriving DecidableEq, Repr

namespace Spelling

/-- All bits are left. -/
def start (word : BitVec 32) : Spelling := ⟨word, 0, true, ""⟩

/-- Write a part behind the text, and a bar before it unless it is the first one. -/
def write (s : Spelling) (part : String) : Spelling :=
  { s with isFirst := false, text := (if s.isFirst then s.text else s.text ++ "|") ++ part }

/-- Take a bit away and write its name, or keep it if it has none. -/
def visit (names : BitNames) (s : Spelling) (bit : BitVec 32) : Spelling :=
  let s := { s with rest := s.rest &&& ~~~bit }
  match names.nameOf? bit with
  | some name => s.write name
  | none => { s with unknown := s.unknown ||| bit }

/-- Spell the lowest bit that is left. -/
def step (names : BitNames) (s : Spelling) : Except Fault Spelling := do
  let bit ← Bits.shiftLeft 1 s.rest.ctz.toNat
  return s.visit names bit

theorem rest_visit (names : BitNames) (s : Spelling) (bit : BitVec 32) :
    (s.visit names bit).rest = s.rest &&& ~~~bit := by
  unfold visit
  split <;> rfl

/-- The position of a bit that is left is inside the word. -/
theorem step_of_ne (names : BitNames) {s : Spelling} (h : s.rest ≠ 0) :
    s.step names = .ok (s.visit names ((1 : BitVec 32) <<< s.rest.ctz.toNat)) := by
  have hlt : s.rest.ctz.toNat < 32 := BitVec.lt_of_getLsbD (BitVec.getLsbD_true_ctz_of_ne_zero h)
  simp only [step, Bits.shiftLeft, hlt, if_true, bind, Except.bind, pure, Except.pure]

/-- A word without one of its bits. -/
theorem getLsbD_without (v : BitVec 32) (t k : Nat) :
    (v &&& ~~~((1 : BitVec 32) <<< t)).getLsbD k = (v.getLsbD k && decide (k ≠ t)) := by
  have hbit : (1 : BitVec 32) <<< t = BitVec.twoPow 32 t := (BitVec.twoPow_eq 32 t).symm
  rw [hbit, BitVec.getLsbD_and, BitVec.getLsbD_not, BitVec.getLsbD_twoPow]
  by_cases hk : k < 32
  · by_cases hkt : t = k
    · simp [hkt]
    · simp [hk, hkt, Ne.symm hkt]
  · simp [BitVec.getLsbD_of_ge v k (Nat.le_of_not_lt hk)]

theorem rest_lt_of_step {names : BitNames} {s s' : Spelling} (h : s.rest ≠ 0)
    (hstep : s.step names = .ok s') :
    s'.rest.toNat < s.rest.toNat := by
  rw [step_of_ne names h] at hstep
  obtain rfl := Except.ok.inj hstep
  rw [rest_visit]
  have hle : (s.rest &&& ~~~((1 : BitVec 32) <<< s.rest.ctz.toNat)).toNat ≤ s.rest.toNat := by
    rw [BitVec.toNat_and]
    exact Nat.and_le_left
  refine Nat.lt_of_le_of_ne hle fun heq => ?_
  -- the bit that is taken away was set
  have hset : s.rest.getLsbD s.rest.ctz.toNat = true := BitVec.getLsbD_true_ctz_of_ne_zero h
  have hbit := congrArg (BitVec.getLsbD · s.rest.ctz.toNat) (BitVec.eq_of_toNat_eq heq)
  simp only [getLsbD_without, hset, ne_eq, not_true_eq_false, decide_false, Bool.and_false,
    Bool.false_eq_true] at hbit

/-- Spell the lowest bit that is left, so that fewer bits are left after it. -/
def next (names : BitNames) (s : Spelling) (h : s.rest ≠ 0) :
    Except Fault { s' : Spelling // s'.rest.toNat < s.rest.toNat } :=
  match hstep : s.step names with
  | .ok s' => .ok ⟨s', rest_lt_of_step h hstep⟩
  | .error e => .error e

/-- Spell all bits that are left. -/
def run (names : BitNames) (s : Spelling) : Except Fault Spelling :=
  if h : s.rest = 0 then .ok s
  else do
    let s' ← s.next names h
    run names s'
termination_by s.rest.toNat
decreasing_by exact s'.2

/-- Spelling goes on until no bits are left. -/
theorem run_eq (names : BitNames) (s : Spelling) :
    s.run names = if s.rest = 0 then .ok s else s.step names >>= run names := by
  rw [run]
  split
  · rfl
  · unfold next
    split
    · rename_i hstep
      simp only [hstep, bind, Except.bind]
    · rename_i hstep
      simp only [hstep, bind, Except.bind]

end Spelling

/-- The text of a word: the names of its visible bits with bars between them, and then the value of
those without one. -/
def BitNames.spell (names : BitNames) (word : BitVec 32) : Except Fault String := do
  let visible := word &&& ~~~names.hidden
  if visible = 0 then return "None"
  let s ← (Spelling.start visible).run names
  if s.unknown = 0 then return s.text
  return (s.write (names.typeName ++ "(" ++ Text.hexMarked s.unknown.toNat ++ ")")).text

end LengthDisasm
