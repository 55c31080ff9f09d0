import LengthDisasm.Text.Number

/-!
# Names for the bits of a word

A table gives names to the bits of a 32-bit word, and a word is written as the names of its set
bits. An entry with an empty name hides its bits; a set bit without an entry of its own is reported
by value.

## Main definitions

* `BitNames` — a table of names
* `BitNames.setBits` — the set bits of a word as one-bit words, lowest first
* `BitNames.describe` — a word as text
-/

namespace LengthDisasm

/-- Names for the bits of a word; `typeName` introduces the bits that have no name. -/
structure BitNames where
  typeName : String
  entries : List (BitVec 32 × String)
deriving DecidableEq, Repr

namespace BitNames

/-- The bits of all entries whose name is empty. -/
def hidden (names : BitNames) : BitVec 32 :=
  (names.entries.filter (·.2.isEmpty)).foldl (fun mask entry => mask ||| entry.1) 0

/-- The first non-empty name given to exactly this bit. -/
def nameOf? (names : BitNames) (bit : BitVec 32) : Option String :=
  (names.entries.find? fun entry => entry.1 == bit && !entry.2.isEmpty).map (·.2)

/-- The word without its lowest set bit. -/
def dropLowest (v : BitVec 32) : BitVec 32 := v &&& (v - 1)

/-- The lowest set bit of the word. -/
def lowest (v : BitVec 32) : BitVec 32 := v &&& ~~~(v - 1)

theorem dropLowest_lt {v : BitVec 32} (h : v ≠ 0) : (dropLowest v).toNat < v.toNat := by
  have hpos : v.toNat ≠ 0 := fun h0 => h (BitVec.eq_of_toNat_eq h0)
  have hle : (dropLowest v).toNat ≤ (v - 1).toNat := by
    simp only [dropLowest, BitVec.toNat_and]
    exact Nat.and_le_right
  have hsub : (v - 1).toNat = v.toNat - 1 := by
    have hv := v.isLt
    simp only [BitVec.toNat_sub, BitVec.ofNat_eq_ofNat, BitVec.toNat_ofNat]
    omega
  omega

/-- The set bits of a word, each as a word of one bit, lowest first. -/
def setBits (v : BitVec 32) : List (BitVec 32) :=
  if v = 0 then [] else lowest v :: setBits (dropLowest v)
termination_by v.toNat
decreasing_by exact dropLowest_lt (by assumption)

/-- The word as text: names of its visible bits joined by a bar, then the value of those without
one. -/
def describe (names : BitNames) (word : BitVec 32) : String :=
  let visible := word &&& ~~~names.hidden
  if visible = 0 then "None"
  else
    let bits := setBits visible
    let named := bits.filterMap names.nameOf?
    let unnamed := (bits.filter fun bit => (names.nameOf? bit).isNone).foldl (· ||| ·) 0
    let rest := if unnamed = 0 then []
      else [names.typeName ++ "(" ++ Text.hexMarked unnamed.toNat ++ ")"]
    "|".intercalate (named ++ rest)

end BitNames

end LengthDisasm
