import LengthDisasm.Bits.Field

/-!
# Flag words

A flag word is a 32-bit word of independent bits, some of which can be grouped into a `BitField`
that is read and written as a number.

## Main definitions

* `BitField` — a non-empty run of bits of a 32-bit word
* `FlagWord` — the word, with `insert`, `erase`, `any`, `all`, `field` and `setField`
-/

namespace LengthDisasm

/-- A run of `size` bits of a 32-bit word that starts at bit `start`. -/
structure BitField where
  start : Nat
  size : Nat
deriving DecidableEq, Repr

namespace BitField

/-- The bit field with these bounds, if it is not empty and lies inside the word. -/
def ofBounds (start size : Nat) : Except Fault BitField :=
  if size ≠ 0 ∧ start < 32 ∧ start + size ≤ 32 then .ok ⟨start, size⟩ else .error .fieldBounds

/-- The word whose set bits are those of the field. -/
def mask (f : BitField) : BitVec 32 :=
  (BitVec.allOnes 32 >>> (32 - f.size)) <<< f.start

end BitField

/-- A word of 32 flags. -/
structure FlagWord where
  bits : BitVec 32
deriving DecidableEq, Repr

namespace FlagWord

/-- The word with no flag set. -/
def empty : FlagWord := ⟨0⟩

/-- Set every flag of `flags`. -/
def insert (word : FlagWord) (flags : BitVec 32) : FlagWord := ⟨word.bits ||| flags⟩

/-- Clear every flag of `flags`. -/
def erase (word : FlagWord) (flags : BitVec 32) : FlagWord := ⟨word.bits &&& ~~~flags⟩

/-- Set or clear every flag of `flags`, as `on` says. -/
def assign (word : FlagWord) (flags : BitVec 32) (on : Bool) : FlagWord :=
  if on then word.insert flags else word.erase flags

/-- Some flag of `flags` is set. -/
def any (word : FlagWord) (flags : BitVec 32) : Bool := word.bits &&& flags != 0

/-- Every flag of `flags` is set. -/
def all (word : FlagWord) (flags : BitVec 32) : Bool := word.bits &&& flags == flags

/-- The number held by a bit field. -/
def field (word : FlagWord) (f : BitField) : Except Fault (BitVec 32) :=
  Bits.extract word.bits f.start f.size

/-- The word with a bit field replaced by the low bits of `value`. -/
def setField (word : FlagWord) (f : BitField) (value : BitVec 32) : Except Fault FlagWord :=
  (Bits.deposit word.bits f.start f.size value).map FlagWord.mk

end FlagWord

end LengthDisasm
