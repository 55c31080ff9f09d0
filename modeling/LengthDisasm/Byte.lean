/-!
# Bytes and addresses

Machine code is a list of 8-bit words and an address is a 64-bit word whose arithmetic wraps.
Numbers inside code are little-endian.

## Main definitions

* `Byte`, `Address` — the words that code and its position are made of
* `Byte.littleEndian` — the number that a list of bytes spells, least significant byte first
* `Byte.toLittleEndian` — the bytes of a number
-/

namespace LengthDisasm

/-- A byte of code or data. -/
abbrev Byte := BitVec 8

/-- A position in the address space; sums wrap at `2 ^ 64`. -/
abbrev Address := BitVec 64

namespace Byte

/-- The number spelled by `bytes`, least significant byte first. -/
def littleEndian : List Byte → Nat
  | [] => 0
  | b :: rest => b.toNat + 256 * littleEndian rest

/-- The lowest `count` bytes of `value`, least significant byte first. -/
def toLittleEndian : (count : Nat) → (value : Nat) → List Byte
  | 0, _ => []
  | count + 1, value => BitVec.ofNat 8 value :: toLittleEndian count (value / 256)

@[simp] theorem littleEndian_nil : littleEndian [] = 0 := rfl

@[simp] theorem littleEndian_cons (b : Byte) (rest : List Byte) :
    littleEndian (b :: rest) = b.toNat + 256 * littleEndian rest := rfl

@[simp] theorem length_toLittleEndian (count value : Nat) :
    (toLittleEndian count value).length = count := by
  induction count generalizing value with
  | zero => rfl
  | succ count ih => simp [toLittleEndian, ih]

/-- Spelling a number and taking its bytes again gives the bytes back. -/
theorem toLittleEndian_littleEndian (bytes : List Byte) :
    toLittleEndian bytes.length (littleEndian bytes) = bytes := by
  induction bytes with
  | nil => rfl
  | cons b rest ih =>
    have hb : b.toNat < 256 := b.isLt
    have hhead : BitVec.ofNat 8 (b.toNat + 256 * littleEndian rest) = b := by
      apply BitVec.eq_of_toNat_eq
      simp only [BitVec.toNat_ofNat]
      omega
    have htail : (b.toNat + 256 * littleEndian rest) / 256 = littleEndian rest := by omega
    simp [toLittleEndian, hhead, htail, ih]

end Byte

end LengthDisasm
