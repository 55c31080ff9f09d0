import LengthDisasm.Bits.FlagWord
import LengthDisasm.Proofs.Literals

/-!
# Bit fields of words

Reading a field moves it to the top of the word and down to bit zero, and writing one replaces the
bits under a mask. For a field inside the word all counts are in range, and both can be told bit by
bit: what is read are the bits from the position of the field on, and what is written are these bits
and no others. All laws of fields follow from that.

## Main results

* `Bits.extract_eq_ok_iff`, `Bits.deposit_eq_ok_iff` — reading and writing a field, bit by bit
* `Bits.extract_congr` — what is read depends on the bits of the field only
* `Bits.exists_deposit_comm` — fields that do not overlap can be written in either order
* `FlagWord.exists_setField` — a flag word with a field replaced differs from the word under the
  mask of the field
* `bit_fields_exact` — the laws of fields in words of any width and in flag words
-/

namespace LengthDisasm

namespace Bits

variable {w pos len pos' len' : Nat}

/-- A result is a word if it has the bits of the word. -/
theorem ok_eq_ok_iff {x y : BitVec w} {bit : Nat → Bool} (hy : ∀ k, y.getLsbD k = bit k) :
    (.ok y : Except Fault (BitVec w)) = .ok x ↔ ∀ k, x.getLsbD k = bit k := by
  rw [Except.ok.injEq]
  constructor
  · rintro rfl
    exact hy
  · intro hx
    apply BitVec.eq_of_getLsbD_eq
    intro k _
    rw [hy, hx]

/-! ### Reading a field -/

theorem extract_eq (v : BitVec w) (hlen : 1 ≤ len) (hfit : pos + len ≤ w) :
    extract v pos len = .ok ((v <<< (w - pos - len)) >>> (w - len)) := by
  have hup : w - pos - len < w := by omega
  have hdown : w - len < w := by omega
  simp only [extract, shifts_of_le hfit, shiftLeft, shiftRight, hup, hdown, bind, Except.bind,
    if_true]

/-- The field that is read has the bits of the word from `pos` on, as many as it is long. -/
theorem extract_eq_ok_iff {v x : BitVec w} (hlen : 1 ≤ len) (hfit : pos + len ≤ w) :
    extract v pos len = .ok x ↔ ∀ k, x.getLsbD k = (decide (k < len) && v.getLsbD (pos + k)) := by
  rw [extract_eq v hlen hfit]
  apply ok_eq_ok_iff
  intro k
  rw [BitVec.getLsbD_ushiftRight, BitVec.getLsbD_shiftLeft]
  by_cases hk : k < len
  · -- a bit of the field comes down further than it went up, by as much as the field stands above
    -- bit zero
    have hplace : w - len + k - (w - pos - len) = pos + k := by omega
    have hinside : w - len + k < w := by omega
    have habove : ¬ w - len + k < w - pos - len := by omega
    simp [hk, hplace, hinside, habove]
  · have houtside : ¬ w - len + k < w := by omega
    simp [hk, houtside]

/-- What is read depends on the bits of the field only. -/
theorem extract_congr {v v' : BitVec w} (hlen : 1 ≤ len) (hfit : pos + len ≤ w)
    (h : ∀ k, pos ≤ k → k < pos + len → v.getLsbD k = v'.getLsbD k) :
    extract v pos len = extract v' pos len := by
  have hread := extract_eq v' hlen hfit
  rw [hread, extract_eq_ok_iff hlen hfit]
  intro k
  rw [(extract_eq_ok_iff hlen hfit).mp hread k]
  by_cases hk : k < len
  · rw [h (pos + k) (by omega) (by omega)]
  · simp [hk]

/-- The field as a number: the bits below it are divided off, and those above it are left out. -/
theorem toNat_of_extract {v x : BitVec w} (hlen : 1 ≤ len) (hfit : pos + len ≤ w)
    (h : extract v pos len = .ok x) :
    x.toNat = v.toNat / 2 ^ pos % 2 ^ len := by
  apply Nat.eq_of_testBit_eq
  intro k
  rw [Nat.testBit_mod_two_pow, Nat.testBit_div_two_pow, Nat.add_comm k pos]
  exact (extract_eq_ok_iff hlen hfit).mp h k

/-- The signed reading is the field with copies of its top bit above it. -/
theorem extractSigned_of_extract {v x : BitVec w} (hlen : 1 ≤ len) (hfit : pos + len ≤ w)
    (h : extract v pos len = .ok x) :
    extractSigned v pos len = .ok ((x.setWidth len).signExtend w) := by
  obtain ⟨s, hs, hsigned⟩ := exists_extractSigned v hlen hfit
  have hle : len ≤ w := by omega
  rw [hs, Except.ok.injEq]
  apply BitVec.eq_of_toInt_eq
  rw [hsigned, BitVec.toInt_signExtend_of_le hle, BitVec.toInt_eq_toNat_bmod, BitVec.toNat_setWidth,
    toNat_of_extract hlen hfit h, Nat.mod_mod, Int.natCast_emod, Int.emod_bmod]

/-! ### Writing a field -/

/-- The word whose set bits are those of the field. -/
def spanMask (w pos len : Nat) : BitVec w := (BitVec.allOnes w >>> (w - len)) <<< pos

theorem fieldMask_eq (hlen : 1 ≤ len) (hfit : pos + len ≤ w) :
    fieldMask w pos len = .ok (spanMask w pos len) := by
  have hdown : w - len < w := by omega
  have hpos : pos < w := by omega
  simp only [fieldMask, sub_of_le (show len ≤ w by omega), shiftRight, shiftLeft, hdown, hpos, bind,
    Except.bind, if_true, spanMask]

theorem getLsbD_spanMask (hfit : pos + len ≤ w) (k : Nat) :
    (spanMask w pos len).getLsbD k = decide (pos ≤ k ∧ k < pos + len) := by
  rw [spanMask, BitVec.getLsbD_shiftLeft, BitVec.getLsbD_ushiftRight, BitVec.getLsbD_allOnes,
    Bool.eq_iff_iff]
  simp only [Bool.and_eq_true, Bool.not_eq_true', decide_eq_true_eq, decide_eq_false_iff_not]
  omega

theorem deposit_eq (v f : BitVec w) (hlen : 1 ≤ len) (hfit : pos + len ≤ w) :
    deposit v pos len f =
      .ok ((v &&& ~~~spanMask w pos len) ||| (f <<< pos &&& spanMask w pos len)) := by
  have hpos : pos < w := by omega
  simp only [deposit, fieldMask_eq hlen hfit, shiftLeft, hpos, bind, Except.bind, if_true, pure,
    Except.pure]

/-- The word that is written has the low bits of `f` in the field, and elsewhere it is as it was. -/
theorem deposit_eq_ok_iff {v f d : BitVec w} (hlen : 1 ≤ len) (hfit : pos + len ≤ w) :
    deposit v pos len f = .ok d ↔
      ∀ k, d.getLsbD k = if pos ≤ k ∧ k < pos + len then f.getLsbD (k - pos) else v.getLsbD k := by
  rw [deposit_eq v f hlen hfit]
  apply ok_eq_ok_iff
  intro k
  rw [BitVec.getLsbD_or, BitVec.getLsbD_and, BitVec.getLsbD_and, BitVec.getLsbD_not,
    getLsbD_spanMask hfit, BitVec.getLsbD_shiftLeft]
  by_cases hk : pos ≤ k ∧ k < pos + len
  · have hinside : k < w ∧ ¬ k < pos := by omega
    simp [hk, hinside]
  · by_cases hlt : k < w
    · simp [hk, hlt]
    · rw [BitVec.getLsbD_of_ge v k (Nat.le_of_not_lt hlt)]
      simp [hk]

/-! ### Reading what was written -/

section Written

variable {v f d : BitVec w} (hlen : 1 ≤ len) (hfit : pos + len ≤ w)
    (h : deposit v pos len f = .ok d)
include hlen hfit h

theorem getLsbD_of_outside {k : Nat} (hk : k < pos ∨ pos + len ≤ k) :
    d.getLsbD k = v.getLsbD k := by
  rw [(deposit_eq_ok_iff hlen hfit).mp h k, if_neg (by omega)]

/-- The field that was written is read back, as far as it fits. -/
theorem extract_written : extract d pos len = .ok (BitVec.ofNat w (f.toNat % 2 ^ len)) := by
  rw [extract_eq_ok_iff hlen hfit]
  intro k
  rw [(deposit_eq_ok_iff hlen hfit).mp h (pos + k), BitVec.getLsbD_ofNat, Nat.testBit_mod_two_pow]
  by_cases hk : k < len
  · have hinside : pos ≤ pos + k ∧ pos + k < pos + len := by omega
    have hlt : k < w := by omega
    rw [if_pos hinside, Nat.add_sub_cancel_left, decide_eq_true hk, decide_eq_true hlt]
    rfl
  · simp [hk]

/-- A field that does not overlap the one that was written is read as before. -/
theorem extract_of_disjoint (hlen' : 1 ≤ len') (hfit' : pos' + len' ≤ w)
    (hdisjoint : pos + len ≤ pos' ∨ pos' + len' ≤ pos) :
    extract d pos' len' = extract v pos' len' := by
  apply extract_congr hlen' hfit'
  intro k hk hk'
  exact getLsbD_of_outside hlen hfit h (by omega)

/-- Fields that do not overlap can be written in either order. -/
theorem exists_deposit_comm (hlen' : 1 ≤ len') (hfit' : pos' + len' ≤ w)
    (hdisjoint : pos + len ≤ pos' ∨ pos' + len' ≤ pos) (f' : BitVec w) :
    ∃ d' e, deposit v pos' len' f' = .ok d' ∧ deposit d pos' len' f' = .ok e ∧
      deposit d' pos len f = .ok e := by
  have hother := deposit_eq v f' hlen' hfit'
  have hboth := deposit_eq d f' hlen' hfit'
  refine ⟨_, _, hother, hboth, ?_⟩
  rw [deposit_eq_ok_iff hlen hfit]
  intro k
  -- the second write decides the bits of its field, and elsewhere the first one decides
  rw [(deposit_eq_ok_iff hlen' hfit').mp hboth k, (deposit_eq_ok_iff hlen' hfit').mp hother k,
    (deposit_eq_ok_iff hlen hfit).mp h k]
  by_cases hk : pos ≤ k ∧ k < pos + len
  · have hk' : ¬ (pos' ≤ k ∧ k < pos' + len') := by omega
    rw [if_neg hk', if_pos hk, if_pos hk]
  · rw [if_neg hk, if_neg hk]

end Written

/-- Writing back what was read changes nothing. -/
theorem deposit_extracted {v x : BitVec w} (hlen : 1 ≤ len) (hfit : pos + len ≤ w)
    (h : extract v pos len = .ok x) :
    deposit v pos len x = .ok v := by
  rw [deposit_eq_ok_iff hlen hfit]
  intro k
  split
  · rename_i hk
    have hinside : k - pos < len := by omega
    rw [(extract_eq_ok_iff hlen hfit).mp h, decide_eq_true hinside, Bool.true_and,
      Nat.add_sub_cancel' hk.1]
  · rfl

end Bits

/-! ### Fields of flag words -/

theorem BitField.bounds_of_ofBounds {start size : Nat} {g : BitField}
    (h : ofBounds start size = .ok g) :
    g = ⟨start, size⟩ ∧ 1 ≤ size ∧ start + size ≤ 32 := by
  unfold ofBounds at h
  split at h
  · cases h
    exact ⟨rfl, by omega, by omega⟩
  · cases h

namespace FlagWord

/-- Replacing a field changes the bits under its mask, where they differ from those of the value. -/
theorem exists_setField (word : FlagWord) {g : BitField} (hsize : 1 ≤ g.size)
    (hfit : g.start + g.size ≤ 32) (value : BitVec 32) :
    ∃ word', word.setField g value = .ok word' ∧
      word'.field g = .ok (BitVec.ofNat 32 (value.toNat % 2 ^ g.size)) ∧
      word.bits ^^^ word'.bits = (word.bits ^^^ value <<< g.start) &&& g.mask := by
  have hdeposit := Bits.deposit_eq word.bits value hsize hfit
  refine ⟨⟨_⟩, by rw [setField, hdeposit]; rfl, Bits.extract_written hsize hfit hdeposit, ?_⟩
  apply BitVec.eq_of_getLsbD_eq
  intro k hk
  rw [BitVec.getLsbD_xor, (Bits.deposit_eq_ok_iff hsize hfit).mp hdeposit k, BitVec.getLsbD_and,
    BitVec.getLsbD_xor, show g.mask = Bits.spanMask 32 g.start g.size from rfl,
    Bits.getLsbD_spanMask hfit, BitVec.getLsbD_shiftLeft]
  by_cases hinside : g.start ≤ k ∧ k < g.start + g.size
  · have hstart : ¬ k < g.start := by omega
    simp [hinside, hk, hstart]
  · simp [hinside]

end FlagWord

/-- The laws of bit fields. A field of at least one bit inside a word of any width is read and
written without a count out of range. What is read is the quotient and the remainder that the field
stands for, and the signed reading extends it. A field that was written is read back as far as it
fits, all bits outside of it stay, so that fields which do not overlap it are read as before and can
be written in either order, and writing back what was read changes nothing. In a flag word the bits
of a field are those of its mask, and replacing the field changes just those of them that differ
from the value. -/
theorem bit_fields_exact {w : Nat} (v f : BitVec w) (pos len start size : Nat) (word : FlagWord)
    (value : BitVec 32) :
    (1 ≤ len → pos + len ≤ w → ∃ x d,
      Bits.extract v pos len = .ok x ∧ x.toNat = v.toNat / 2 ^ pos % 2 ^ len ∧
      Bits.extractSigned v pos len = .ok ((x.setWidth len).signExtend w) ∧
      Bits.deposit v pos len f = .ok d ∧
      Bits.extract d pos len = .ok (BitVec.ofNat w (f.toNat % 2 ^ len)) ∧
      (∀ k, k < pos ∨ pos + len ≤ k → d.getLsbD k = v.getLsbD k) ∧
      (∀ pos' len', 1 ≤ len' → pos' + len' ≤ w → pos + len ≤ pos' ∨ pos' + len' ≤ pos →
        Bits.extract d pos' len' = Bits.extract v pos' len' ∧
        ∀ f', ∃ d' e, Bits.deposit v pos' len' f' = .ok d' ∧ Bits.deposit d pos' len' f' = .ok e ∧
          Bits.deposit d' pos len f = .ok e) ∧
      Bits.deposit v pos len x = .ok v) ∧
    ∀ g, BitField.ofBounds start size = .ok g →
      Bits.fieldMask 32 start size = .ok g.mask ∧
      (∀ k, g.mask.getLsbD k = decide (start ≤ k ∧ k < start + size)) ∧
      ∃ word', word.setField g value = .ok word' ∧
        word'.field g = .ok (BitVec.ofNat 32 (value.toNat % 2 ^ size)) ∧
        word.bits ^^^ word'.bits = (word.bits ^^^ value <<< start) &&& g.mask := by
  refine ⟨fun hlen hfit => ?_, fun g hg => ?_⟩
  · have hread := Bits.extract_eq v hlen hfit
    have hwrite := Bits.deposit_eq v f hlen hfit
    refine ⟨_, _, hread, Bits.toNat_of_extract hlen hfit hread,
      Bits.extractSigned_of_extract hlen hfit hread, hwrite, Bits.extract_written hlen hfit hwrite,
      fun k hk => Bits.getLsbD_of_outside hlen hfit hwrite hk,
      fun pos' len' hlen' hfit' hdisjoint => ⟨?_, ?_⟩, Bits.deposit_extracted hlen hfit hread⟩
    · exact Bits.extract_of_disjoint hlen hfit hwrite hlen' hfit' hdisjoint
    · exact Bits.exists_deposit_comm hlen hfit hwrite hlen' hfit' hdisjoint
  · obtain ⟨rfl, hsize, hfit⟩ := BitField.bounds_of_ofBounds hg
    exact ⟨Bits.fieldMask_eq hsize hfit, Bits.getLsbD_spanMask hfit,
      word.exists_setField hsize hfit value⟩

/-- The upper half of a byte, whose top bit is set, next to the lower half; and four bits of a flag
word. -/
theorem bit_fields_exact_nibbles :
    Bits.extract (0xa5 : BitVec 8) 4 4 = .ok 0x0a ∧
      Bits.extractSigned (0xa5 : BitVec 8) 4 4 = .ok 0xfa ∧
      Bits.deposit (0xa5 : BitVec 8) 4 4 0x1c = .ok 0xc5 ∧
      Bits.extract (0xc5 : BitVec 8) 4 4 = .ok 0x0c ∧
      Bits.extract (0xc5 : BitVec 8) 0 4 = .ok 0x05 ∧
      Bits.deposit (0xa5 : BitVec 8) 4 4 0x0a = .ok 0xa5 ∧
      ∃ g word', BitField.ofBounds 4 4 = .ok g ∧ g.mask = 0xf0 ∧
        (FlagWord.mk 1).setField g 0xfa = .ok word' ∧
        word'.bits = 0xa1 ∧ word'.field g = .ok 0x0a := by
  obtain ⟨hfields, hflags⟩ := bit_fields_exact (0xa5 : BitVec 8) 0x1c 4 4 4 4 ⟨1⟩ 0xfa
  obtain ⟨x, d, hread, -, hsigned, hwrite, hback, -, hother, hsame⟩ :=
    hfields (by decide) (by decide)
  obtain ⟨-, -, word', hset, hfield, -⟩ := hflags ⟨4, 4⟩ rfl
  obtain rfl : 0x0a = x := Except.ok.inj hread
  obtain rfl : 0xc5 = d := Except.ok.inj hwrite
  obtain rfl : ⟨0xa1⟩ = word' := Except.ok.inj hset
  exact ⟨hread, hsigned, hwrite, hback, (hother 0 4 (by decide) (by decide) (by decide)).1, hsame,
    ⟨4, 4⟩, _, rfl, rfl, hset, rfl, hfield⟩

end LengthDisasm
