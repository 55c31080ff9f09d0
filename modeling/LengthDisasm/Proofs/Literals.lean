import Mathlib.Data.Int.ModEq
import Mathlib.Tactic.Ring
import LengthDisasm.Proofs.Parse

/-!
# Literals and their words

A literal is cut out of a word with a mask, and it is read as a signed number by moving it to the
top of a word and back down. Both say what the width says: the value is the remainder of the word,
and the signed reading is the one number in the range of the width with this remainder. Reading a
literal over the one that is held writes to the cursor and to the literal, but a read that fails
fails before it writes.

## Main results

* `Bits.exists_extractSigned` — two shifts give the field of a word as a signed number
* `Literal.ofValue_eq`, `Literal.signedInWord_eq`, `Literal.eq_signed_iff` — the value and the
  signed reading of a literal
* `Literal.reload_eq` — a read that fails leaves the literal that is held and the cursor as they
  were
* `literals_fit_and_load` — all of it, for every word, width, literal and cursor
-/

namespace LengthDisasm

/-! ### Signed bit fields -/

namespace Bits

variable {w pos len : Nat}

theorem sub_of_le {a b : Nat} (h : b ≤ a) : sub a b = .ok (a - b) := if_pos h

theorem shifts_of_le (h : pos + len ≤ w) : shifts w pos len = .ok (w - pos - len, w - len) := by
  simp only [shifts, sub_of_le (show pos ≤ w by omega), sub_of_le (show len ≤ w - pos by omega),
    sub_of_le (show len ≤ w by omega), bind, Except.bind, pure, Except.pure]

/-- Dividing a balanced remainder gives the balanced remainder of the quotient. -/
theorem bmod_ediv (x : Int) {half divisor : Nat} (hhalf : 0 < half) (hdivisor : 0 < divisor) :
    x.bmod (2 * half * divisor) / divisor = (x / divisor).bmod (2 * half) := by
  have hpos : (0 : Int) < divisor := Int.natCast_pos.mpr hdivisor
  have hmodulus : 0 < 2 * half * divisor := Nat.mul_pos (by omega) hdivisor
  have hcast : ((2 * half * divisor : Nat) : Int) = 2 * (half * divisor) := by
    push_cast
    ring
  obtain ⟨hlow, hhigh, k, hk⟩ :=
    (Int.bmod_eq_iff hmodulus).mp (rfl : x.bmod (2 * half * divisor) = _)
  rw [hcast] at hlow hhigh hk
  symm
  rw [Int.bmod_eq_iff (by omega)]
  refine ⟨?_, ?_, k, ?_⟩
  · -- both bounds are multiples of the divisor
    rw [Int.le_ediv_iff_mul_le hpos]
    have hhalves : -(((2 * half : Nat) : Int) / 2) = -half := by omega
    rw [hhalves, Int.neg_mul]
    omega
  · rw [Int.ediv_lt_iff_lt_mul hpos]
    have hhalves : (((2 * half : Nat) : Int) + 1) / 2 = half := by omega
    rw [hhalves]
    omega
  · have hsum : x.bmod (2 * half * divisor) = x + divisor * (2 * half * k) := by
      rw [eq_add_of_sub_eq' hk]
      ring
    rw [hsum, Int.add_mul_ediv_left _ _ (ne_of_gt hpos), add_sub_cancel_left]
    push_cast
    rfl

/-- Two shifts give the field of a word as a signed number. -/
theorem exists_extractSigned (v : BitVec w) (hlen : 0 < len) (hfit : pos + len ≤ w) :
    ∃ x, extractSigned v pos len = .ok x ∧
      x.toInt = ((v.toNat / 2 ^ pos : Nat) : Int).bmod (2 ^ len) := by
  have hup : w - pos - len < w := by omega
  have hdown : w - len < w := by omega
  refine ⟨(v <<< (w - pos - len)).sshiftRight (w - len), ?_, ?_⟩
  · simp only [extractSigned, shifts_of_le hfit, shiftLeft, shiftRightSigned, hup, hdown, bind,
      Except.bind, if_true]
  · -- the shift down divides by what the shift up and the bits below the field make
    have hdivisor : 2 ^ (w - len) = 2 ^ pos * 2 ^ (w - pos - len) := by
      rw [← Nat.pow_add]
      congr 1
      omega
    have hmodulus : 2 ^ w = 2 * 2 ^ (len - 1) * 2 ^ (w - len) := by
      rw [← Nat.pow_succ', ← Nat.pow_add]
      congr 1
      omega
    have hfield : 2 ^ len = 2 * 2 ^ (len - 1) := by
      rw [← Nat.pow_succ']
      congr 1
      omega
    have hquotient : ((v.toNat * 2 ^ (w - pos - len) : Nat) : Int) / (2 ^ (w - len) : Nat) =
        (v.toNat / 2 ^ pos : Nat) := by
      rw [← Int.natCast_ediv, hdivisor, Nat.mul_div_mul_right _ _ (Nat.two_pow_pos _)]
    rw [BitVec.toInt_sshiftRight, BitVec.toInt_shiftLeft, Nat.shiftLeft_eq,
      Int.shiftRight_eq_div_pow, hmodulus, bmod_ediv _ (Nat.two_pow_pos _) (Nat.two_pow_pos _),
      hquotient, hfield]

end Bits

namespace Literal

/-! ### Values -/

section Values

variable {width : Nat}

theorem toNat_mask (h : width < 64) : ((1 : BitVec 64) <<< width - 1).toNat = 2 ^ width - 1 := by
  have hlt : 2 ^ width < 2 ^ 64 := Nat.pow_lt_pow_right (by decide) h
  have hpos : 0 < 2 ^ width := Nat.two_pow_pos width
  have hbit : ((1 : BitVec 64) <<< width).toNat = 2 ^ width := by
    rw [BitVec.toNat_shiftLeft, show (1 : BitVec 64).toNat = 1 from rfl, Nat.shiftLeft_eq,
      Nat.one_mul, Nat.mod_eq_of_lt hlt]
  rw [BitVec.toNat_sub_of_le (by rw [BitVec.le_def, hbit]; exact hpos), hbit]
  rfl

/-- The mask leaves the remainder. -/
theorem exists_lowBits (value : BitVec 64) (h : width ≤ 64) :
    ∃ low, lowBits value width = .ok low ∧ low.toNat = value.toNat % 2 ^ width := by
  unfold lowBits
  split
  · obtain rfl : width = 64 := by omega
    exact ⟨value, rfl, (Nat.mod_eq_of_lt value.isLt).symm⟩
  · rename_i hlt
    refine ⟨value &&& ((1 : BitVec 64) <<< width - 1), ?_, ?_⟩
    · simp only [Bits.shiftLeft, show width < 64 by omega, if_true, bind, Except.bind, pure,
        Except.pure]
    · rw [BitVec.toNat_and, toNat_mask (by omega), Nat.and_two_pow_sub_one_eq_mod]

theorem ofValue_eq (value : BitVec 64) (hpos : 1 ≤ width) (h : width ≤ 64) :
    ofValue value width = .ok (some ⟨value.toNat % 2 ^ width, width⟩) := by
  obtain ⟨low, hlow, hvalue⟩ := exists_lowBits value h
  simp only [ofValue, show width ≠ 0 by omega, if_false, hlow, bind, Except.bind, pure, Except.pure,
    hvalue]

theorem signed_eq (l : Literal) : l.signed = Int.bmod l.value (2 ^ l.width) := by
  rw [signed, BitVec.toInt_ofNat']

/-- The shifts give the two's complement reading. -/
theorem signedInWord_eq {l : Literal} (hpos : 1 ≤ l.width) (h : l.width ≤ 64)
    (hvalue : l.value < 2 ^ 64) :
    l.signedInWord = .ok l.signed := by
  have hword : (BitVec.ofNat 64 l.value).toNat = l.value := by
    rw [BitVec.toNat_ofNat, Nat.mod_eq_of_lt hvalue]
  simp only [signedInWord, signed_eq]
  split
  · rename_i hwidth
    rw [BitVec.toInt_eq_toNat_bmod, hword, hwidth]
  · have hfit : 0 + l.width ≤ 64 := by omega
    obtain ⟨x, hx, hsigned⟩ := Bits.exists_extractSigned (BitVec.ofNat 64 l.value) hpos hfit
    rw [Nat.pow_zero, Nat.div_one, hword] at hsigned
    simp only [hx, hsigned, bind, Except.bind, pure, Except.pure]

/-- The two's complement reading is the one number in the range of the width with the remainder of
the value. -/
theorem eq_signed_iff {l : Literal} {n : Nat} (hpos : 1 ≤ l.width)
    (hvalue : l.value = n % 2 ^ l.width) (m : Int) :
    m = l.signed ↔ -2 ^ (l.width - 1) ≤ m ∧ m < 2 ^ (l.width - 1) ∧ m ≡ n [ZMOD 2 ^ l.width] := by
  have hhalf : ((2 ^ l.width : Nat) : Int) = 2 * 2 ^ (l.width - 1) := by
    rw [← pow_succ', Nat.sub_add_cancel hpos]
    push_cast
    rfl
  have hremainder : l.signed = (n : Int).bmod (2 ^ l.width) := by
    rw [signed_eq, hvalue, Int.natCast_emod, Int.emod_bmod]
  rw [hremainder, eq_comm, Int.bmod_eq_iff (Nat.two_pow_pos _), Int.modEq_comm, Int.modEq_iff_dvd]
  have hlow : -(((2 ^ l.width : Nat) : Int) / 2) = -2 ^ (l.width - 1) := by omega
  have hhigh : (((2 ^ l.width : Nat) : Int) + 1) / 2 = 2 ^ (l.width - 1) := by omega
  rw [hlow, hhigh]
  push_cast
  rfl

end Values

/-! ### Reading over a literal that is held -/

namespace Load

variable {α β : Type} (s s' : Loader)

theorem outcome_pure (a : α) : Load.outcome (pure a) s = (.ok a, s) := rfl

theorem outcome_get : Load.outcome get s = (.ok s, s) := rfl

theorem outcome_set : Load.outcome (set s') s = (.ok (), s') := rfl

theorem outcome_modify (f : Loader → Loader) : Load.outcome (modify f) s = (.ok (), f s) := rfl

theorem outcome_throw (e : DecodeError) : Load.outcome (throw e : Load α) s = (.error e, s) := rfl

/-- What was written before a step that fails stays. -/
theorem outcome_bind (steps : Load α) (next : α → Load β) :
    Load.outcome (steps >>= next) s = match Load.outcome steps s with
      | (.ok a, s') => Load.outcome (next a) s'
      | (.error e, s') => (.error e, s') := by
  simp only [Load.outcome, ExceptT.run_bind, StateT.run_bind, Id.run_bind]
  generalize Id.run ((ExceptT.run steps).run s) = outcome
  obtain ⟨result, s'⟩ := outcome
  cases result <;> rfl

end Load

section Loads

variable (s : Loader)

/-- Bytes are read as at a cursor alone, and a read that fails has not moved the cursor. -/
theorem outcome_takeBytes (count : Nat) :
    Load.outcome (takeBytes count) s = match s.cursor.read count with
      | .ok (bytes, c) => (.ok bytes, { s with cursor := c })
      | .error e => (.error e, s) := by
  unfold takeBytes
  rw [Load.outcome_bind, Load.outcome_get]
  dsimp only
  by_cases h : count ≤ s.cursor.remaining
  · rw [if_neg (Nat.not_lt.mpr h), Load.outcome_bind, Load.outcome_set, Cursor.read, if_pos h]
    exact Load.outcome_pure _ _
  · rw [if_pos (Nat.not_le.mp h), Load.outcome_bind, Load.outcome_throw, Cursor.read, if_neg h]

theorem outcome_takeNumber (count : Nat) :
    Load.outcome (takeNumber count) s = match s.cursor.readNumber count with
      | .ok (value, c) => (.ok value, { s with cursor := c })
      | .error e => (.error e, s) := by
  unfold takeNumber Cursor.readNumber
  rw [Load.outcome_bind, outcome_takeBytes]
  cases s.cursor.read count with
  | ok r => rfl
  | error e => rfl

theorem takeValue_of_mem {width : Nat} (h : width ∈ [8, 16, 32, 64]) :
    takeValue width = takeNumber (width / 8) := by
  simp only [List.mem_cons, List.not_mem_nil, or_false] at h
  rcases h with rfl | rfl | rfl | rfl <;> rfl

theorem takeValue_of_not_mem {width : Nat} (h : width ∉ [8, 16, 32, 64]) :
    takeValue width = throw .badOperand := by
  simp only [List.mem_cons, List.not_mem_nil, or_false, not_or] at h
  obtain ⟨h8, h16, h32, h64⟩ := h
  unfold takeValue
  split
  · exact absurd rfl h8
  · exact absurd rfl h16
  · exact absurd rfl h32
  · exact absurd rfl h64
  · rfl

/-- The literal is written after all that can fail. -/
theorem outcome_load_of_mem {width : Nat} (h : width ∈ [8, 16, 32, 64]) :
    Load.outcome (load width) s = match s.cursor.readNumber (width / 8) with
      | .ok (value, c) => (.ok (), ⟨some ⟨value, width⟩, c⟩)
      | .error e => (.error e, s) := by
  unfold load
  rw [Load.outcome_bind, takeValue_of_mem h, outcome_takeNumber]
  cases s.cursor.readNumber (width / 8) with
  | ok r => exact Load.outcome_modify _ _
  | error e => rfl

theorem outcome_load_of_not_mem {width : Nat} (h : width ∉ [8, 16, 32, 64]) :
    Load.outcome (load width) s = (.error .badOperand, s) := by
  unfold load
  rw [Load.outcome_bind, takeValue_of_not_mem h, Load.outcome_throw]

end Loads

section Reloads

variable {width : Nat} {c : Cursor}

theorem read_of_mem (h : width ∈ [8, 16, 32, 64]) (c : Cursor) :
    read width c = (c.readNumber (width / 8)).map fun r => (⟨r.1, width⟩, r.2) := by
  simp only [List.mem_cons, List.not_mem_nil, or_false] at h
  rw [read, if_pos h]
  cases c.readNumber (width / 8) <;> rfl

/-- A read over the literal that is held is a read at the cursor. If it fails, the literal and the
cursor are as they were. -/
theorem reload_eq (width : Nat) (held : Option Literal) (c : Cursor) :
    reload width held c = match read width c with
      | .ok (l, c') => (.ok (), some l, c')
      | .error e => (.error e, held, c) := by
  by_cases h : width ∈ [8, 16, 32, 64]
  · rw [reload, outcome_load_of_mem _ h, read_of_mem h]
    cases c.readNumber (width / 8) with
    | ok r => rfl
    | error e => rfl
  · rw [reload, outcome_load_of_not_mem _ h, read, if_neg (by simpa using h)]

theorem read_of_remaining_lt (h : width ∈ [8, 16, 32, 64]) (hshort : c.remaining < width / 8) :
    read width c = .error .insufficientLength := by
  rw [read_of_mem h, Cursor.readNumber, Cursor.read, if_neg (Nat.not_le.mpr hshort)]
  rfl

theorem read_of_not_mem (h : width ∉ [8, 16, 32, 64]) (c : Cursor) :
    read width c = .error .badOperand :=
  if_neg (by simpa using h)

/-- The literal that is read is the little-endian number of the bytes that the cursor moves over. -/
theorem exists_read (h : width ∈ [8, 16, 32, 64]) (hroom : width / 8 ≤ c.remaining) :
    ∃ taken c', c.Takes taken c' ∧ taken.length = width / 8 ∧
      read width c = .ok (⟨Byte.littleEndian taken, width⟩, c') := by
  refine ⟨c.rest.take (width / 8), ⟨c.consumed ++ c.rest.take (width / 8), c.rest.drop (width / 8)⟩,
    ⟨rfl, (List.take_append_drop _ _).symm⟩, List.length_take_of_le hroom, ?_⟩
  rw [read_of_mem h, Cursor.readNumber, Cursor.read, if_pos hroom]
  rfl

/-- As many bytes as the width has room for spell a number that the width does not cut. -/
theorem ofValue_littleEndian (h : width ∈ [8, 16, 32, 64]) {taken : List Byte}
    (hlength : taken.length = width / 8) :
    ofValue (BitVec.ofNat 64 (Byte.littleEndian taken)) width =
      .ok (some ⟨Byte.littleEndian taken, width⟩) := by
  have hbits : 1 ≤ width ∧ width ≤ 64 ∧ 8 * (width / 8) = width := by
    simp only [List.mem_cons, List.not_mem_nil, or_false] at h
    omega
  have hlt : Byte.littleEndian taken < 2 ^ width := by
    have hspelled := Byte.littleEndian_lt taken
    rwa [hlength, show 256 = 2 ^ 8 from rfl, ← Nat.pow_mul, hbits.2.2] at hspelled
  have hword : Byte.littleEndian taken < 2 ^ 64 :=
    Nat.lt_of_lt_of_le hlt (Nat.pow_le_pow_right (by decide) hbits.2.1)
  rw [ofValue_eq _ hbits.1 hbits.2.1, BitVec.toNat_ofNat, Nat.mod_eq_of_lt hword,
    Nat.mod_eq_of_lt hlt]

end Reloads

end Literal

/-- A literal of one to 64 bits has the remainder of its word as its value, and its signed reading,
by shifts or not, is the one number in the range of its width that is congruent to the word. A
literal of 8, 16, 32 or 64 bits is read over any other one from as many bytes as it has, if they are
there, and is their little-endian number. Any other read fails, and then the literal and the cursor
are as they were: bytes are missing if the width is one of the four, and otherwise there is no such
operand. -/
theorem literals_fit_and_load (value : BitVec 64) (width : Nat) (held : Option Literal)
    (c : Cursor) :
    (1 ≤ width → width ≤ 64 → ∃ l, Literal.ofValue value width = .ok (some l) ∧ l.width = width ∧
      l.value = value.toNat % 2 ^ width ∧ l.signedInWord = .ok l.signed ∧
      ∀ m : Int, m = l.signed ↔
        -2 ^ (width - 1) ≤ m ∧ m < 2 ^ (width - 1) ∧ m ≡ value.toNat [ZMOD 2 ^ width]) ∧
    (width ∈ [8, 16, 32, 64] → width / 8 ≤ c.remaining → ∃ taken l c', c.Takes taken c' ∧
      taken.length = width / 8 ∧
      l = ⟨Byte.littleEndian taken, width⟩ ∧ Literal.read width c = .ok (l, c') ∧
      Literal.reload width held c = (.ok (), some l, c') ∧
      Literal.ofValue (BitVec.ofNat 64 (Byte.littleEndian taken)) width = .ok (some l)) ∧
    (width ∈ [8, 16, 32, 64] → c.remaining < width / 8 →
      Literal.reload width held c = (.error .insufficientLength, held, c)) ∧
    (width ∉ [8, 16, 32, 64] → Literal.reload width held c = (.error .badOperand, held, c)) := by
  refine ⟨fun hpos hle => ?_, fun hmem hroom => ?_, fun hmem hshort => ?_, fun hnot => ?_⟩
  · have hvalue : value.toNat % 2 ^ width < 2 ^ 64 := Nat.lt_of_le_of_lt (Nat.mod_le _ _) value.isLt
    exact ⟨_, Literal.ofValue_eq value hpos hle, rfl, rfl, Literal.signedInWord_eq hpos hle hvalue,
      Literal.eq_signed_iff hpos rfl⟩
  · obtain ⟨taken, c', htakes, hlength, hread⟩ := Literal.exists_read hmem hroom
    refine ⟨taken, _, c', htakes, hlength, rfl, hread, ?_,
      Literal.ofValue_littleEndian hmem hlength⟩
    rw [Literal.reload_eq, hread]
  · rw [Literal.reload_eq, Literal.read_of_remaining_lt hmem hshort]
  · rw [Literal.reload_eq, Literal.read_of_not_mem hnot]

/-- Twelve bits with the top one set, and reads of 16 and of 32 bits where three bytes are left. -/
theorem literals_fit_and_load_twelve :
    (∃ l, Literal.ofValue 0x1f80 12 = .ok (some l) ∧ l.value = 0xf80 ∧
      l.signedInWord = .ok (-128)) ∧
      (∃ c', Literal.reload 16 (some ⟨0x7f, 8⟩) ⟨[0x90], [1, 2, 3]⟩ =
        (.ok (), some ⟨0x201, 16⟩, c') ∧ c'.offset = 3) ∧
      Literal.reload 32 (some ⟨0x7f, 8⟩) ⟨[0x90], [1, 2, 3]⟩ =
        (.error .insufficientLength, some ⟨0x7f, 8⟩, ⟨[0x90], [1, 2, 3]⟩) ∧
      Literal.reload 24 (some ⟨0x7f, 8⟩) ⟨[0x90], [1, 2, 3]⟩ =
        (.error .badOperand, some ⟨0x7f, 8⟩, ⟨[0x90], [1, 2, 3]⟩) := by
  refine ⟨?_, ?_, ?_, ?_⟩
  · obtain ⟨l, hl, -, hvalue, hsigned, hrange⟩ :=
      (literals_fit_and_load 0x1f80 12 none ⟨[], []⟩).1 (by decide) (by decide)
    refine ⟨l, hl, hvalue, ?_⟩
    rw [hsigned, ← (hrange (-128)).mpr ⟨by decide, by decide, by decide⟩]
  · obtain ⟨taken, l, c', htakes, hlength, hl, -, hreload, -⟩ :=
      (literals_fit_and_load 0 16 (some ⟨0x7f, 8⟩) ⟨[0x90], [1, 2, 3]⟩).2.1 (by decide) (by decide)
    have hrest : taken ++ c'.rest = [1, 2] ++ [3] := htakes.2.symm
    obtain ⟨rfl, -⟩ := List.append_inj hrest hlength
    refine ⟨c', ?_, ?_⟩
    · rw [hreload, hl]
      rfl
    · rw [Cursor.offset, htakes.1]
      rfl
  · exact (literals_fit_and_load 0 32 (some ⟨0x7f, 8⟩) ⟨[0x90], [1, 2, 3]⟩).2.2.1
      (by decide) (by decide)
  · exact (literals_fit_and_load 0 24 (some ⟨0x7f, 8⟩) ⟨[0x90], [1, 2, 3]⟩).2.2.2 (by decide)

end LengthDisasm
