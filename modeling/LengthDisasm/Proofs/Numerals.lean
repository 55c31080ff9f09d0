import Mathlib.Data.Nat.Digits.Defs
import LengthDisasm.Golden.Case
import LengthDisasm.Proofs.Divergence

/-!
# Numerals that are read back

Numbers are written in hexadecimal digits, small or capital, and perhaps with zeros in front. All
these numerals are read as the number that they were written for. Every text of hexadecimal digits
is read as some number, and its length bounds the number.

## Main definitions

* `Text.numeral` — the digits of a number, perhaps capital and with zeros in front
* `Text.bytePair` — the two digits of a byte, perhaps capital

## Main results

* `Text.ofDigits?_numeral`, `Case.pairs?_bytePair` — numerals and bytes are read back
* `Text.exists_ofDigits?`, `Case.exists_pairs?` — all texts of digits are read
-/

namespace LengthDisasm

namespace Text

/-! ### Digits -/

theorem range_of_isHexDigit {c : Char} (h : isHexDigit c = true) :
    (48 ≤ c.toNat ∧ c.toNat ≤ 57) ∨ (97 ≤ c.toNat ∧ c.toNat ≤ 102) ∨
    (65 ≤ c.toNat ∧ c.toNat ≤ 70) := by
  simp only [isHexDigit, digitValue?, Char.le_def, UInt32.le_iff_toNat_le] at h
  split_ifs at h with hdecimal hsmall hcapital
  · exact .inl hdecimal
  · exact .inr (.inl hsmall)
  · exact .inr (.inr hcapital)
  · cases h

theorem isBlank_of_isHexDigit {c : Char} (h : isHexDigit c = true) : isBlank c = false := by
  have hrange := range_of_isHexDigit h
  simp only [isBlank, blankRanges, List.any_cons, List.any_nil, Bool.or_false, Bool.or_eq_false_iff,
    decide_eq_false_iff_not]
  omega

theorem lt_of_digitValue? {radix d : Nat} {c : Char} (h : digitValue? radix c = some d) :
    d < radix := by
  simp only [digitValue?, Option.filter_eq_some_iff] at h
  simpa using h.2

/-- The character, as a capital letter if so asked for. -/
def inHand (capital : Bool) (c : Char) : Char := if capital then c.toUpper else c

theorem digitValue?_digitChar {d : Nat} (hd : d < 16) (capital : Bool) :
    digitValue? 16 (inHand capital (Nat.digitChar d)) = some d := by
  have hall : ∀ (d : Fin 16) (capital : Bool),
      digitValue? 16 (inHand capital (Nat.digitChar d)) = some d.val := by decide
  exact hall ⟨d, hd⟩ capital

theorem isHexDigit_digitChar {d : Nat} (hd : d < 16) (capital : Bool) :
    isHexDigit (inHand capital (Nat.digitChar d)) = true := by
  rw [isHexDigit, digitValue?_digitChar hd capital, Option.isSome_some]

/-! ### Texts of digits -/

theorem ofDigitsFrom?_cons {radix d : Nat} {c : Char} (h : digitValue? radix c = some d)
    (value : Nat) (text : List Char) :
    ofDigitsFrom? radix value (c :: text) = ofDigitsFrom? radix (radix * value + d) text := by
  rw [ofDigitsFrom?, h]
  rfl

theorem ofDigitsFrom?_append (radix value : Nat) (text more : List Char) :
    ofDigitsFrom? radix value (text ++ more) =
      (ofDigitsFrom? radix value text).bind fun n => ofDigitsFrom? radix n more := by
  induction text generalizing value with
  | nil => rfl
  | cons c text ih =>
    simp only [List.cons_append, ofDigitsFrom?]
    cases digitValue? radix c with
    | none => rfl
    | some d => exact ih _

/-- A text of digits is read as a number that its length bounds. -/
theorem exists_ofDigitsFrom? {text : List Char} (h : ∀ c ∈ text, isHexDigit c = true)
    (value : Nat) :
    ∃ n < (value + 1) * 16 ^ text.length, ofDigitsFrom? 16 value text = some n := by
  induction text generalizing value with
  | nil => exact ⟨value, by simp, rfl⟩
  | cons c text ih =>
    obtain ⟨d, hd⟩ := Option.isSome_iff_exists.mp (h c List.mem_cons_self)
    have hlt := lt_of_digitValue? hd
    obtain ⟨n, hn, hread⟩ := ih (fun x hx => h x (List.mem_cons_of_mem c hx)) (16 * value + d)
    -- a digit below 16 leaves room for the digits behind it
    refine ⟨n, ?_, by rwa [ofDigitsFrom?_cons hd]⟩
    calc
      n < (16 * value + d + 1) * 16 ^ text.length := hn
      _ ≤ (16 * (value + 1)) * 16 ^ text.length := Nat.mul_le_mul_right _ (by omega)
      _ = (value + 1) * 16 ^ (c :: text).length := by
        rw [List.length_cons, Nat.pow_succ, Nat.mul_comm 16, Nat.mul_assoc, Nat.mul_comm 16]

theorem exists_ofDigits? {text : List Char} {bound : Nat} (hne : text ≠ [])
    (h : ∀ c ∈ text, isHexDigit c = true) (hbound : 16 ^ text.length ≤ bound) :
    ∃ n, ofDigits? 16 bound text = some n := by
  obtain ⟨n, hn, hread⟩ := exists_ofDigitsFrom? h 0
  have hlt : n < bound := by omega
  exact ⟨n, by simp [ofDigits?, hne, hread, hlt]⟩

/-! ### Numerals -/

/-- The hexadecimal digits of a number, with zeros in front up to a width. -/
def numeral (capital : Bool) (width n : Nat) : List Char :=
  (padLeft width '0' (hex n)).toList.map (inHand capital)

/-- The two hexadecimal digits of a byte. -/
def bytePair (capital : Bool) (b : Byte) : List Char := (hexByte b).toList.map (inHand capital)

theorem numeral_eq (capital : Bool) (width n : Nat) :
    numeral capital width n = List.replicate (width - (hex n).length) (inHand capital '0') ++
      (Nat.toDigits 16 n).map (inHand capital) := by
  simp [numeral, padLeft, hex]

theorem ofDigitsFrom?_replicate (capital : Bool) (count : Nat) :
    ofDigitsFrom? 16 0 (List.replicate count (inHand capital '0')) = some 0 := by
  have hzero : digitValue? 16 (inHand capital '0') = some 0 :=
    digitValue?_digitChar (d := 0) (by decide) capital
  induction count with
  | zero => rfl
  | succ count ih =>
    rw [List.replicate_succ, ofDigitsFrom?_cons hzero]
    exact ih

theorem ofDigitsFrom?_toDigits (capital : Bool) (n : Nat) :
    ofDigitsFrom? 16 0 ((Nat.toDigits 16 n).map (inHand capital)) = some n := by
  induction n using Nat.strongRecOn with
  | ind n ih =>
    rw [Nat.toDigits_eq_if (by decide)]
    split
    · rename_i hlt
      rw [List.map_singleton, ofDigitsFrom?_cons (digitValue?_digitChar hlt capital), Nat.mul_zero,
        Nat.zero_add]
      rfl
    · -- all digits but the last one spell the quotient
      rw [List.map_append, ofDigitsFrom?_append, ih (n / 16) (by omega), Option.bind_some,
        List.map_singleton, ofDigitsFrom?_cons (digitValue?_digitChar (by omega) capital),
        Nat.div_add_mod]
      rfl

/-- A numeral is read as the number that it was written for. -/
theorem ofDigits?_numeral (capital : Bool) (width : Nat) {n bound : Nat} (hn : n < bound) :
    ofDigits? 16 bound (numeral capital width n) = some n := by
  have hne : numeral capital width n ≠ [] := by
    rw [numeral_eq]
    exact List.append_ne_nil_of_right_ne_nil _ (by simp)
  have hread : ofDigitsFrom? 16 0 (numeral capital width n) = some n := by
    rw [numeral_eq, ofDigitsFrom?_append, ofDigitsFrom?_replicate, Option.bind_some,
      ofDigitsFrom?_toDigits]
  simp [ofDigits?, hne, hread, hn]

theorem isHexDigit_of_mem_numeral {capital : Bool} {width n : Nat} {c : Char}
    (h : c ∈ numeral capital width n) : isHexDigit c = true := by
  rw [numeral_eq, List.mem_append] at h
  rcases h with hzero | hdigit
  · rw [List.eq_of_mem_replicate hzero]
    exact isHexDigit_digitChar (d := 0) (by decide) capital
  · obtain ⟨c, hc, rfl⟩ := List.mem_map.mp hdigit
    obtain ⟨d, hd, rfl⟩ := exists_digit_of_mem_toDigits hc
    exact isHexDigit_digitChar hd capital

/-- A 64-bit number has between one and sixteen digits. -/
theorem length_numeral (capital : Bool) {width n : Nat} (hwidth : width ≤ 16) (hn : n < 2 ^ 64) :
    1 ≤ (numeral capital width n).length ∧ (numeral capital width n).length ≤ 16 := by
  have hdigits : (Nat.toDigits 16 n).length ≤ 16 :=
    Nat.toDigits_length 16 n 16 (by decide) (by omega)
  have hpos : 0 < (Nat.toDigits 16 n).length := List.length_pos_iff.mpr Nat.toDigits_ne_nil
  rw [numeral_eq, List.length_append, List.length_replicate, List.length_map]
  have hlength : (hex n).length = (Nat.toDigits 16 n).length := by simp [hex]
  omega

theorem bytePair_eq (capital : Bool) (b : Byte) :
    bytePair capital b =
      [inHand capital (Nat.digitChar (b.toNat / 16)),
        inHand capital (Nat.digitChar (b.toNat % 16))] := by
  simp [bytePair, hexByte]

theorem isHexDigit_of_mem_bytePair {capital : Bool} {b : Byte} {c : Char}
    (h : c ∈ bytePair capital b) :
    isHexDigit c = true := by
  have hb := b.isLt
  rw [bytePair_eq] at h
  simp only [List.mem_cons, List.not_mem_nil, or_false] at h
  rcases h with rfl | rfl
  · exact isHexDigit_digitChar (by omega) capital
  · exact isHexDigit_digitChar (by omega) capital

end Text

namespace Case

theorem pairs?_bytePair (capital : Bool) (b : Byte) :
    pairs? (Text.bytePair capital b) = some [b] := by
  have hb := b.isLt
  have hvalue : Text.ofDigits? 16 256 (Text.bytePair capital b) = some b.toNat := by
    rw [Text.bytePair_eq, Text.ofDigits?, if_neg (by simp),
      Text.ofDigitsFrom?_cons (Text.digitValue?_digitChar (by omega) capital),
      Text.ofDigitsFrom?_cons (Text.digitValue?_digitChar (by omega) capital)]
    simp only [Text.ofDigitsFrom?, Option.filter_some, Nat.mul_zero, Nat.zero_add, Nat.div_add_mod,
      hb, decide_true, if_true]
  rw [Text.bytePair_eq] at hvalue ⊢
  simp [pairs?, hvalue]

/-- Pairs of digits are read as bytes. -/
theorem exists_pairs? {digits : List Char} (h : ∀ c ∈ digits, Text.isHexDigit c = true)
    (heven : digits.length % 2 = 0) : ∃ bytes, pairs? digits = some bytes := by
  fun_induction pairs? digits with
  | case1 => exact ⟨[], rfl⟩
  | case2 c => simp at heven
  | case3 hi lo rest ih =>
    have hpair : ∀ c ∈ [hi, lo], Text.isHexDigit c = true :=
      fun c hc => h c (List.mem_append_left rest hc)
    have hread : ∃ value, Text.ofDigits? 16 256 [hi, lo] = some value :=
      Text.exists_ofDigits? (List.cons_ne_nil hi [lo]) hpair (Nat.le_refl 256)
    obtain ⟨value, hvalue⟩ := hread
    rw [List.length_cons, List.length_cons] at heven
    obtain ⟨bytes, hbytes⟩ := ih (fun c hc => h c (List.mem_append_right [hi, lo] hc)) (by omega)
    rw [hvalue, hbytes]
    exact ⟨BitVec.ofNat 8 value :: bytes, rfl⟩

end Case

end LengthDisasm
