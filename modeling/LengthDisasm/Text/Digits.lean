/-!
# Reading numbers

## Main definitions

* `Text.digitValue?` — the value of a decimal or hexadecimal digit
* `Text.isHexDigit` — the character is a hexadecimal digit
* `Text.ofDigits?` — the number that a text of digits spells
* `Text.unsigned?` — the same with a plus sign allowed in front
-/

namespace LengthDisasm.Text

/-- The value of a digit below `radix`, which is at most 16. -/
def digitValue? (radix : Nat) (c : Char) : Option Nat :=
  let value :=
    if '0' ≤ c ∧ c ≤ '9' then some (c.toNat - '0'.toNat)
    else if 'a' ≤ c ∧ c ≤ 'f' then some (c.toNat - 'a'.toNat + 10)
    else if 'A' ≤ c ∧ c ≤ 'F' then some (c.toNat - 'A'.toNat + 10)
    else none
  value.filter (· < radix)

/-- The character is a hexadecimal digit of either case. -/
def isHexDigit (c : Char) : Bool := (digitValue? 16 c).isSome

/-- The number that starts with `value` and goes on with the digits of a text. -/
def ofDigitsFrom? (radix value : Nat) : List Char → Option Nat
  | [] => some value
  | c :: rest => do ofDigitsFrom? radix (radix * value + (← digitValue? radix c)) rest

/-- The number that a text of digits spells, if it has a digit and stays below `bound`. -/
def ofDigits? (radix bound : Nat) (text : List Char) : Option Nat :=
  if text.isEmpty then none else (ofDigitsFrom? radix 0 text).filter (· < bound)

/-- The number that a text of digits spells, perhaps after a plus sign. -/
def unsigned? (radix bound : Nat) : List Char → Option Nat
  | '+' :: digits => ofDigits? radix bound digits
  | digits => ofDigits? radix bound digits

end LengthDisasm.Text
