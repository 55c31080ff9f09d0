/-!
# Numbers as text

Numbers are written in lower-case hexadecimal or in decimal, and are padded on the left.

## Main definitions

* `Text.hex`, `Text.hexMarked` — hexadecimal digits, without and with a leading `0x`
* `Text.hexByte` — the two digits of a byte
* `Text.padLeft` — fill a text on the left up to a width
-/

namespace LengthDisasm.Text

/-- The lower-case hexadecimal digits of a number. -/
def hex (n : Nat) : String := String.ofList (Nat.toDigits 16 n)

/-- The hexadecimal digits of a number after `0x`. -/
def hexMarked (n : Nat) : String := "0x" ++ hex n

/-- The text, filled with `fill` on the left until it has `width` characters. -/
def padLeft (width : Nat) (fill : Char) (text : String) : String :=
  String.ofList (List.replicate (width - text.length) fill) ++ text

/-- The two hexadecimal digits of a byte. -/
def hexByte (b : BitVec 8) : String :=
  String.ofList [Nat.digitChar (b.toNat / 16), Nat.digitChar (b.toNat % 16)]

/-- The number of spaces given. -/
def spaces (n : Nat) : String := String.ofList (List.replicate n ' ')

end LengthDisasm.Text
