/-!
# Blanks, words and lines

Blank characters are those with the Unicode property `White_Space`. Texts are lists of characters
here.

## Main definitions

* `Text.isBlank` — the character is blank
* `Text.trimStart`, `Text.trimEnd`, `Text.trim` — a text without the blanks around it
* `Text.words` — the runs of characters between blanks
* `Text.lines` — the lines of a text, without their ends
* `Text.splitAt?` — a text before and after the first occurrence of a character
-/

namespace LengthDisasm.Text

/-- The ranges of code points with the property `White_Space`. -/
def blankRanges : List (Nat × Nat) :=
  [ (0x0009, 0x000d), (0x0020, 0x0020), (0x0085, 0x0085), (0x00a0, 0x00a0), (0x1680, 0x1680),
    (0x2000, 0x200a), (0x2028, 0x2029), (0x202f, 0x202f), (0x205f, 0x205f), (0x3000, 0x3000) ]

/-- The character is blank. -/
def isBlank (c : Char) : Bool :=
  blankRanges.any fun range => decide (range.1 ≤ c.toNat ∧ c.toNat ≤ range.2)

/-- The text without blanks at its start. -/
def trimStart (text : List Char) : List Char := text.dropWhile isBlank

/-- The text without blanks at its end. -/
def trimEnd (text : List Char) : List Char := (text.reverse.dropWhile isBlank).reverse

/-- The text without blanks at either end. -/
def trim (text : List Char) : List Char := trimEnd (trimStart text)

/-- The words of a text after the characters of an unfinished word, which is kept in reverse. -/
def wordsFrom (word : List Char) : List Char → List (List Char)
  | [] => if word.isEmpty then [] else [word.reverse]
  | c :: rest =>
    if isBlank c then
      if word.isEmpty then wordsFrom [] rest else word.reverse :: wordsFrom [] rest
    else wordsFrom (c :: word) rest

/-- The words of a text. -/
def words (text : List Char) : List (List Char) := wordsFrom [] text

/-- A line, kept in reverse, without the carriage return before its line feed. -/
def finishLine : List Char → List Char
  | '\r' :: line => line.reverse
  | line => line.reverse

/-- The lines of a text after the characters of an unfinished line, which is kept in reverse. -/
def linesFrom (line : List Char) : List Char → List (List Char)
  | [] => if line.isEmpty then [] else [line.reverse]
  | c :: rest =>
    if c = '\n' then finishLine line :: linesFrom [] rest else linesFrom (c :: line) rest

/-- The lines of a text. A line ends at a line feed, with or without a carriage return before it;
what follows the last line feed is a line if it is not empty. -/
def lines (text : List Char) : List (List Char) := linesFrom [] text

/-- The text before and the text after the first `c`, if there is one. -/
def splitAt? (c : Char) (text : List Char) : Option (List Char × List Char) :=
  match text.dropWhile (· != c) with
  | [] => none
  | _ :: rest => some (text.takeWhile (· != c), rest)

/-- The text with each run of blanks replaced by one space, and none at the ends. -/
def squeeze (text : String) : String :=
  " ".intercalate ((words text.toList).map String.ofList)

end LengthDisasm.Text
