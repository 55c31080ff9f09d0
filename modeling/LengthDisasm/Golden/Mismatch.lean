import LengthDisasm.Byte
import LengthDisasm.Text.LineDiff
import LengthDisasm.Text.Number

/-!
# Mismatches

A mismatch shows where an expected text and a result differ, line by line, with trailing blanks made
visible.

## Main definitions

* `Mismatch` — an expected text and a result, with the place and the bytes that they belong to
* `Mismatch.text` — the differences as text
-/

namespace LengthDisasm

/-- An expected text and a result. -/
structure Mismatch where
  /-- The file of the case; the place is not shown if it is empty. -/
  file : String
  line : Nat
  /-- The bytes of the case; not shown if there are none. -/
  bytes : List Byte
  expected : String
  result : String
deriving DecidableEq, Repr

namespace Mismatch

/-- The width of the column before the bars. -/
def columnWidth : Nat := 5

/-- A blank at the end of a line as it is shown. -/
def blankMark : Char → Option Char
  | ' ' => some '•'
  | '\t' => some '→'
  | _ => none

/-- A line with the blanks at its end made visible. -/
def visible (line : List Char) : String :=
  let body := Text.trimEnd line
  String.ofList (body ++ (line.drop body.length).filterMap blankMark)

/-- A line of the difference after its column. -/
def row (column mark text : String) : String :=
  Text.padLeft columnWidth ' ' column ++ " " ++ mark ++ " " ++ text ++ "\n"

/-- A changed or kept line. -/
def change : LineChange → String
  | .kept line => row "" "|" (visible line ++ "↴")
  | .removed line => row "" "-" (visible line ++ "↴")
  | .added line => row "" "+" (visible line ++ "↴")

/-- The differences as text. -/
def text (m : Mismatch) : String :=
  let place := if m.file.isEmpty then "" else
    Text.spaces columnWidth ++ "--> " ++ m.file ++ ":" ++ toString m.line ++ "\n"
  let raw := if m.bytes.isEmpty then "" else
    row "raw" "|" (" ".intercalate (m.bytes.map Text.hexByte))
  let changes := LineDiff.ofTexts m.expected.toList m.result.toList
  place ++ raw ++ String.join (changes.map change)

/-- Two texts must be the same; the error says that they are not. -/
def check (expected result : String) : Except String Unit :=
  if expected = result then .ok () else .error "invalid result"

end Mismatch

end LengthDisasm
