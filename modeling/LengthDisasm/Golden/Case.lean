import LengthDisasm.Bits.Field
import LengthDisasm.Byte
import LengthDisasm.Text.Blank
import LengthDisasm.Text.Digits

/-!
# Golden cases

A golden file holds one case on a line: perhaps an address and a colon, the bytes of an instruction
in hexadecimal, two blanks or more, and the text that decoding them must give. A number sign starts
a comment, which can hold flags. Lines without a case are skipped.

## Main definitions

* `Case` — one case
* `CaseError` — why a line is not a case, and where it stands
* `Case.fill` — read what stands on a line
* `CaseReader.next` — read the next case of a file over the one that is held
* `Case.parse` — the cases and errors of a file
* `Case.flags` — the flags in a comment
* `Case.image` — the bytes of all cases at their addresses
* `Case.imageOf`, `Case.heldImageOf` — the image of a file, however long or as far as memory can
  hold it
-/

namespace LengthDisasm

/-- One case of a golden file. -/
structure Case where
  /-- The line that the case stands on, counted from one. -/
  line : Nat
  comment : String
  /-- The address of the bytes, zero if none is given. -/
  address : Nat
  bytes : List Byte
  /-- The text that decoding must give. -/
  expected : String
deriving DecidableEq, Repr

/-- What is wrong with a line. -/
inductive CaseFault where
  /-- The address is not a 64-bit number. -/
  | invalidAddress (text : String)
  /-- A pair of digits is not a byte. -/
  | invalidByte (text : String)
  /-- There are no bytes. -/
  | noBytes
deriving DecidableEq, Repr

namespace CaseFault

/-- The wording of a fault. -/
def message : CaseFault → String
  | invalidAddress text => "invalid address \"" ++ text ++ "\""
  | invalidByte text => "invalid byte \"" ++ text ++ "\""
  | noBytes => "no instruction bytes"

end CaseFault

/-- A fault on a line of a file. -/
structure CaseError where
  file : String
  line : Nat
  fault : CaseFault
deriving DecidableEq, Repr

namespace CaseError

/-- The wording of an error. -/
def message (e : CaseError) : String :=
  "error: " ++ e.fault.message ++ ", " ++ e.file ++ ":" ++ toString e.line

end CaseError

namespace Case

/-- The expected text of a case whose bytes do not decode starts with this. -/
def errorMark : String := "error:"

/-- The bytes of the case must not decode. -/
def expectsError (c : Case) : Bool := errorMark.toList.isPrefixOf c.expected.toList

/-- The address at the start of a line, and the rest of the line. What stands before a colon is an
address if it is one to sixteen hexadecimal digits. -/
def readAddress (text : List Char) : Except CaseFault (Nat × List Char) :=
  match Text.splitAt? ':' text with
  | some (digits, rest) =>
    if !digits.isEmpty && digits.length ≤ 16 && digits.all Text.isHexDigit then
      match Text.ofDigits? 16 UInt64.size digits with
      | some address => .ok (address, Text.trimStart rest)
      | none => .error (.invalidAddress (String.ofList digits))
    else .ok (0, text)
  | none => .ok (0, text)

/-- The bytes that pairs of digits spell. -/
def pairs? : List Char → Option (List Byte)
  | [] => some []
  | [_] => none
  | hi :: lo :: rest => do
    let value ← Text.ofDigits? 16 256 [hi, lo]
    let bytes ← pairs? rest
    return BitVec.ofNat 8 value :: bytes

theorem length_dropWhile_blank_lt {text : List Char}
    (h : 2 ≤ (text.takeWhile Text.isHexDigit).length) :
    (Text.trimStart (text.dropWhile Text.isHexDigit)).length < text.length := by
  have hsplit := congrArg List.length
    (List.takeWhile_append_dropWhile (p := Text.isHexDigit) (l := text))
  have hle := (List.dropWhile_sublist Text.isBlank
    (l := text.dropWhile Text.isHexDigit)).length_le
  simp only [List.length_append, Text.trimStart] at *
  omega

/-- The bytes at the start of a text, and the text after them. Bytes are runs of pairs of digits
with single blanks between them; two blanks end the bytes, and so does a run that is not made of
pairs. -/
def readBytes (text : List Char) : Except CaseFault (List Byte × List Char) :=
  let digits := text.takeWhile Text.isHexDigit
  if _h : digits.length < 2 ∨ digits.length % 2 ≠ 0 then .ok ([], text)
  else
    match pairs? digits with
    | none => .error (.invalidByte (String.ofList digits))
    | some bytes =>
      let rest := text.dropWhile Text.isHexDigit
      if (rest.takeWhile Text.isBlank).length > 1 then .ok (bytes, Text.trimStart rest)
      else do
        let (more, rest) ← readBytes (Text.trimStart rest)
        return (bytes ++ more, rest)
termination_by text.length
decreasing_by
  exact length_dropWhile_blank_lt (by simp only [digits] at _h; omega)

/-- The part of a line before its comment, and the comment. -/
def splitComment (line : List Char) : List Char × List Char :=
  (Text.splitAt? '#' line).getD (line, [])

/-- The case before anything was read. -/
def unread : Case := ⟨0, "", 0, [], ""⟩

/-- Read what stands on a line before its comment over the case that is held. Each part is written
as soon as it is read. -/
def fill (held : Case) (text : List Char) : Except CaseFault Unit × Case :=
  match readAddress text with
  | .error fault => (.error fault, { held with address := 0 })
  | .ok (address, text) =>
    let held := { held with address := address }
    match readBytes text with
    | .error fault => (.error fault, held)
    | .ok (bytes, text) =>
      if bytes.isEmpty then (.error .noBytes, held)
      else (.ok (), { held with bytes := bytes, expected := String.ofList (Text.trimEnd text) })

end Case

/-! ### Reading case by case -/

/-- A golden file that is read case by case. -/
structure CaseReader where
  file : String
  /-- The number of lines that were read. -/
  line : Nat
  /-- The lines that are left. -/
  rest : List (List Char)
deriving DecidableEq, Repr

namespace CaseReader

/-- The reader at the start of a file. -/
def ofSource (file source : String) : CaseReader := ⟨file, 0, Text.lines source.toList⟩

/-- What asking for the next case gives. -/
structure Reading where
  /-- Whether there was a case, or what is wrong with its line. -/
  found : Except CaseError Bool
  reader : CaseReader
  /-- The case that is held now. -/
  held : Case
deriving Repr

/-- Read the first line that is more than a comment over the case that is held. -/
def readFrom (file : String) (held : Case) (line : Nat) : (rest : List (List Char)) → Reading
  | [] => ⟨.ok false, ⟨file, line, []⟩, held⟩
  | text :: rest =>
    let (text, comment) := Case.splitComment text
    let text := Text.trim text
    if text.isEmpty then readFrom file held (line + 1) rest
    else
      let (result, held) := Case.fill
        { held with line := line + 1, comment := String.ofList (Text.trim comment) } text
      let found := match result with
        | .ok () => .ok true
        | .error fault => .error ⟨file, line + 1, fault⟩
      ⟨found, ⟨file, line + 1, rest⟩, held⟩

/-- Read the next case over the one that is held. The bytes and the text of that one are gone even
if there is no other case; all else stays until a line is read. -/
def next (r : CaseReader) (held : Case) : Reading :=
  readFrom r.file { held with bytes := [], expected := "" } r.line r.rest

theorem length_rest_readFrom {file : String} {held : Case} {line : Nat} {rest : List (List Char)}
    (h : (readFrom file held line rest).found ≠ .ok false) :
    (readFrom file held line rest).reader.rest.length < rest.length := by
  induction rest generalizing line with
  | nil => exact absurd rfl h
  | cons text rest ih =>
    simp only [readFrom] at h ⊢
    split
    · rename_i hblank
      rw [if_pos hblank] at h
      exact Nat.lt_succ_of_lt (ih h)
    · exact Nat.lt_succ_self _

/-- All cases that are left, read one after the other over the case that is held, with an error in
the place of each line that is wrong. -/
def readAll (r : CaseReader) (held : Case) : List (Except CaseError Case) :=
  match _h : (r.next held).found with
  | .ok false => []
  | .ok true => .ok (r.next held).held :: readAll (r.next held).reader (r.next held).held
  | .error e => .error e :: readAll (r.next held).reader (r.next held).held
termination_by r.rest.length
decreasing_by
  · exact length_rest_readFrom (by rw [next] at _h; rw [_h]; nofun)
  · exact length_rest_readFrom (by rw [next] at _h; rw [_h]; nofun)

end CaseReader

namespace Case

/-- The cases of a file in order, with an error in the place of each line that is wrong. -/
def parse (file source : String) : List (Except CaseError Case) :=
  (CaseReader.ofSource file source).readAll unread

/-- The cases before the first error, and that error. -/
def untilError : List (Except CaseError Case) → List Case × Option CaseError
  | [] => ([], none)
  | .ok c :: rest =>
    let (cases, error) := untilError rest
    (c :: cases, error)
  | .error e :: _ => ([], some e)

/-! ### Flags -/

/-- The flag that a word sets or clears. -/
def flagOfWord? : List Char → Option (String × Bool)
  | '+' :: name => some (String.ofList name, true)
  | '-' :: name => some (String.ofList name, false)
  | _ => none

/-- The flags of a comment: words that start with a plus or a minus sign. -/
def flags (comment : String) : List (String × Bool) :=
  (Text.words comment.toList).filterMap flagOfWord?

/-! ### Images -/

/-- Put the bytes of a case at its address in an image that starts at `start`. A gap is filled with
zeros; a case without an address, or with one that is passed already, goes to the end. -/
def place (start : Nat) (image : List Byte) (c : Case) : List Byte :=
  let offset := c.address - start
  let gap := if c.address ≠ 0 then offset - image.length else 0
  image ++ List.replicate gap 0 ++ c.bytes

/-- The address of the first case, and the bytes of all cases at their addresses. -/
def image (cases : List Case) : Nat × List Byte :=
  match cases with
  | [] => (0, [])
  | first :: _ => (first.address, cases.foldl (place first.address) [])

/-- The image of a file, if all its lines are right. -/
def imageOf (source : String) : Except CaseError (Nat × List Byte) :=
  match untilError (parse "input" source) with
  | (cases, none) => .ok (image cases)
  | (_, some e) => .error e

/-- The image of the cases can be held in memory. Only a gap before a case can make it too long. -/
def isHeld (cases : List Case) : Bool :=
  match cases with
  | [] => true
  | first :: _ => cases.all fun c => decide (c.address - first.address ≤ maxCapacity)

/-- The image of a file if it can be held in memory. The image grows line by line, so that a line
that is wrong ends it before a gap after that line makes it too long. -/
def heldImageOf (source : String) : Except Fault (Except CaseError (Nat × List Byte)) :=
  if isHeld (untilError (parse "input" source)).1 then .ok (imageOf source)
  else .error .capacity

end Case

end LengthDisasm
