import LengthDisasm.Golden.Case
import LengthDisasm.Instruction.Line
import LengthDisasm.Walk

/-!
# Running golden files

A golden file is run by decoding the bytes of each case and comparing length and text with what the
case expects.

## Main definitions

* `Outcome` — what decoding the bytes of a case gave
* `Outcome.passes` — the outcome is the expected one
* `Golden.run` — run a file
* `Golden.decodeBytes` — decode bytes in a given mode
* `Golden.decodeIn` — decode the bytes of a case in the mode that flags ask for
-/

namespace LengthDisasm

/-- What decoding the bytes of a case gave. -/
structure Outcome where
  case : Case
  /-- The number of bytes decoded, zero if decoding failed. -/
  length : Nat
  text : String
deriving DecidableEq, Repr

namespace Outcome

/-- The number of bytes that must be decoded: all, or none if an error is expected. -/
def expectedLength (o : Outcome) : Nat := if o.case.expectsError then 0 else o.case.bytes.length

/-- The length is the expected one. -/
def lengthPasses (o : Outcome) : Bool := o.length == o.expectedLength

/-- The text is the expected one, up to blanks. -/
def textPasses (o : Outcome) : Bool := Text.squeeze o.text == Text.squeeze o.case.expected

/-- Length and text are the expected ones. -/
def passes (o : Outcome) : Bool := o.lengthPasses && o.textPasses

end Outcome

namespace Golden

/-- Why a file does not pass. -/
inductive RunError where
  /-- A line is wrong; the cases after it are not run. -/
  | malformed (error : CaseError)
  /-- So many cases do not pass. -/
  | failed (count : Nat)
deriving DecidableEq, Repr

namespace RunError

/-- The wording of an error. -/
def message : RunError → String
  | malformed error => error.message
  | failed count => "failed " ++ toString count ++ " tests"

end RunError

/-- The result of running a file. -/
structure Result where
  /-- The outcomes of the cases that were run, in order. -/
  outcomes : List Outcome
  verdict : Except RunError Unit

/-- Run all cases of a file up to the first line that is wrong. -/
def run (decodeCase : Case → Nat × String) (file source : String) : Result :=
  let (cases, error) := Case.untilError (Case.parse file source)
  let outcomes := cases.map fun c => Outcome.mk c (decodeCase c).1 (decodeCase c).2
  let failed := (outcomes.filter fun o => !o.passes).length
  let verdict := match error with
    | some e => .error (.malformed e)
    | none => if failed = 0 then .ok () else .error (.failed failed)
  ⟨outcomes, verdict⟩

/-- The mode that flags ask for. The last one decides, and without flags it is 32-bit mode. A flag
of another name is not expected, and there is no mode then. -/
def modeFor (flags : List (String × Bool)) : Except String Mode :=
  flags.foldlM
    (fun _ flag =>
      if flag.1 = "amd64" then .ok (if flag.2 then .long64 else .protected32)
      else .error ("unexpected flag " ++ flag.1))
    .protected32

/-- The number of bytes that were decoded, zero if decoding failed. -/
def consumedLength : Except DecodeError Instruction → Nat
  | .ok i => i.length
  | .error _ => 0

/-- The length and the text of what decoding gives. -/
def decodeBytes (mode : Mode) (bytes : List Byte) : Nat × String :=
  (consumedLength (decode mode bytes), decodedLine (decode mode bytes))

/-- Decode the bytes of a case in the mode that the flags of its file ask for, and after them those
of its comment. -/
def decodeIn (flags : String) (c : Case) : Except String (Nat × String) := do
  let mode ← modeFor (Case.flags flags ++ Case.flags c.comment)
  return decodeBytes mode c.bytes

end Golden

end LengthDisasm
