import LengthDisasm.Bits.Field
import LengthDisasm.Walk

/-!
# Summaries of walks

A summary counts the instructions, the bytes and the failed decodes of a walk, the latter by error.

## Main definitions

* `Summary` — the counts
* `Summary.add`, `Summary.merge` — count one more step, or all that another summary counts
* `Summary.mergeInWords` — the same, if the counts fit in 64-bit words
* `Walk.summary` — the summary of all steps of a walk
-/

namespace LengthDisasm

/-- What a walk found. -/
structure Summary where
  instructions : Nat
  bytes : Nat
  insufficientLength : Nat
  unknownOpcode : Nat
  invalidLock : Nat
  badOperand : Nat
deriving DecidableEq, Repr

namespace Summary

/-- The summary of no steps. -/
def empty : Summary := ⟨0, 0, 0, 0, 0, 0⟩

/-- How often a decode failed with this error. -/
def count (s : Summary) : DecodeError → Nat
  | .insufficientLength => s.insufficientLength
  | .unknownOpcode => s.unknownOpcode
  | .invalidLock => s.invalidLock
  | .badOperand => s.badOperand

/-- How often a decode failed. -/
def errors (s : Summary) : Nat := DecodeError.all.foldr (fun e n => s.count e + n) 0

/-- One more failed decode. -/
def countError (s : Summary) : DecodeError → Summary
  | .insufficientLength => { s with insufficientLength := s.insufficientLength + 1 }
  | .unknownOpcode => { s with unknownOpcode := s.unknownOpcode + 1 }
  | .invalidLock => { s with invalidLock := s.invalidLock + 1 }
  | .badOperand => { s with badOperand := s.badOperand + 1 }

/-- One more step. -/
def add (s : Summary) (step : Step) : Summary :=
  let s := { s with bytes := s.bytes + step.length }
  match step.result with
  | .ok _ => { s with instructions := s.instructions + 1 }
  | .error e => s.countError e

/-- The counts of both summaries together. -/
def merge (s t : Summary) : Summary where
  instructions := s.instructions + t.instructions
  bytes := s.bytes + t.bytes
  insufficientLength := s.insufficientLength + t.insufficientLength
  unknownOpcode := s.unknownOpcode + t.unknownOpcode
  invalidLock := s.invalidLock + t.invalidLock
  badOperand := s.badOperand + t.badOperand

/-- Every count of the summary fits in a 64-bit word. -/
def fitsInWords (s : Summary) : Bool :=
  ([s.instructions, s.bytes] ++ DecodeError.all.map s.count).all fun n => decide (n < UInt64.size)

/-- The counts of both summaries together, if they fit in 64-bit words. -/
def mergeInWords (s t : Summary) : Except Fault Summary :=
  if (s.merge t).fitsInWords then .ok (s.merge t) else .error .overflow

/-- The summary of some steps. -/
def ofSteps (steps : List Step) : Summary := steps.foldl add empty

/-- The summary as text; only errors that occurred are mentioned. -/
def text (s : Summary) : String :=
  let errors := (DecodeError.all.filter fun e => s.count e ≠ 0).map fun e =>
    ", " ++ toString (s.count e) ++ " " ++ e.message
  toString s.instructions ++ " instructions, " ++ toString s.bytes ++ " bytes" ++
    String.join errors

end Summary

/-- The summary of all steps of a walk. -/
def Walk.summary (w : Walk) : Summary := Summary.ofSteps w.steps

end LengthDisasm
