import LengthDisasm.Command.Session

/-!
# The program

Read the file that the command line names, run the command and write what it prints.
-/

open LengthDisasm

/-- How many processors are assumed. More than one lets large data be listed in blocks. -/
def assumedProcessors : Nat := 4

/-- The bytes of a file, if it can be read. -/
def readBytes? (path : String) : IO (Option (List Byte)) := do
  match ← (IO.FS.readBinFile path).toBaseIO with
  | .ok bytes => return some (bytes.toList.map UInt8.toBitVec)
  | .error _ => return none

/-- Run the program on its arguments. -/
def main (words : List String) : IO UInt32 := do
  let file ← match Request.ofArguments assumedProcessors words with
    | .ok (.list settings) => readBytes? settings.path
    | _ => pure none
  let report := run assumedProcessors (fun _ => file) words
  IO.print report.output
  match report.ending.message? with
  | some message => IO.eprintln message
  | none => pure ()
  return UInt32.ofNat (report.ending.status?.getD 1)
