import LengthDisasm.Text.Blank

/-!
# Differences between texts

Two texts are compared line by line. The lines that they share at the start and at the end are kept;
between them a longest common subsequence is kept, and of several the one that lies nearest to the
end.

## Main definitions

* `LineChange` — a line that is kept, removed or added
* `LineDiff.table` — the lengths of the longest common subsequences of all starts
* `LineDiff.compare` — the changes from one list of lines to another
* `LineDiff.ofTexts` — the changes from one text to another
-/

namespace LengthDisasm

/-- A line of a difference. -/
inductive LineChange where
  /-- The line is in both texts. -/
  | kept (line : List Char)
  /-- The line is in the first text only. -/
  | removed (line : List Char)
  /-- The line is in the second text only. -/
  | added (line : List Char)
deriving DecidableEq, Repr

namespace LineDiff

/-- Lines of a text. -/
abbrev Lines := List (List Char)

/-- The lines that both lists start with, and what is left of each. -/
def sharedStart : Lines → Lines → Lines × Lines × Lines
  | a :: as, b :: bs =>
    if a = b then
      let (shared, as', bs') := sharedStart as bs
      (a :: shared, as', bs')
    else ([], a :: as, b :: bs)
  | as, bs => ([], as, bs)

/-- The row of the table for one more line `a`: `above` is the row before it from one column to the
left on, `left` the entry to the left. -/
def nextRow (a : List Char) (left : Nat) : (above : List Nat) → Lines → List Nat
  | diagonal :: up :: above, b :: bs =>
    let entry := if a = b then diagonal + 1 else max up left
    entry :: nextRow a entry (up :: above) bs
  | _, _ => []

/-- All rows of the table from the row `above` on. -/
def rowsFrom (above : List Nat) (bs : Lines) : Lines → List (List Nat)
  | [] => [above]
  | a :: as => above :: rowsFrom (0 :: nextRow a 0 above bs) bs as

/-- Entry `(i, j)` is the length of a longest common subsequence of the first `i` lines of `as` and
the first `j` lines of `bs`. -/
def table (as bs : Lines) : Array (Array Nat) :=
  ((rowsFrom (List.replicate (bs.length + 1) 0) bs as).map List.toArray).toArray

/-- The changes between the first `i` and the first `j` lines, put before `later`. An added line is
taken first, then a removed one, where the table allows it. -/
def trace (table : Nat → Nat → Nat) (as bs : Array (List Char)) :
    (i j : Nat) → (later : List LineChange) → List LineChange
  | 0, 0, later => later
  | 0, j + 1, later => trace table as bs 0 j (.added (bs.getD j []) :: later)
  | i + 1, 0, later => trace table as bs i 0 (.removed (as.getD i []) :: later)
  | i + 1, j + 1, later =>
    if table (i + 1) (j + 1) = table (i + 1) j then
      trace table as bs (i + 1) j (.added (bs.getD j []) :: later)
    else if table (i + 1) (j + 1) = table i (j + 1) then
      trace table as bs i (j + 1) (.removed (as.getD i []) :: later)
    else
      trace table as bs i j (.kept (as.getD i []) :: later)
termination_by i j => i + j

/-- The changes between lists that share neither their first nor their last line. -/
def compareMiddle (as bs : Lines) : List LineChange :=
  let entries := table as bs
  trace (fun i j => (entries.getD i #[]).getD j 0) as.toArray bs.toArray as.length bs.length []

/-- The changes from the lines `as` to the lines `bs`. -/
def compare (as bs : Lines) : List LineChange :=
  let (start, as, bs) := sharedStart as bs
  let (stop, as, bs) := sharedStart as.reverse bs.reverse
  start.map .kept ++ compareMiddle as.reverse bs.reverse ++ stop.reverse.map .kept

/-- The text ends with a line feed. -/
def endsLine (text : List Char) : Bool := text.getLast? == some '\n'

/-- The changes from one text to another. A line feed at the end counts as an empty line after
it. -/
def ofTexts (old new : List Char) : List LineChange :=
  let last := match endsLine old, endsLine new with
    | true, true => [.kept []]
    | true, false => [.removed []]
    | false, true => [.added []]
    | false, false => []
  compare (Text.lines old) (Text.lines new) ++ last

end LineDiff

end LengthDisasm
