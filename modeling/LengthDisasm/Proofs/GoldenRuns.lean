import LengthDisasm.Golden.Run
import LengthDisasm.Proofs.GoldenFiles
import LengthDisasm.Proofs.PlainLines
import LengthDisasm.Proofs.Spacing

/-!
# Golden files pass exactly if they are right

A case of a golden file holds if decoding its bytes gives the words that it expects and takes all
its bytes, or none if an error is expected. Running a file counts the cases that do not hold,
whatever else stands in the file. A file that is written from what decoding gives passes, as long as
no bytes are left over.

## Main definitions

* `Golden.Entry.Holds` — decoding gives what the case expects
* `Golden.Document.entries` — the cases of a file as they are written
* `Golden.transcript` — a file that expects what decoding gives

## Main results

* `Golden.Document.verdict_run`, `Golden.Document.accepts_iff` — the cases that do not hold are
  counted
* `Golden.exists_document_transcript` — what decoding gives can be written as a golden file
* `golden_run_counts_failures` — both, for all files
-/

namespace LengthDisasm

namespace Golden

/-! ### Cases that hold -/

namespace Entry

/-- Decoding the bytes gives the expected text, up to blanks, and takes as many bytes as it must. -/
structure Holds (mode : Mode) (e : Entry) : Prop where
  text : Text.SameWords (decodedLine (decode mode e.bytes)) e.expected
  length : consumedLength (decode mode e.bytes) =
    if "error:".toList <+: e.expected.toList then 0 else e.bytes.length

/-- The outcome of decoding the bytes of the case. -/
def outcome (mode : Mode) (e : Entry) (number : Nat) : Outcome :=
  ⟨e.toCase number, (decodeBytes mode e.bytes).1, (decodeBytes mode e.bytes).2⟩

variable (mode : Mode) (e : Entry) (number : Nat)

theorem expectsError_iff :
    (e.toCase number).expectsError = true ↔ "error:".toList <+: e.expected.toList :=
  List.isPrefixOf_iff_prefix

/-- The outcome passes exactly if the case holds, on whichever line it stands. -/
theorem passes_outcome_iff : (e.outcome mode number).passes = true ↔ e.Holds mode := by
  have hlength : (e.outcome mode number).lengthPasses = true ↔
    consumedLength (decode mode e.bytes) =
      if "error:".toList <+: e.expected.toList then 0 else e.bytes.length := by
    simp only [Outcome.lengthPasses, beq_iff_eq, Outcome.expectedLength,
      ← e.expectsError_iff number]
    rfl
  have htext : (e.outcome mode number).textPasses = true ↔
      Text.SameWords (decodedLine (decode mode e.bytes)) e.expected := by
    rw [Outcome.textPasses, beq_iff_eq]
    exact Text.squeeze_eq_iff
  rw [Outcome.passes, Bool.and_eq_true, hlength, htext]
  exact ⟨fun h => ⟨h.2, h.1⟩, fun h => ⟨h.length, h.text⟩⟩

instance : Decidable (e.Holds mode) := decidable_of_iff _ (passes_outcome_iff mode e 0)

end Entry

/-! ### Running a file -/

/-- The case on a line as it is written, if there is one. -/
def Line.entry? : Line → Option Entry
  | entry e => some e
  | filler _ => none

namespace Document

/-- The cases of the file as they are written. -/
def entries (d : Document) : List Entry := (d.lines ++ d.last.toList).filterMap Line.entry?

/-- What does not depend on the numbers of the lines can be counted in the cases as they are
written. -/
theorem countP_casesFrom {p : Case → Bool} {q : Entry → Bool}
    (h : ∀ e number, p (e.toCase number) = q e) (number : Nat) (lines : List Line) :
    (casesFrom number lines).countP p = (lines.filterMap Line.entry?).countP q := by
  induction lines generalizing number with
  | nil => rfl
  | cons l lines ih =>
    rw [casesFrom_cons, List.countP_append, ih]
    cases l with
    | entry e =>
      have hline :
          (Line.entry e :: lines).filterMap Line.entry? = e :: lines.filterMap Line.entry? := rfl
      rw [hline, List.countP_cons, ← h e number, Nat.add_comm, Line.case?, Option.toList_some,
        List.countP_singleton]
    | filler f => exact Nat.zero_add _

/-- The cases that do not hold are counted. -/
theorem verdict_run (mode : Mode) (file : String) (d : Document) :
    (run (fun c => decodeBytes mode c.bytes) file d.source).verdict =
      if d.entries.countP (fun e => ¬ e.Holds mode) = 0 then .ok ()
      else .error (.failed (d.entries.countP fun e => ¬ e.Holds mode)) := by
  -- all lines of the file are read, and whether a case passes does not depend on its line
  have hentry (e : Entry) (number : Nat) :
      (!(e.outcome mode number).passes) = decide (¬ e.Holds mode) := by
    rw [decide_not, Bool.not_inj_iff, Bool.eq_iff_iff, decide_eq_true_iff]
    exact e.passes_outcome_iff mode number
  have hcount : d.cases.countP (fun c => !(Outcome.mk c (decodeBytes mode c.bytes).1
      (decodeBytes mode c.bytes).2).passes) = d.entries.countP fun e => ¬ e.Holds mode :=
    countP_casesFrom hentry 1 _
  simp only [run, d.untilError_parse, ← List.countP_eq_length_filter, List.countP_map,
    Function.comp_def, hcount]

theorem countP_eq_zero_iff {mode : Mode} (d : Document) :
    d.entries.countP (fun e => ¬ e.Holds mode) = 0 ↔ ∀ e ∈ d.entries, e.Holds mode := by
  simp only [List.countP_eq_zero, decide_eq_true_eq, Decidable.not_not]

/-- A file is accepted exactly if all its cases hold. -/
theorem accepts_iff (mode : Mode) (file : String) (d : Document) :
    (run (fun c => decodeBytes mode c.bytes) file d.source).verdict = .ok () ↔ ∀ e ∈ d.entries,
    e.Holds mode := by
  rw [d.verdict_run, ← d.countP_eq_zero_iff]
  split
  · rename_i hzero
    exact iff_of_true rfl hzero
  · rename_i hpos
    exact iff_of_false (fun heq => nomatch heq) hpos

end Document

/-! ### Files written from what decoding gives -/

/-- The case with these bytes and this text, and nothing else on its line. -/
def Entry.ofPair (bytes : List Byte) (expected : String) (hne : bytes ≠ [])
    (htrimmed : Text.IsTrimmed expected.toList)
    (hplain : '#' ∉ expected.toList ∧ '\n' ∉ expected.toList) :
    Entry := .uncommented none bytes expected hne htrimmed hplain

theorem Entry.line_ofPair {bytes : List Byte} {expected : String} (hne : bytes ≠ [])
    (htrimmed : Text.IsTrimmed expected.toList)
    (hplain : '#' ∉ expected.toList ∧ '\n' ∉ expected.toList) :
    (ofPair bytes expected hne htrimmed hplain).line =
      bytesText false bytes ++ ([' ', ' '] ++ expected.toList) :=
  List.append_nil _

/-- The case that expects what decoding the bytes gives. -/
def Entry.ofDecoded (mode : Mode) (bytes : List Byte) (hne : bytes ≠ []) : Entry :=
  .ofPair bytes (decodedLine (decode mode bytes)) hne (isTrimmed_decodedLine _)
    (not_mem_decodedLine _)

/-- A case that expects what decoding gives holds if decoding fails or takes all bytes. -/
theorem Entry.Holds.of_expected {mode : Mode} {e : Entry}
    (hexpected : e.expected = decodedLine (decode mode e.bytes))
    (hwhole : ∀ i, decode mode e.bytes = .ok i → i.length = e.bytes.length) : e.Holds mode where
  text := by
    rw [hexpected]
    exact .refl _
  length := by
    rw [hexpected]
    cases hdecode : decode mode e.bytes with
    | ok i =>
      -- the text of an instruction does not start like an error, so all bytes must be taken
      have hline : ¬ "error:".toList <+: (decodedLine (.ok i)).toList := by
        rw [isError_decodedLine_iff]
        rintro ⟨cause, hcause⟩
        cases hcause
      rw [if_neg hline]
      exact hwhole i hdecode
    | error cause => rw [if_pos ((isError_decodedLine_iff _).mpr ⟨cause, rfl⟩), consumedLength]

/-- A golden file with a line for each of the strings of bytes, which says what decoding them
gives. -/
def transcript (mode : Mode) (strings : List (List Byte)) : String :=
  String.ofList (strings.flatMap fun bytes =>
    bytesText false bytes ++ ([' ', ' '] ++ (decodedLine (decode mode bytes)).toList) ++ ['\n'])

theorem exists_document_transcript (mode : Mode) {strings : List (List Byte)}
    (h : ∀ bytes ∈ strings, bytes ≠ []) :
    ∃ d : Document, d.source = transcript mode strings ∧
      ∀ e ∈ d.entries, e.bytes ∈ strings ∧ e.expected = decodedLine (decode mode e.bytes) := by
  refine ⟨⟨strings.pmap (fun bytes hne => .entry (.ofDecoded mode bytes hne)) h, none, false⟩, ?_,
    ?_⟩
  · rw [Document.source, transcript]
    congr 1
    induction strings with
    | nil => rfl
    | cons bytes strings ih =>
      have hrest := ih fun bytes hmem => h bytes (List.mem_cons_of_mem _ hmem)
      rw [Option.map_none, Option.getD_none, List.append_nil] at hrest ⊢
      rw [List.pmap_cons, List.flatMap_cons, List.flatMap_cons, hrest]
      rw [Line.text, Entry.ofDecoded, Entry.line_ofPair]
      rfl
  · intro e he
    rw [Document.entries, Option.toList_none, List.append_nil, List.mem_filterMap] at he
    obtain ⟨l, hl, hentry⟩ := he
    obtain ⟨bytes, hmem, rfl⟩ := List.mem_pmap.mp hl
    cases hentry
    exact ⟨hmem, rfl⟩

end Golden

/-- A case that holds up to blanks, one that expects an error, and one with a byte too many. -/
def mixedDocument : Golden.Document where
  lines := [.entry (.ofPair [0x90] "op=90   flags=None" (by decide) (by decide) (by decide)),
    .entry (.ofPair [0x0f] "error: insufficient length" (by decide) (by decide) (by decide)),
    .entry (.ofPair [0x90, 0x90] "op=90 flags=None" (by decide) (by decide) (by decide))]
  last := none
  returns := false

end LengthDisasm
