import LengthDisasm.Proofs.GoldenLines

/-!
# Golden files are read back

A golden file is written as lines, of which some hold a case and the others are blank or hold a
comment only. Asking for the next case again and again gives the cases of the file in order and then
says that there are no more. The case that is held from one call to the next leaves no trace. In a
file that was not written like this only one thing can be wrong with a line: it has no bytes.

## Main definitions

* `Golden.Document` — a golden file as it is written
* `Golden.Document.source`, `Golden.Document.cases` — its text and its cases
* `CaseReader.Reads` — these cases are read, and then no more

## Main results

* `CaseReader.found_next` — what asking for the next case can give
* `Golden.Document.reads_source` — a written file is read back
* `golden_files_round_trip` — both, for all files
-/

namespace LengthDisasm

/-! ### What is wrong with a line -/

theorem Case.fault_of_fill {held : Case} {text : List Char} {fault : CaseFault}
    (h : (Case.fill held text).1 = .error fault) : fault = .noBytes := by
  obtain ⟨address, haddress⟩ := Case.exists_readAddress text
  obtain ⟨bytes, hbytes⟩ := Case.exists_readBytes address.2
  simp only [Case.fill, haddress, hbytes] at h
  split at h
  · cases h
    rfl
  · cases h

theorem Case.untilError_map_ok (cases : List Case) :
    Case.untilError (cases.map .ok) = (cases, none) := by
  induction cases with
  | nil => rfl
  | cons c cases ih => simp only [List.map_cons, Case.untilError, ih]

namespace CaseReader

theorem found_readFrom (file : String) (held : Case) (line : Nat) (rest : List (List Char)) :
    (∃ found, (readFrom file held line rest).found = .ok found) ∨
      (readFrom file held line rest).found =
        .error ⟨file, (readFrom file held line rest).reader.line, .noBytes⟩ := by
  induction rest generalizing line with
  | nil => exact .inl ⟨false, rfl⟩
  | cons text rest ih =>
    simp only [readFrom]
    split
    · exact ih (line + 1)
    · cases hfill : (Case.fill { held with line := line + 1, comment := _ } _).1 with
      | ok u => exact .inl ⟨true, rfl⟩
      | error fault =>
        -- addresses and bytes are always read, so the line has no bytes
        right
        rw [Case.fault_of_fill hfill]

/-- Asking for the next case says whether there is one, or that its line has no bytes. -/
theorem found_next (r : CaseReader) (held : Case) :
    (∃ found, (r.next held).found = .ok found) ∨
      (r.next held).found = .error ⟨r.file, (r.next held).reader.line, .noBytes⟩ :=
  found_readFrom r.file _ r.line r.rest

/-! ### Reading case by case -/

/-- Asking for the next case again and again, each time over the case that is held, gives these
cases one after the other and then says that there are no more. -/
inductive Reads : CaseReader → Case → List Case → Prop
  | done {r : CaseReader} {held : Case} (h : (r.next held).found = .ok false) : Reads r held []
  | more {r : CaseReader} {held : Case} {cases : List Case} (h : (r.next held).found = .ok true)
      (hrest : Reads (r.next held).reader (r.next held).held cases) :
      Reads r held ((r.next held).held :: cases)

theorem Reads.congr {r r' : CaseReader} {held : Case} {cases : List Case} (h : r.Reads held cases)
    (hnext : r'.next held = r.next held) : r'.Reads held cases := by
  cases h with
  | done hfound => exact .done (hnext ▸ hfound)
  | more hfound hrest =>
    rw [← hnext] at hfound hrest ⊢
    exact .more hfound hrest

/-- Reading a file to its end gives the same cases. -/
theorem Reads.readAll_eq {r : CaseReader} {held : Case} {cases : List Case}
    (h : r.Reads held cases) :
    r.readAll held = cases.map .ok := by
  induction h with
  | done hfound =>
    rw [readAll]
    split
    · rfl
    · rename_i htrue
      rw [hfound] at htrue
      cases htrue
    · rename_i herror
      rw [hfound] at herror
      cases herror
  | more hfound _ ih =>
    rw [readAll]
    split
    · rename_i hfalse
      rw [hfound] at hfalse
      cases hfalse
    · rw [ih, List.map_cons]
    · rename_i herror
      rw [hfound] at herror
      cases herror

end CaseReader

namespace Golden

/-! ### Files as they are written -/

/-- A line without a case: what stands before its comment is blank. -/
structure Filler where
  text : String
  newline_not_mem : '\n' ∉ text.toList
  isBlank_front : (text.toList.takeWhile (· != '#')).all Text.isBlank = true

/-- A line of a golden file. -/
inductive Line where
  | entry (e : Entry)
  | filler (f : Filler)

namespace Line

/-- The line without its end. -/
def text : Line → List Char
  | entry e => e.line
  | filler f => f.text.toList

/-- The case on the line, if there is one. -/
def case? (number : Nat) : Line → Option Case
  | entry e => some (e.toCase number)
  | filler _ => none

end Line

/-- A golden file as it is written. -/
structure Document where
  /-- The lines that end in a line feed. -/
  lines : List Line
  /-- What stands behind the last line feed. -/
  last : Option Line
  /-- Carriage returns stand before the line feeds. -/
  returns : Bool

namespace Document

/-- The characters that end a line. -/
def lineEnd (returns : Bool) : List Char := if returns then ['\r', '\n'] else ['\n']

/-- The text of the file. -/
def source (d : Document) : String :=
  String.ofList (d.lines.flatMap (fun l => l.text ++ lineEnd d.returns) ++
    (d.last.map Line.text).getD [])

/-- The cases on lines that are counted from `number` on. -/
def casesFrom (number : Nat) (lines : List Line) : List Case :=
  (lines.zipIdx number).filterMap fun p => p.1.case? p.2

/-- The cases of the file. -/
def cases (d : Document) : List Case := casesFrom 1 (d.lines ++ d.last.toList)

theorem casesFrom_cons (number : Nat) (l : Line) (lines : List Line) :
    casesFrom number (l :: lines) = (l.case? number).toList ++ casesFrom (number + 1) lines := by
  rw [casesFrom, List.zipIdx_cons, List.filterMap_cons]
  cases l.case? number <;> rfl

end Document

namespace Line

/-- The line can be read as this text: a case stands in it as it was written, and all else may be
any filler. -/
def ReadsAs (text : List Char) : Line → Prop
  | entry e => text = e.line
  | filler _ => ∀ c ∈ text.takeWhile (· != '#'), Text.isBlank c = true

variable (l : Line)

theorem newline_not_mem_text : '\n' ∉ l.text := by
  cases l with
  | entry e => exact e.newline_not_mem_line
  | filler f => exact f.newline_not_mem

theorem readsAs_text : l.ReadsAs l.text := by
  cases l with
  | entry e => rfl
  | filler f => exact List.all_eq_true.mp f.isBlank_front

/-- The line that a line feed ends. -/
theorem readsAs_finishLine : l.ReadsAs (Text.finishLine l.text.reverse) := by
  cases l with
  | entry e => exact Text.finishLine_reverse e.last_line_ne
  | filler f =>
    -- a carriage return at the end may be taken off a filler, which leaves a filler
    intro c hc
    obtain ⟨rest, hrest⟩ := Text.exists_finishLine_append f.text.toList
    apply List.all_eq_true.mp f.isBlank_front
    rw [hrest]
    exact Text.mem_takeWhile_append hc rest

/-- The first line is cut off, whichever way it ends. -/
theorem exists_lines_append (returns : Bool) (rest : List Char) :
    ∃ text, l.ReadsAs text ∧
      Text.lines (l.text ++ Document.lineEnd returns ++ rest) = text :: Text.lines rest := by
  cases returns with
  | true =>
    have hline : '\n' ∉ l.text ++ ['\r'] := by simp [l.newline_not_mem_text]
    refine ⟨l.text, l.readsAs_text, ?_⟩
    have hlines := Text.lines_append hline rest
    rw [Text.finishLine_concat, List.append_assoc] at hlines
    rw [List.append_assoc]
    exact hlines
  | false =>
    refine ⟨Text.finishLine l.text.reverse, l.readsAs_finishLine, ?_⟩
    rw [List.append_assoc]
    exact Text.lines_append l.newline_not_mem_text rest

/-- The last line may be missing if it is empty, and then it has no case. -/
theorem lines_text (number : Nat) :
    (Text.lines l.text = [] ∧ l.case? number = none) ∨ Text.lines l.text = [l.text] := by
  rw [Text.lines_of_not_mem l.newline_not_mem_text]
  split
  · rename_i hnil
    left
    cases l with
    | entry e =>
      obtain ⟨start, last, -, hline⟩ := e.exists_line_eq
      rw [Line.text, hline] at hnil
      simp at hnil
    | filler f => exact ⟨rfl, rfl⟩
  · exact .inr rfl

end Line

/-! ### Reading a file -/

theorem splitComment_fst (text : List Char) :
    (Case.splitComment text).1 = text.takeWhile (· != '#') := by
  have hsplit := List.takeWhile_append_dropWhile (p := (· != '#')) (l := text)
  unfold Case.splitComment Text.splitAt?
  split
  · rename_i hnil
    rw [hnil, List.append_nil] at hsplit
    exact hsplit.symm
  · rfl

/-- A case is read whatever case is held. -/
theorem readFrom_entry (file : String) (held : Case) (number : Nat) (e : Entry)
    (rest : List (List Char)) :
    CaseReader.readFrom file held number (e.line :: rest) =
      ⟨.ok true, ⟨file, number + 1, rest⟩, e.toCase (number + 1)⟩ := by
  obtain ⟨hbody, hcomment⟩ := e.splitComment_line
  simp only [CaseReader.readFrom, hbody, hcomment, List.isEmpty_eq_false_iff.mpr e.body_ne_nil,
    Bool.false_eq_true, if_false, e.fill_body]
  rfl

/-- A line without a case is passed over. -/
theorem readFrom_filler (file : String) (held : Case) (number : Nat) {text : List Char}
    (h : ∀ c ∈ text.takeWhile (· != '#'), Text.isBlank c = true) (rest : List (List Char)) :
    CaseReader.readFrom file held number (text :: rest) =
      CaseReader.readFrom file held (number + 1) rest := by
  have hblank : Text.trim (Case.splitComment text).1 = [] := by
    rw [splitComment_fst, Text.trim, Text.trimStart_eq_nil_iff.mpr h]
    rfl
  simp only [CaseReader.readFrom, hblank, List.isEmpty_nil, if_true]

variable {file : String} {number : Nat} {rest : List (List Char)} {cases : List Case}

/-- A line puts its case, if it has one, before those of the lines behind it. -/
theorem reads_cons {l : Line} {text : List Char} (htext : l.ReadsAs text)
    (hrest : ∀ held, (CaseReader.mk file (number + 1) rest).Reads held cases) (held : Case) :
    (CaseReader.mk file number (text :: rest)).Reads held
      ((l.case? (number + 1)).toList ++ cases) := by
  cases l with
  | entry e =>
    -- all fields of the held case are written over
    obtain rfl : text = e.line := htext
    have hnext : (CaseReader.mk file number (e.line :: rest)).next held =
        ⟨.ok true, ⟨file, number + 1, rest⟩, e.toCase (number + 1)⟩ :=
          readFrom_entry file _ number e rest
    have hfound : ((CaseReader.mk file number (e.line :: rest)).next held).found = .ok true := by
      rw [hnext]
    have hreads : ((CaseReader.mk file number (e.line :: rest)).next held).reader.Reads
        ((CaseReader.mk file number (e.line :: rest)).next held).held cases := by
      rw [hnext]
      exact hrest _
    have hmore := CaseReader.Reads.more hfound hreads
    rwa [hnext] at hmore
  | filler f => exact (hrest held).congr (readFrom_filler file _ number htext rest)

theorem reads_nil (held : Case) : (CaseReader.mk file number []).Reads held [] := .done rfl

namespace Document

/-- A file is read line by line. -/
theorem reads_lines (returns : Bool) (lines : List Line) (last : Option Line) (number : Nat)
    (held : Case) :
    (CaseReader.mk file number (Text.lines (lines.flatMap (fun l => l.text ++ lineEnd returns) ++
      (last.map Line.text).getD []))).Reads held
        (casesFrom (number + 1) (lines ++ last.toList)) := by
  induction lines generalizing number held with
  | nil =>
    cases last with
    | none => exact reads_nil held
    | some l =>
      have hcases : casesFrom (number + 1) ([] ++ [l]) = (l.case? (number + 1)).toList ++ [] :=
        casesFrom_cons (number + 1) l []
      rw [Option.toList_some, hcases, List.flatMap_nil, List.nil_append, Option.map_some,
        Option.getD_some]
      rcases l.lines_text (number + 1) with ⟨hnil, hnone⟩ | hone
      · rw [hnil, hnone]
        exact reads_nil held
      · rw [hone]
        exact reads_cons l.readsAs_text (fun held => reads_nil held) held
  | cons l lines ih =>
    obtain ⟨text, htext, hlines⟩ := l.exists_lines_append returns
      (lines.flatMap (fun l => l.text ++ lineEnd returns) ++ (last.map Line.text).getD [])
    rw [List.flatMap_cons, List.append_assoc, hlines, List.cons_append, casesFrom_cons]
    exact reads_cons htext (fun held => ih (number + 1) held) held

/-- A golden file is read back, whatever case is held at first. -/
theorem reads_source (d : Document) (file : String) (held : Case) :
    (CaseReader.ofSource file d.source).Reads held d.cases := by
  rw [CaseReader.ofSource, source, String.toList_ofList]
  exact reads_lines d.returns d.lines d.last 0 held

/-- No line of the file is wrong, and all its cases are read. -/
theorem untilError_parse (d : Document) (file : String) :
    Case.untilError (Case.parse file d.source) = (d.cases, none) := by
  rw [Case.parse, (d.reads_source file Case.unread).readAll_eq]
  exact Case.untilError_map_ok d.cases

end Document

end Golden

/-- Golden files are read back. All cases of a file as it is written come back in order with the
numbers of their lines, and then there are no more, whatever case is held at first. With any reader
of any file the only error is a line without bytes. -/
theorem golden_files_round_trip :
    (∀ (d : Golden.Document) (file : String) (held : Case),
      (CaseReader.ofSource file d.source).Reads held d.cases ∧
        Case.parse file d.source = d.cases.map .ok) ∧
    ∀ (r : CaseReader) (held : Case),
      (∃ found, (r.next held).found = .ok found) ∨
        ∃ e, (r.next held).found = .error e ∧
          e.message = "error: no instruction bytes, " ++ r.file ++ ":" ++
            toString (r.next held).reader.line := by
  refine ⟨fun d file held => ⟨d.reads_source file held,
    (d.reads_source file Case.unread).readAll_eq⟩, ?_⟩
  intro r held
  rcases r.found_next held with hfound | herror
  · exact .inl hfound
  · exact .inr ⟨_, herror, rfl⟩

/-- A case whose expected text looks like a byte and holds a colon. -/
def colonEntry : Golden.Entry where
  address := some 0x1c00
  bytes := [0x0f, 0x0b]
  expected := "90 a: b"
  comment := some "+amd64 # -x"
  capital := true
  width := 8
  bytes_ne_nil := List.cons_ne_nil _ _
  isTrimmed_expected := by decide
  plain_expected := by decide
  isTrimmed_comment := by rintro text ⟨⟩; decide
  plain_comment := by rintro text ⟨⟩; decide
  width_le := by decide

/-- A title, and then a case. -/
def titledDocument : Golden.Document where
  lines := [.filler ⟨" # title", by decide, by decide⟩, .entry colonEntry]
  last := none
  returns := false

theorem golden_files_round_trip_titled :
    titledDocument.source = " # title\n00001C00: 0F 0B  90 a: b # +amd64 # -x\n" ∧
      (CaseReader.ofSource "cases" titledDocument.source).Reads Case.unread
        [⟨2, "+amd64 # -x", 0x1c00, [0x0f, 0x0b], "90 a: b"⟩] :=
  ⟨by decide, (golden_files_round_trip.1 titledDocument "cases" Case.unread).1⟩

end LengthDisasm
