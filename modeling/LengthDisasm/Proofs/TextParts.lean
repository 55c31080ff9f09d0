import Mathlib.Data.List.TakeWhile
import LengthDisasm.Text.Blank

/-!
# Parts of a text

What trimming, splitting and cutting into lines give for a text that is put together from known
parts.

## Main definitions

* `Text.IsTrimmed` — a text has no blanks at its ends

## Main results

* `Text.takeWhile_append_of_stops`, `Text.dropWhile_append_of_stops` — where a run of characters
  ends
* `Text.trim_append_of_blank` — blanks at the end are trimmed off
* `Text.IsTrimmed.trim_eq` — a text without blanks at its ends stays as it is
* `Text.splitAt?_append`, `Text.splitAt?_eq_none` — where a text is split
* `Text.lines_append` — a line is cut off at its line feed
-/

namespace LengthDisasm.Text

variable {text blanks line : List Char} {c : Char}

/-! ### Runs of characters -/

section Runs

variable {p : Char → Bool} {run rest : List Char}

/-- A run ends at the first character that is not of its kind. -/
theorem takeWhile_append_of_stops (hrun : ∀ x ∈ run, p x = true)
    (hrest : ∀ x ∈ rest.head?, p x = false) :
    (run ++ rest).takeWhile p = run := by
  rw [List.takeWhile_append_of_pos hrun]
  cases rest with
  | nil => exact List.append_nil run
  | cons x rest => rw [List.takeWhile_cons_of_neg (by rw [hrest x rfl]; decide), List.append_nil]

theorem dropWhile_append_of_stops (hrun : ∀ x ∈ run, p x = true)
    (hrest : ∀ x ∈ rest.head?, p x = false) :
    (run ++ rest).dropWhile p = rest := by
  rw [List.dropWhile_append_of_pos hrun]
  cases rest with
  | nil => rfl
  | cons x rest => exact List.dropWhile_cons_of_neg (by rw [hrest x rfl]; decide)

/-- What stands before the end of a run in the front of a text stands before it in the text. -/
theorem mem_takeWhile_append (h : c ∈ text.takeWhile p) (rest : List Char) :
    c ∈ (text ++ rest).takeWhile p := by
  rw [List.takeWhile_append]
  split
  · exact List.mem_append_left _ ((List.takeWhile_sublist p).subset h)
  · exact h

end Runs

/-! ### Blanks -/

theorem isBlank_of_mem_replicate (n : Nat) : ∀ x ∈ List.replicate n ' ', isBlank x = true := by
  intro x hx
  rw [List.eq_of_mem_replicate hx]
  decide

theorem trimStart_append_of_blank (h : ∀ x ∈ blanks, isBlank x = true) (text : List Char) :
    trimStart (blanks ++ text) = trimStart text :=
  List.dropWhile_append_of_pos h

theorem trimStart_eq_self (h : ∀ x ∈ text.head?, isBlank x = false) : trimStart text = text := by
  have hstop : ([] ++ text).dropWhile isBlank = text := dropWhile_append_of_stops (by simp) h
  exact hstop

theorem trimEnd_append_of_blank (h : ∀ x ∈ blanks, isBlank x = true) (text : List Char) :
    trimEnd (text ++ blanks) = trimEnd text := by
  have hreverse : ∀ x ∈ blanks.reverse, isBlank x = true := fun x hx => h x (List.mem_reverse.mp hx)
  rw [trimEnd, List.reverse_append, List.dropWhile_append_of_pos hreverse, trimEnd]

theorem trimEnd_eq_self (h : ∀ x ∈ text.getLast?, isBlank x = false) : trimEnd text = text := by
  have hstart : trimStart text.reverse = text.reverse :=
    trimStart_eq_self fun x hx => h x (by rwa [← List.head?_reverse])
  rw [trimStart] at hstart
  rw [trimEnd, hstart, List.reverse_reverse]

theorem trimStart_eq_nil_iff : trimStart text = [] ↔ ∀ x ∈ text, isBlank x = true :=
  List.dropWhile_eq_nil_iff

/-- Blanks at the end are trimmed off. -/
theorem trim_append_of_blank (h : ∀ x ∈ blanks, isBlank x = true) (text : List Char) :
    trim (text ++ blanks) = trim text := by
  unfold trim
  by_cases hall : trimStart text = []
  · -- all is blank, and trimming leaves nothing
    have hblank := trimStart_eq_nil_iff.mp hall
    rw [trimStart_append_of_blank hblank, hall, trimStart_eq_nil_iff.mpr h]
  · have hstart : trimStart (text ++ blanks) = trimStart text ++ blanks := by
      rw [trimStart, List.dropWhile_append]
      split
      · rename_i hempty
        exact absurd (List.isEmpty_iff.mp hempty) hall
      · rfl
    rw [hstart, trimEnd_append_of_blank h]

/-- The text has no blanks at its ends. -/
structure IsTrimmed (text : List Char) : Prop where
  head : ∀ x ∈ text.head?, isBlank x = false
  last : ∀ x ∈ text.getLast?, isBlank x = false

instance (text : List Char) : Decidable (IsTrimmed text) :=
  decidable_of_iff (text.head?.all (!isBlank ·) = true ∧ text.getLast?.all (!isBlank ·) = true)
    ⟨fun h => ⟨by simpa [Option.all_eq_true] using h.1, by simpa [Option.all_eq_true] using h.2⟩,
      fun h => ⟨by simpa [Option.all_eq_true] using h.head,
        by simpa [Option.all_eq_true] using h.last⟩⟩

theorem IsTrimmed.trim_eq (h : IsTrimmed text) : trim text = text := by
  rw [trim, trimStart_eq_self h.head, trimEnd_eq_self h.last]

theorem forall_getLast?_append {p : Char → Prop} {last : List Char} (hne : last ≠ [])
    (h : ∀ x ∈ last.getLast?, p x) (text : List Char) : ∀ x ∈ (text ++ last).getLast?, p x := by
  have hsome := List.getLast?_eq_some_getLast hne
  rw [List.getLast?_append, hsome, Option.some_or, ← hsome]
  exact h

/-- Only the ends of a text matter for trimming. -/
theorem IsTrimmed.join {first last : List Char} (hfirst : IsTrimmed first) (hlast : IsTrimmed last)
    (hne : first ≠ []) (hne' : last ≠ []) (middle : List Char) :
    IsTrimmed (first ++ (middle ++ last)) where
  head := by
    obtain ⟨x, first, rfl⟩ := List.exists_cons_of_ne_nil hne
    exact hfirst.head
  last := by
    rw [← List.append_assoc]
    exact forall_getLast?_append hne' hlast.last (first ++ middle)

/-! ### Splitting -/

/-- A text is split at the first occurrence of a character. -/
theorem splitAt?_append (h : c ∉ text) (rest : List Char) :
    splitAt? c (text ++ c :: rest) = some (text, rest) := by
  have hbefore : ∀ x ∈ text, (x != c) = true := by
    intro x hx
    rw [bne_iff_ne]
    rintro rfl
    exact h hx
  have hstop : ∀ x ∈ (c :: rest).head?, (x != c) = false := by
    rintro x ⟨⟩
    exact bne_self_eq_false c
  rw [splitAt?, dropWhile_append_of_stops hbefore hstop, takeWhile_append_of_stops hbefore hstop]

theorem splitAt?_eq_none (h : c ∉ text) : splitAt? c text = none := by
  have hbefore : text.dropWhile (· != c) = [] := by
    rw [List.dropWhile_eq_nil_iff]
    intro x hx
    rw [bne_iff_ne]
    rintro rfl
    exact h hx
  rw [splitAt?, hbefore]

/-! ### Lines -/

theorem linesFrom_append (h : '\n' ∉ text) (front rest : List Char) :
    linesFrom front (text ++ rest) = linesFrom (text.reverse ++ front) rest := by
  induction text generalizing front with
  | nil => rfl
  | cons x text ih =>
    have hx : x ≠ '\n' := fun heq => h (heq ▸ List.mem_cons_self)
    have htext : '\n' ∉ text := fun hmem => h (List.mem_cons_of_mem x hmem)
    rw [List.cons_append, linesFrom, if_neg hx, ih htext, List.reverse_cons, List.append_assoc]
    rfl

/-- A line is cut off at its line feed. -/
theorem lines_append (h : '\n' ∉ line) (rest : List Char) :
    lines (line ++ '\n' :: rest) = finishLine line.reverse :: lines rest := by
  rw [lines, linesFrom_append h, linesFrom, if_pos rfl, List.append_nil, lines]

/-- What follows the last line feed is a line if it is not empty. -/
theorem lines_of_not_mem (h : '\n' ∉ line) : lines line = if line = [] then [] else [line] := by
  have hfrom := linesFrom_append h [] []
  rw [List.append_nil, List.append_nil] at hfrom
  rw [lines, hfrom, linesFrom, List.reverse_reverse]
  simp only [List.isEmpty_iff, List.reverse_eq_nil_iff]

theorem finishLine_concat (line : List Char) : finishLine (line ++ ['\r']).reverse = line := by
  rw [List.reverse_append]
  exact List.reverse_reverse line

/-- Only a carriage return before the line feed is taken off a line. -/
theorem finishLine_reverse (h : ∀ x ∈ line.getLast?, x ≠ '\r') :
    finishLine line.reverse = line := by
  rw [← List.head?_reverse] at h
  unfold finishLine
  split
  · rename_i rest hline
    exact absurd rfl (h '\r' (by rw [hline]; rfl))
  · exact List.reverse_reverse line

/-- A line without its end is the front of the line. -/
theorem exists_finishLine_append (line : List Char) :
    ∃ rest, line = finishLine line.reverse ++ rest := by
  unfold finishLine
  split
  · rename_i rest hline
    exact ⟨['\r'], by rw [← List.reverse_reverse line, hline, List.reverse_cons]⟩
  · exact ⟨[], by rw [List.reverse_reverse, List.append_nil]⟩

end LengthDisasm.Text
