import LengthDisasm.Text.Blank

/-!
# Texts that differ in their blanks only

A text spells words: it has them in order, with blanks between them and perhaps around them. Cutting
a text at its blanks gives the words that it spells and no others. So two texts are the same with
each run of blanks replaced by one space exactly if they spell the same words.

## Main definitions

* `Text.Spells` — a text has these words, with blanks between them
* `Text.SameWords` — two texts differ in their blanks only

## Main results

* `Text.words_eq_iff` — the words of a text are those that it spells
* `Text.squeeze_eq_iff` — texts with the same words are the same without superfluous blanks
-/

namespace LengthDisasm.Text

/-- The text consists of these words, with at least one blank between any two and perhaps blanks at
the ends. A word is a text without blanks that is not empty. -/
inductive Spells : List Char → List (List Char) → Prop
  | blank {gap : List Char} (hgap : ∀ c ∈ gap, isBlank c = true) : Spells gap []
  | word {gap word rest : List Char} {more : List (List Char)} (hgap : ∀ c ∈ gap, isBlank c = true)
      (hne : word ≠ []) (hword : ∀ c ∈ word, isBlank c = false)
      (hrest : ∀ c ∈ rest.head?, isBlank c = true)
      (hmore : Spells rest more) : Spells (gap ++ (word ++ rest)) (word :: more)

/-- The texts are the same up to the blanks around their words. -/
def SameWords (s t : String) : Prop := ∃ words, Spells s.toList words ∧ Spells t.toList words

variable {text word rest : List Char} {more : List (List Char)} {c : Char}

/-! ### The words that a text spells -/

namespace Spells

/-- A blank in front changes no word. -/
theorem cons_blank (h : Spells text more) (hc : isBlank c = true) : Spells (c :: text) more := by
  cases h with
  | blank hgap => exact .blank (List.forall_mem_cons.mpr ⟨hc, hgap⟩)
  | word hgap hne hword hrest hmore =>
    rw [← List.cons_append]
    exact .word (List.forall_mem_cons.mpr ⟨hc, hgap⟩) hne hword hrest hmore

/-- A word at the start of a text is the first one that it spells. -/
theorem cons_word (h : Spells rest more) (hne : word ≠ []) (hword : ∀ c ∈ word, isBlank c = false)
    (hrest : ∀ c ∈ rest.head?, isBlank c = true) : Spells (word ++ rest) (word :: more) := by
  rw [← List.nil_append (word ++ rest)]
  exact .word (List.forall_mem_nil _) hne hword hrest h

theorem single (hne : word ≠ []) (hword : ∀ c ∈ word, isBlank c = false) : Spells word [word] := by
  have hend : Spells (word ++ []) [word] :=
    cons_word (.blank (List.forall_mem_nil _)) hne hword fun c hc => nomatch hc
  rwa [List.append_nil] at hend

theorem forall_mem (h : Spells text more) : ∀ w ∈ more, w ≠ [] ∧ ∀ c ∈ w, isBlank c = false := by
  induction h with
  | blank hgap => exact List.forall_mem_nil _
  | word hgap hne hword hrest hmore ih => exact List.forall_mem_cons.mpr ⟨⟨hne, hword⟩, ih⟩

end Spells

/-- An unfinished word goes on in the text behind it. -/
theorem spells_wordsFrom (hword : ∀ c ∈ word, isBlank c = false) (text : List Char) :
    Spells (word.reverse ++ text) (wordsFrom word text) := by
  induction text generalizing word with
  | nil =>
    rw [wordsFrom, List.append_nil]
    split
    · rename_i hnil
      rw [List.isEmpty_iff.mp hnil]
      exact .blank (List.forall_mem_nil _)
    · rename_i hne
      exact .single (by simpa using hne) (by simpa using hword)
  | cons c text ih =>
    rw [wordsFrom]
    split
    · rename_i hblank
      -- the blank ends the word, if one was started
      have htext : Spells (c :: text) (wordsFrom [] text) :=
        (ih (List.forall_mem_nil _)).cons_blank hblank
      split
      · rename_i hnil
        rw [List.isEmpty_iff.mp hnil]
        exact htext
      · rename_i hne
        apply htext.cons_word (by simpa using hne) (by simpa using hword)
        rintro x ⟨⟩
        exact hblank
    · rename_i hletter
      -- the word is kept in reverse, so its next letter goes to the front
      have hnext := ih (List.forall_mem_cons.mpr ⟨eq_false_of_ne_true hletter, hword⟩)
      rw [List.reverse_cons, List.append_assoc] at hnext
      exact hnext

theorem spells_words (text : List Char) : Spells text (words text) :=
  spells_wordsFrom (List.forall_mem_nil _) text

/-! ### Cutting a text at its blanks -/

theorem words_append_of_blank {gap : List Char} (hgap : ∀ c ∈ gap, isBlank c = true)
    (text : List Char) :
    words (gap ++ text) = words text := by
  induction gap with
  | nil => rfl
  | cons c gap ih =>
    obtain ⟨hc, hgap⟩ := List.forall_mem_cons.mp hgap
    rw [List.cons_append, words, wordsFrom, if_pos hc, if_pos List.isEmpty_nil]
    exact ih hgap

theorem wordsFrom_append (hword : ∀ c ∈ word, isBlank c = false) (front text : List Char) :
    wordsFrom front (word ++ text) = wordsFrom (word.reverse ++ front) text := by
  induction word generalizing front with
  | nil => rfl
  | cons c word ih =>
    obtain ⟨hc, hword⟩ := List.forall_mem_cons.mp hword
    rw [List.cons_append, wordsFrom, if_neg (Bool.not_eq_true _ ▸ hc), ih hword, List.reverse_cons,
      List.append_assoc]
    rfl

/-- A word ends where the text ends or a blank follows. -/
theorem wordsFrom_eq_cons (hne : word ≠ []) (hrest : ∀ c ∈ rest.head?, isBlank c = true) :
    wordsFrom word rest = word.reverse :: words rest := by
  have hnot : ¬ word.isEmpty = true := by rwa [List.isEmpty_iff]
  cases rest with
  | nil => rw [wordsFrom, if_neg hnot, words, wordsFrom, if_pos List.isEmpty_nil]
  | cons c rest =>
    have hc : isBlank c = true := hrest c rfl
    rw [wordsFrom, if_pos hc, if_neg hnot, words, wordsFrom, if_pos hc, if_pos List.isEmpty_nil]

/-- The words of a text are those that it spells. -/
theorem words_eq_iff : words text = more ↔ Spells text more := by
  constructor
  · rintro rfl
    exact spells_words text
  · intro h
    -- a gap is passed over, and a word is taken up to the blank behind it or to the end
    induction h with
    | @blank gap hgap =>
      have hwords := words_append_of_blank hgap []
      rwa [List.append_nil] at hwords
    | @word gap word rest more hgap hne hword hrest hmore ih =>
      rw [words_append_of_blank hgap, words, wordsFrom_append hword, List.append_nil,
        wordsFrom_eq_cons (List.reverse_ne_nil_iff.mpr hne) hrest, List.reverse_reverse, ih]

/-! ### Texts without superfluous blanks -/

/-- Words with one space between any two are spelled. -/
theorem spells_intercalate (h : ∀ w ∈ more, w ≠ [] ∧ ∀ c ∈ w, isBlank c = false) :
    Spells ([' '].intercalate more) more := by
  induction more with
  | nil => exact .blank (List.forall_mem_nil _)
  | cons w more ih =>
    obtain ⟨⟨hne, hword⟩, hmore⟩ := List.forall_mem_cons.mp h
    cases more with
    | nil =>
      rw [List.intercalate_singleton]
      exact .single hne hword
    | cons w' more =>
      rw [List.intercalate_cons_cons, List.append_assoc]
      apply ((ih hmore).cons_blank (c := ' ') (by decide)).cons_word hne hword
      rintro x ⟨⟩
      decide

/-- Replacing runs of blanks by one space changes no word. -/
theorem words_squeeze (s : String) : words (squeeze s).toList = words s.toList := by
  rw [words_eq_iff, squeeze, String.toList_intercalate, List.map_map]
  have hid : String.toList ∘ String.ofList = id := funext fun _ => String.toList_ofList
  rw [hid, List.map_id]
  exact spells_intercalate (spells_words s.toList).forall_mem

theorem sameWords_iff {s t : String} : SameWords s t ↔ words s.toList = words t.toList := by
  constructor
  · rintro ⟨more, hs, ht⟩
    rw [words_eq_iff.mpr hs, words_eq_iff.mpr ht]
  · intro h
    exact ⟨words t.toList, words_eq_iff.mp h, spells_words t.toList⟩

/-- Two texts with each run of blanks replaced by one space are the same exactly if they spell the
same words. -/
theorem squeeze_eq_iff {s t : String} : squeeze s = squeeze t ↔ SameWords s t := by
  rw [sameWords_iff]
  constructor
  · intro h
    rw [← words_squeeze s, h, words_squeeze]
  · intro h
    rw [squeeze, h, squeeze]

theorem SameWords.refl (s : String) : SameWords s s := sameWords_iff.mpr rfl

end LengthDisasm.Text
