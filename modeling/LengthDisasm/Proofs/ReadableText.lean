import LengthDisasm.Instruction.Line
import LengthDisasm.Proofs.Divergence
import LengthDisasm.Proofs.TextParts

/-!
# Texts that can be read back

A text is readable if it can be told in front of any other text, and where it ends. Two digits are
readable because there are always two of them, and other numbers because of the character that
follows them. Fields that may be absent are readable in a row if each starts with a mark of its own,
which none of the later fields has.

## Main definitions

* `Text.IsReadable` — a text tells what it stands for and where it ends
* `Text.IsField` — a readable text whose second character is a given mark
* `Text.IsRow` — a text at the end of a line that tells what it stands for, by marks that it can
  start with

## Main results

* `Text.isReadable_hexByte`, `Literal.isReadable_text` — bytes and literals are readable
* `Text.IsRow.optional` — a field that may be absent in front of a row makes a row
-/

namespace LengthDisasm

namespace Text

variable {α β : Type}

/-! ### Readable texts -/

/-- The text tells what it stands for and where it ends, whatever follows it. -/
def IsReadable (text : α → String) : Prop :=
  ∀ a b u v, text a ++ u = text b ++ v → a = b ∧ u = v

theorem IsReadable.comp {text : α → String} (h : IsReadable text) {f : β → α}
    (hf : ∀ x y, f x = f y → x = y) :
    IsReadable fun x => text (f x) := by
  intro x y u v heq
  obtain ⟨hxy, huv⟩ := h _ _ u v heq
  exact ⟨hf x y hxy, huv⟩

/-- What stands in front of a readable text does not matter. -/
theorem IsReadable.append_left {text : α → String} (h : IsReadable text) (front : String) :
    IsReadable fun a => front ++ text a := by
  intro a b u v heq
  rw [String.append_assoc, String.append_assoc, String.append_right_inj] at heq
  exact h a b u v heq

/-- The two digits of a byte are readable. -/
theorem isReadable_hexByte : IsReadable hexByte := by
  intro a b u v heq
  have hlist := congrArg String.toList heq
  simp only [hexByte, String.toList_append, String.toList_ofList, List.cons_append, List.nil_append,
    List.cons.injEq] at hlist
  obtain ⟨hhigh, hlow, hrest⟩ := hlist
  refine ⟨BitVec.eq_of_toNat_eq ?_, String.toList_inj.mp hrest⟩
  have ha := a.isLt
  have hb := b.isLt
  have hquotient := digitChar_inj (by omega) (by omega) hhigh
  have hremainder := digitChar_inj (by omega) (by omega) hlow
  omega

/-- Texts that end at the first occurrence of a character are told apart from what follows. -/
theorem eq_of_append_cons {c : Char} {s t u v : List Char} (hs : c ∉ s) (ht : c ∉ t)
    (h : s ++ c :: u = t ++ c :: v) :
    s = t ∧ u = v := by
  have hsplit := congrArg (splitAt? c) h
  rw [splitAt?_append hs, splitAt?_append ht, Option.some.injEq, Prod.mk.injEq] at hsplit
  exact hsplit

/-- A number is told by its decimal digits. -/
theorem toDigits_ten_injective {m n : Nat} (h : Nat.toDigits 10 m = Nat.toDigits 10 n) : m = n := by
  rw [← Nat.ofDigitChars_ten_toDigits (n := m), h, Nat.ofDigitChars_ten_toDigits]

end Text

/-- A literal is readable: its width ends at the bracket and its value at the next space. -/
theorem Literal.isReadable_text : Text.IsReadable Literal.text := by
  intro l l' u v heq
  have hlist := congrArg String.toList heq
  have hwidth (n : Nat) : '(' ∉ Nat.toDigits 10 n := by
    intro hmem
    exact absurd (Nat.isDigit_of_mem_toDigits (by decide) (by decide) hmem) (by decide)
  have hvalue (n : Nat) : ' ' ∉ Nat.toDigits 16 n :=
    fun hmem => (Text.ne_of_mem_toDigits hmem).1 rfl
  have htext (l : Literal) (u : String) : (l.text ++ u).toList = 'i' :: (Nat.toDigits 10 l.width ++
      '(' :: ('0' :: 'x' :: (Nat.toDigits 16 l.value ++
        ' ' :: ('/' :: ' ' :: ((toString l.signed).toList ++ ')' :: u.toList))))) := by
    simp [text, Text.hexMarked, Text.hex]
  rw [htext, htext, List.cons.injEq] at hlist
  obtain ⟨hdigits, hrest⟩ := Text.eq_of_append_cons (hwidth _) (hwidth _) hlist.2
  rw [List.cons.injEq, List.cons.injEq] at hrest
  obtain ⟨hdigits', -⟩ := Text.eq_of_append_cons (hvalue _) (hvalue _) hrest.2.2
  -- width and value make the literal, and equal texts can be cut off
  obtain rfl : l = l' := by
    cases l
    cases l'
    rw [Literal.mk.injEq]
    exact ⟨Text.toDigits_injective hdigits', Text.toDigits_ten_injective hdigits⟩
  exact ⟨rfl, (String.append_right_inj _).mp heq⟩

namespace Text

variable {α β : Type} {marks : List Char} {mark : Char}

/-! ### Rows of fields -/

/-- A readable text that starts with a space and then with a mark. -/
structure IsField (mark : Char) (text : α → String) : Prop where
  isReadable : IsReadable text
  marked : ∀ a u, (text a ++ u).toList[1]? = some mark

/-- The first letter of its name marks a field. -/
theorem isField_of_name {text : α → String} (h : IsReadable text) {name : String}
    (hname : name.toList.head? = some mark) : IsField mark fun a => " " ++ name ++ text a where
  isReadable := h.append_left _
  marked a u := by
    cases hletters : name.toList with
    | nil =>
      rw [hletters] at hname
      cases hname
    | cons c more =>
      rw [hletters, List.head?_cons] at hname
      rw [String.toList_append, String.toList_append, String.toList_append, hletters, ← hname]
      rfl

/-- The end of a line that tells what it stands for, and starts with a space and then with one of
the marks. -/
structure IsRow (marks : List Char) (text : α → String) : Prop where
  injective : ∀ a b, text a = text b → a = b
  marked : ∀ a, ∃ mark ∈ marks, (text a).toList[1]? = some mark

/-- A field in front of a row is told by its mark from a row that lacks it. -/
theorem IsRow.optional {field : α → String} {rest : β → String} (hfield : IsField mark field)
    (hrest : IsRow marks rest) (hmark : mark ∉ marks) :
    IsRow (mark :: marks) fun x : Option α × β => Instruction.optional field x.1 ++ rest x.2 where
  injective := by
    -- a field that is there on one side only would have the mark of the row on the other side
    have hmissing (a : α) (s t : β) : field a ++ rest s ≠ rest t := by
      intro heq
      obtain ⟨mark', hmem, hsecond⟩ := hrest.marked t
      rw [← heq, hfield.marked, Option.some.injEq] at hsecond
      exact hmark (hsecond ▸ hmem)
    rintro ⟨o, s⟩ ⟨o', t⟩ heq
    dsimp only at heq
    cases o with
    | none =>
      cases o' with
      | none =>
        rw [Instruction.optional, String.empty_append, String.empty_append] at heq
        rw [hrest.injective s t heq]
      | some b =>
        rw [Instruction.optional, Instruction.optional, String.empty_append] at heq
        exact absurd heq.symm (hmissing b t s)
    | some a =>
      cases o' with
      | none =>
        rw [Instruction.optional, Instruction.optional, String.empty_append] at heq
        exact absurd heq (hmissing a s t)
      | some b =>
        obtain ⟨hab, hst⟩ := hfield.isReadable a b _ _ heq
        rw [hab, hrest.injective s t hst]
  marked := by
    rintro ⟨o, s⟩
    cases o with
    | none =>
      obtain ⟨mark', hmem, hsecond⟩ := hrest.marked s
      refine ⟨mark', List.mem_cons_of_mem mark hmem, ?_⟩
      rw [Instruction.optional, String.empty_append]
      exact hsecond
    | some a => exact ⟨mark, List.mem_cons_self, hfield.marked a _⟩

end Text

end LengthDisasm
