import LengthDisasm.Proofs.DecodedLines
import LengthDisasm.Proofs.Numerals

/-!
# Lines that can stand in a golden file

The line of a decode result is plain: it is one line, starts no comment, and has no blanks at its
ends. So it can be written as the expected text of a case. Only the line of a failed decode starts
like an error.

## Main definitions

* `Text.isInk` — a character that is seen and starts no comment
* `Text.isPlain` — such a character or a space

## Main results

* `InsnFlags.isInk_text` — the text of flags has no blanks, whatever bits are set
* `isPlain_decodedLine`, `isTrimmed_decodedLine` — the line of a decode result is plain
* `isError_decodedLine_iff` — a line that starts like an error is that of a failed decode
-/

namespace LengthDisasm

namespace Text

/-- The character is seen and starts no comment. -/
def isInk (c : Char) : Bool := !isBlank c && c != '#'

/-- The character is a space, or it is seen and starts no comment. -/
def isPlain (c : Char) : Bool := c == ' ' || isInk c

theorem isBlank_of_isInk {c : Char} (h : isInk c = true) : isBlank c = false := by
  rw [isInk, Bool.and_eq_true, Bool.not_eq_true'] at h
  exact h.1

theorem isPlain_of_isInk {c : Char} (h : isInk c = true) : isPlain c = true := by
  rw [isPlain, h, Bool.or_true]

theorem all_isPlain_of_isInk {text : List Char} (h : text.all isInk = true) :
    text.all isPlain = true :=
  List.all_eq_true.mpr fun c hc => isPlain_of_isInk (List.all_eq_true.mp h c hc)

theorem isInk_of_isHexDigit {c : Char} (h : isHexDigit c = true) : isInk c = true := by
  have hsign : c ≠ '#' := by
    rintro rfl
    exact absurd h (by decide)
  rw [isInk, isBlank_of_isHexDigit h, Bool.not_false, Bool.true_and, bne_iff_ne]
  exact hsign

theorem all_append {p : Char → Bool} {s t : String} (hs : s.toList.all p = true)
    (ht : t.toList.all p = true) :
    (s ++ t).toList.all p = true := by
  rw [String.toList_append, List.all_append, hs, ht]
  rfl

/-! ### Numbers -/

theorem isInk_digitChar {d : Nat} (h : d < 16) : isInk (Nat.digitChar d) = true :=
  isInk_of_isHexDigit (isHexDigit_digitChar h false)

theorem isInk_hexByte (b : Byte) : (hexByte b).toList.all isInk = true := by
  have hb := b.isLt
  rw [hexByte, String.toList_ofList, List.all_cons, List.all_cons, isInk_digitChar (by omega),
    isInk_digitChar (by omega)]
  rfl

theorem isInk_hexMarked (n : Nat) : (hexMarked n).toList.all isInk = true := by
  have hdigits : (hex n).toList.all isInk = true := by
    rw [hex, String.toList_ofList, List.all_eq_true]
    intro c hc
    obtain ⟨d, hd, rfl⟩ := exists_digit_of_mem_toDigits hc
    exact isInk_digitChar hd
  exact all_append (by decide) hdigits

theorem isHexDigit_of_isDigit {c : Char} (h : c.isDigit = true) : isHexDigit c = true := by
  rw [Char.isDigit, Bool.and_eq_true, decide_eq_true_eq, decide_eq_true_eq] at h
  have hupper : c.toNat ≤ 57 := h.2
  have hvalue : digitValue? 16 c = some (c.toNat - '0'.toNat) := by
    rw [digitValue?, if_pos (show '0' ≤ c ∧ c ≤ '9' from h), Option.filter_some, if_pos]
    exact decide_eq_true (Nat.lt_of_le_of_lt (Nat.sub_le_sub_right hupper _) (by decide))
  rw [isHexDigit, hvalue, Option.isSome_some]

theorem isInk_repr (n : Nat) : n.repr.toList.all isInk = true := by
  rw [Nat.toList_repr, List.all_eq_true]
  intro c hc
  exact isInk_of_isHexDigit
    (isHexDigit_of_isDigit (Nat.isDigit_of_mem_toDigits (by decide) (by decide) hc))

theorem isInk_toString_int (n : Int) : (toString n).toList.all isInk = true := by
  cases n with
  | ofNat n => exact isInk_repr n
  | negSucc n =>
    have htext : toString (Int.negSucc n) = "-" ++ (n + 1).repr := rfl
    rw [htext]
    exact all_append (by decide) (isInk_repr (n + 1))

/-! ### Texts from parts -/

theorem all_optional {α : Type} {p : Char → Bool} {text : α → String}
    (h : ∀ a, (text a).toList.all p = true)
    (o : Option α) : (Instruction.optional text o).toList.all p = true := by
  cases o with
  | none => rfl
  | some a => exact h a

theorem all_intercalate {p : Char → Bool} {sep : List Char} {parts : List (List Char)}
    (hsep : sep.all p = true)
    (h : ∀ part ∈ parts, part.all p = true) : (sep.intercalate parts).all p = true := by
  induction parts with
  | nil => rfl
  | cons part parts ih =>
    obtain ⟨hpart, hparts⟩ := List.forall_mem_cons.mp h
    cases parts with
    | nil => rwa [List.intercalate_singleton]
    | cons part' parts =>
      rw [List.intercalate_cons_cons, List.all_append, List.all_append, hpart, hsep, ih hparts]
      rfl

end Text

open Text

/-! ### The parts of a line -/

theorem Literal.isPlain_text (l : Literal) : l.text.toList.all isPlain = true := by
  have hwidth := all_isPlain_of_isInk (isInk_repr l.width)
  have hvalue := all_isPlain_of_isInk (isInk_hexMarked l.value)
  have hsigned := all_isPlain_of_isInk (isInk_toString_int l.signed)
  exact all_append
    (all_append (all_append (all_append (all_append (all_append (by decide) hwidth) (by decide))
    hvalue) (by decide)) hsigned) (by decide)

/-- Neither the names of flags nor the value of bits without a name have blanks in them. -/
theorem InsnFlags.isInk_text (f : InsnFlags) : f.text.toList.all isInk = true := by
  have hnames : ∀ entry ∈ names.entries, entry.2.toList.all isInk = true := by decide
  rw [text, BitNames.describe]
  split
  · decide
  · rw [String.toList_intercalate]
    apply all_intercalate (by decide)
    rw [List.forall_mem_map, List.forall_mem_append]
    refine ⟨?_, ?_⟩
    · -- a name that is shown stands in the table
      intro name hname
      obtain ⟨bit, -, hbit⟩ := List.mem_filterMap.mp hname
      exact hnames _ (BitNames.mem_entries_of_nameOf? hbit)
    · split
      · exact List.forall_mem_nil _
      · rw [List.forall_mem_singleton]
        exact all_append (all_append (by decide) (isInk_hexMarked _)) (by decide)

namespace Instruction

theorem isPlain_line (i : Instruction) : (i.line .plain).toList.all isPlain = true := by
  have hbyte {α : Type} (name : String) (hname : (" " ++ name).toList.all isPlain = true)
      (byte : α → Byte) (o : Option α) :
      (optional (fun a => " " ++ name ++ hexByte (byte a)) o).toList.all isPlain = true :=
    all_optional (fun a => all_append hname (all_isPlain_of_isInk (isInk_hexByte (byte a)))) o
  have hliteral (name : String) (hname : (" " ++ name).toList.all isPlain = true)
      (o : Option Literal) :
      (optional (fun l : Literal => " " ++ name ++ l.text) o).toList.all isPlain = true :=
    all_optional (fun l => all_append hname l.isPlain_text) o
  have hfirst := all_isPlain_of_isInk (isInk_hexByte i.opcode.first)
  have hsecond := hbyte "op2=" (by decide) (fun b => b) i.opcode.second?
  have hrex := hbyte "rex=" (by decide) Rex.byte i.rex
  have hmodrm := hbyte "modrm=" (by decide) ModRM.byte i.modrm
  have hsib := hbyte "sib=" (by decide) Sib.byte i.sib
  have hdisp := hliteral "disp=" (by decide) i.disp
  have himm := hliteral "imm=" (by decide) i.imm
  have hflags := all_append (s := " flags=") (by decide) (all_isPlain_of_isInk i.flags.isInk_text)
  -- the fields in the order of the line
  rw [line_plain, fields, fieldsText]
  exact all_append (by decide)
    (all_append hfirst (all_append hsecond (all_append hrex (all_append hmodrm
    (all_append hsib (all_append hdisp (all_append himm hflags)))))))

/-- The line of an instruction starts with the name of its first field and ends in a word, the one
for its flags. -/
theorem isTrimmed_line (i : Instruction) : IsTrimmed (i.line .plain).toList where
  head := by
    rw [line_plain, String.toList_append]
    rintro x ⟨⟩
    decide
  last := by
    -- the name of the field is there even if no flag were named
    have hword : ("flags=" ++ i.flags.text).toList.all isInk = true :=
      all_append (by decide) i.flags.isInk_text
    have hne : ("flags=" ++ i.flags.text).toList ≠ [] := by
      rw [String.toList_append]
      exact List.cons_ne_nil _ _
    rw [line, Theme.wrap_plain .flags, Theme.wrap_plain .fieldName "flags=", String.append_assoc,
      String.toList_append]
    refine forall_getLast?_append hne (fun x hx => ?_) _
    exact isBlank_of_isInk (List.all_eq_true.mp hword x (List.mem_of_getLast? hx))

end Instruction

/-! ### The line of a decode result -/

variable (r : Except DecodeError Instruction)

theorem isPlain_decodedLine : (decodedLine r).toList.all isPlain = true := by
  cases r with
  | ok i => exact i.isPlain_line
  | error e =>
    rw [decodedLine, DecodeError.line, Theme.wrap_plain]
    cases e <;> decide

theorem isTrimmed_decodedLine : IsTrimmed (decodedLine r).toList := by
  cases r with
  | ok i => exact i.isTrimmed_line
  | error e =>
    rw [decodedLine, DecodeError.line, Theme.wrap_plain]
    cases e <;> decide

/-- The line of a decode result is one line and starts no comment. -/
theorem not_mem_decodedLine : '#' ∉ (decodedLine r).toList ∧ '\n' ∉ (decodedLine r).toList := by
  have hplain (c : Char) (hc : c ∈ (decodedLine r).toList) : isPlain c = true :=
    List.all_eq_true.mp (isPlain_decodedLine r) c hc
  exact ⟨fun hmem => absurd (hplain _ hmem) (by decide),
    fun hmem => absurd (hplain _ hmem) (by decide)⟩

/-- Only the line of a failed decode starts like an error. -/
theorem isError_decodedLine_iff :
    "error:".toList <+: (decodedLine r).toList ↔ ∃ e, r = .error e := by
  cases r with
  | ok i =>
    refine ⟨fun h => ?_, fun ⟨e, he⟩ => nomatch he⟩
    rw [decodedLine, Instruction.line_plain, String.toList_append] at h
    exact absurd (List.cons_prefix_cons.mp h).1 (by decide)
  | error e =>
    refine ⟨fun _ => ⟨e, rfl⟩, fun _ => ?_⟩
    rw [decodedLine, DecodeError.line, Theme.wrap_plain, String.toList_append]
    exact (List.prefix_append "error:".toList [' ']).trans (List.prefix_append _ _)

end LengthDisasm
