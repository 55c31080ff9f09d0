import LengthDisasm.Proofs.CompactRecords
import LengthDisasm.Proofs.FlagNames
import LengthDisasm.Proofs.ReadableText

/-!
# A line tells what was decoded

The line of an instruction has its fields in a fixed order, those that are absent left out, and the
names of its flags at the end. Each field has a name with a first letter of its own, so that the
line is a row of fields that can be read back. Two things are not in it. The length is lost. The
flag that says that there are no prefixes is not shown, but it is set exactly if no flag of a legacy
prefix is.

## Main definitions

* `Opcode.second?` — the second byte of an opcode that has two
* `Instruction.fields` — what a line shows after the first byte of the opcode

## Main results

* `Instruction.isRow_fields` — the fields of a line can be read back
* `Parse.flags_eq_of_text_eq` — the names of the flags tell the flags, also the one that is not
  shown
* `decodedLine_eq_iff` — decode results have one line if they are the same apart from the length
-/

namespace LengthDisasm

open Text

/-! ### The fields of a line -/

@[simp] theorem Theme.wrap_plain (style : Style) (piece : String) :
    Theme.plain.wrap style piece = piece := by
  simp [wrap, plain]

/-- The second byte of an opcode that has two. -/
def Opcode.second? : Opcode → Option Byte
  | primary _ => none
  | escaped b => some b

/-- An opcode is told by its first byte and the second one, if it has two. -/
theorem Opcode.eq_of_bytes {o o' : Opcode} (hfirst : o.first = o'.first)
    (hsecond : o.second? = o'.second?) :
    o = o' := by
  cases o with
  | primary b =>
    cases o' with
    | primary b' => exact congrArg primary hfirst
    | escaped b' => cases hsecond
  | escaped b =>
    cases o' with
    | primary b' => cases hsecond
    | escaped b' => exact congrArg escaped (Option.some.inj hsecond)

namespace Instruction

/-- The fields of a line, each of which may be absent, and the text of the flags. -/
abbrev Fields :=
  Option Byte × Option Rex × Option ModRM × Option Sib × Option Literal × Option Literal × String

/-- What a line shows after the first byte of the opcode. -/
def fields (i : Instruction) : Fields :=
  (i.opcode.second?, i.rex, i.modrm, i.sib, i.disp, i.imm, i.flags.text)

/-- The text of the fields. -/
def fieldsText : Fields → String
  | (second, rex, modrm, sib, disp, imm, flags) =>
    optional (fun b => " " ++ "op2=" ++ hexByte b) second ++
      (optional (fun r : Rex => " " ++ "rex=" ++ hexByte r.byte) rex ++
        (optional (fun m : ModRM => " " ++ "modrm=" ++ hexByte m.byte) modrm ++
          (optional (fun s : Sib => " " ++ "sib=" ++ hexByte s.byte) sib ++
            (optional (fun l : Literal => " " ++ "disp=" ++ l.text) disp ++
              (optional (fun l : Literal => " " ++ "imm=" ++ l.text) imm ++
                (" flags=" ++ flags))))))

theorem line_plain (i : Instruction) :
    i.line .plain = "op=" ++ (hexByte i.opcode.first ++ fieldsText i.fields) := by
  have hsecond :
      (if i.opcode.isEscaped then byteField .plain .opcode "op2=" i.opcode.second else "") =
      optional (fun b => " " ++ "op2=" ++ hexByte b) i.opcode.second? := by
    cases i.opcode with
    | primary b => rfl
    | escaped b => simp [Opcode.isEscaped, Opcode.second, Opcode.second?, byteField, optional]
  have hliteral (style : Style) (name : String) :
      literalField .plain style name = fun l => " " ++ name ++ l.text := by
    funext l
    simp [literalField]
  rw [line, hsecond, hliteral, hliteral, fields, fieldsText]
  simp only [Theme.wrap_plain, byteField, String.append_assoc]
  rfl

/-- The fields can be read back. -/
theorem isRow_fields : IsRow ['o', 'r', 'm', 's', 'd', 'i', 'f'] fieldsText := by
  have hflags : IsRow ['f'] fun flags : String => " flags=" ++ flags := by
    refine ⟨fun s t heq => (String.append_right_inj _).mp heq, fun s => ⟨'f', List.mem_cons_self,
      ?_⟩⟩
    rw [String.toList_append]
    rfl
  have himm : IsField 'i' fun l : Literal => " " ++ "imm=" ++ l.text :=
    isField_of_name Literal.isReadable_text rfl
  have hdisp : IsField 'd' fun l : Literal => " " ++ "disp=" ++ l.text :=
    isField_of_name Literal.isReadable_text rfl
  have hsib : IsField 's' fun s : Sib => " " ++ "sib=" ++ hexByte s.byte :=
    isField_of_name (isReadable_hexByte.comp fun _ _ => congrArg Sib.mk) rfl
  have hmodrm : IsField 'm' fun m : ModRM => " " ++ "modrm=" ++ hexByte m.byte :=
    isField_of_name (isReadable_hexByte.comp fun _ _ => congrArg ModRM.mk) rfl
  have hrex : IsField 'r' fun r : Rex => " " ++ "rex=" ++ hexByte r.byte :=
    isField_of_name (isReadable_hexByte.comp fun _ _ => congrArg Rex.mk) rfl
  have hsecond : IsField 'o' fun b : Byte => " " ++ "op2=" ++ hexByte b :=
    isField_of_name isReadable_hexByte rfl
  -- from the end of the line to its front, each mark is new
  have hrow := IsRow.optional himm hflags (by decide)
  have hrow := IsRow.optional hdisp hrow (by decide)
  have hrow := IsRow.optional hsib hrow (by decide)
  have hrow := IsRow.optional hmodrm hrow (by decide)
  have hrow := IsRow.optional hrex hrow (by decide)
  exact IsRow.optional hsecond hrow (by decide)

/-- A line tells the fields of its instruction. -/
theorem eq_of_line_eq {i j : Instruction} (h : i.line .plain = j.line .plain) :
    i.opcode = j.opcode ∧ i.fields = j.fields := by
  rw [line_plain, line_plain, String.append_right_inj] at h
  obtain ⟨hfirst, hrest⟩ := isReadable_hexByte _ _ _ _ h
  have hfields := isRow_fields.injective _ _ hrest
  exact ⟨Opcode.eq_of_bytes hfirst (congrArg Prod.fst hfields), hfields⟩

end Instruction

/-! ### The flag that is not shown -/

namespace Parse

variable {mode : Mode} {p q : Parse mode}

/-- The flag that is not shown is set exactly if no flag of a legacy prefix is. -/
theorem contains_unprefixed_iff (p : Parse mode) :
    p.instruction.flags.contains (.ofPrefix .unprefixed) = true ↔
    ∀ x, x ≠ .unprefixed → x ≠ .rex → p.instruction.flags.contains (.ofPrefix x) = false := by
  have hflag {x : Prefix} (hx : x ≠ .rex) :
      p.instruction.flags.contains (.ofPrefix x) = (PrefixSet.ofRun p.run).contains x := by
    rw [← InsnFlags.contains_prefixes]
    exact p.contains_prefixes_of_ne hx
  rw [hflag (by decide), PrefixSet.contains_unprefixed_ofRun_iff]
  constructor
  · intro hnone x hx hrex
    rw [hflag hrex, hnone x hx]
  · intro hnone x hx
    by_cases hrex : x = .rex
    · rw [hrex, PrefixSet.contains_eq_getLsbD]
      exact PrefixSet.getLsbD_rex_ofRun p.run
    · rw [← hflag hrex, hnone x hx hrex]

/-- The names of the flags tell the flags. -/
theorem flags_eq_of_text_eq (h : p.instruction.flags.text = q.instruction.flags.text) :
    p.instruction.flags = q.instruction.flags := by
  have hshown {k : Nat} (hk : k ≠ 10) :
      p.instruction.flags.bits.getLsbD k = q.instruction.flags.bits.getLsbD k :=
    InsnFlags.getLsbD_eq_of_text_eq p.isPlain_flags.only q.isPlain_flags.only h hk
  have hflag {x : Prefix} (hx : x ≠ .unprefixed) :
      p.instruction.flags.contains (.ofPrefix x) = q.instruction.flags.contains (.ofPrefix x) := by
    rw [InsnFlags.contains_ofPrefix, InsnFlags.contains_ofPrefix]
    apply hshown
    intro hten
    have hposition : x.position = 0 := by omega
    exact hx (Prefix.position_injective hposition)
  apply InsnFlags.ext_getLsbD
  intro k _
  by_cases hk : k = 10
  · have hten (f : InsnFlags) : f.bits.getLsbD 10 = f.contains (.ofPrefix .unprefixed) :=
      (f.contains_ofPrefix .unprefixed).symm
    rw [hk, hten, hten, Bool.eq_iff_iff, p.contains_unprefixed_iff, q.contains_unprefixed_iff]
    refine forall_congr' fun x => ⟨fun hx hne => ?_, fun hx hne => ?_⟩
    · rw [← hflag hne]
      exact hx hne
    · rw [hflag hne]
      exact hx hne
  · exact hshown hk

/-- A line tells the instruction apart from its length. -/
theorem eq_withLength_of_line_eq (h : p.instruction.line .plain = q.instruction.line .plain) :
    q.instruction = { p.instruction with length := q.instruction.length } := by
  obtain ⟨hopcode, hfields⟩ := Instruction.eq_of_line_eq h
  simp only [Instruction.fields, Prod.mk.injEq] at hfields
  obtain ⟨-, hrex, hmodrm, hsib, hdisp, himm, hflags⟩ := hfields
  exact Instruction.ext (flags_eq_of_text_eq hflags).symm rfl hopcode.symm hrex.symm hmodrm.symm
    hsib.symm hdisp.symm himm.symm

end Parse

/-! ### Lines of decode results -/

theorem DecodeError.eq_of_line_eq {e e' : DecodeError} (h : e.line .plain = e'.line .plain) :
    e = e' := by
  by_contra hne
  rw [line, line, Theme.wrap_plain, Theme.wrap_plain] at h
  exact ((Presentation.parts_message hne).append_left "error: ") "" "" (by rw [h])

/-- The line of an error is not that of an instruction. -/
theorem DecodeError.line_ne (e : DecodeError) (i : Instruction) :
    e.line .plain ≠ i.line .plain := by
  intro h
  rw [line, Theme.wrap_plain, i.line_plain] at h
  have hfirst := congrArg (fun text => text.toList.head?) h
  simp at hfirst

/-- Two results of decoding in one mode have the same line exactly if they are the same error, or
instructions that agree in all but the length. -/
theorem decodedLine_eq_iff (mode : Mode) (code code' : List Byte) :
    decodedLine (decode mode code) = decodedLine (decode mode code') ↔
      (∃ e, decode mode code = .error e ∧ decode mode code' = .error e) ∨
      ∃ i j, decode mode code = .ok i ∧ decode mode code' = .ok j ∧
        j = { i with length := j.length } := by
  constructor
  · intro h
    cases hr : decode mode code with
    | error e =>
      cases hs : decode mode code' with
      | error e' =>
        rw [hr, hs] at h
        exact .inl ⟨e, rfl, by rw [DecodeError.eq_of_line_eq h]⟩
      | ok j =>
        rw [hr, hs] at h
        exact absurd h (e.line_ne j)
    | ok i =>
      cases hs : decode mode code' with
      | error e' =>
        rw [hr, hs] at h
        exact absurd h.symm (e'.line_ne i)
      | ok j =>
        rw [hr, hs] at h
        obtain ⟨p, rfl, -, -⟩ := exists_parse_of_decode hr
        obtain ⟨q, rfl, -, -⟩ := exists_parse_of_decode hs
        exact .inr ⟨_, _, rfl, rfl, Parse.eq_withLength_of_line_eq h⟩
  · rintro (⟨e, hr, hs⟩ | ⟨i, j, hr, hs, hj⟩)
    · rw [hr, hs]
    · -- no field of a line depends on the length
      rw [hr, hs, hj]
      rfl

/-- One prefix and the same prefix twice: the lines are the same, and only the length differs. -/
theorem decodedLine_eq_iff_repeated : ∃ i j, decode .long64 [0x66, 0x05, 1, 2] = .ok i ∧
    decode .long64 [0x66, 0x66, 0x05, 1, 2] = .ok j ∧ i.length = 4 ∧ j.length = 5 ∧
    decodedLine (.ok i) = decodedLine (.ok j) ∧ j = { i with length := 5 } := by
  obtain ⟨i, j, hi, hj, hlength, hlength', hline⟩ :
      ∃ i j, decode .long64 [0x66, 0x05, 1, 2] = .ok i ∧
      decode .long64 [0x66, 0x66, 0x05, 1, 2] = .ok j ∧ i.length = 4 ∧ j.length = 5 ∧
      decodedLine (.ok i) = decodedLine (.ok j) := ⟨_, _, rfl, rfl, rfl, rfl, rfl⟩
  refine ⟨i, j, hi, hj, hlength, hlength', hline, ?_⟩
  have hsame :=
    (decodedLine_eq_iff .long64 [0x66, 0x05, 1, 2] [0x66, 0x66, 0x05, 1, 2]).mp
      (by rw [hi, hj, hline])
  rcases hsame with ⟨e, he, -⟩ | ⟨i', j', hi', hj', hrest⟩
  · rw [hi] at he
    cases he
  · rw [hi] at hi'
    cases hi'
    rw [hj] at hj'
    cases hj'
    rwa [hlength'] at hrest

end LengthDisasm
