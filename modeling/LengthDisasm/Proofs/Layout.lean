import Mathlib.Data.List.Basic
import LengthDisasm.Proofs.Parse
import LengthDisasm.Proofs.PrefixRuns

/-!
# The layout of an instruction

A decoded instruction keeps the bytes that it was decoded from. They are the run of prefixes, the
REX byte, the opcode, the ModRM byte, the SIB byte and the literals, each of which is there if the
flags say so. A displacement stands before an immediate. Far pointers have the offset first, which
is kept as the immediate, and then the selector, which is kept as the displacement; and of the two
immediates of ENTER only the second is kept.

## Main definitions

* `Literal.bytesOf` — the bytes of a literal that may be absent
* `Instruction.EndsWith` — the bytes that the literals of an instruction stand for

## Main results

* `Parse.endsWith` — the literals of a parse are those of its instruction
* `decode_lossless` — the bytes of an instruction from its fields
-/

namespace LengthDisasm

/-- The little-endian bytes of a literal, none if it is absent. -/
def Literal.bytesOf : Option Literal → List Byte
  | some l => l.bytes
  | none => []

namespace Instruction

/-- The opcode of a far pointer in 32-bit mode. -/
def IsFarPointer (mode : Mode) (i : Instruction) : Prop :=
  mode = .protected32 ∧ (i.opcode = .primary 0x9a ∨ i.opcode = .primary 0xea)

instance (mode : Mode) (i : Instruction) : Decidable (i.IsFarPointer mode) :=
  inferInstanceAs (Decidable (_ ∧ _))

/-- The instruction is ENTER. -/
def IsEnter (i : Instruction) : Prop := i.opcode = .primary 0xc8

instance (i : Instruction) : Decidable i.IsEnter := inferInstanceAs (Decidable (_ = _))

/-- The bytes after the opcode and the addressing bytes: the displacement and the immediate. A far
pointer has them the other way round, and ENTER has two bytes before the immediate that is kept. -/
def EndsWith (mode : Mode) (i : Instruction) (tail : List Byte) : Prop :=
  if i.IsFarPointer mode then tail = Literal.bytesOf i.imm ++ Literal.bytesOf i.disp
  else if i.IsEnter then
    ∃ frame : List Byte, frame.length = 2 ∧ tail = frame ++ Literal.bytesOf i.imm
  else tail = Literal.bytesOf i.disp ++ Literal.bytesOf i.imm

end Instruction

/-! ### Opcodes with two immediates

The opcode maps are data, so what they say about all opcodes is computed. -/

theorem OpcodeMap.primary_immediates (mode : Mode) (b : Byte) :
    ((OpcodeMap.primary mode).get? b).all (fun form =>
      decide (form.immediates = .wordByte ↔ b = 0xc8) &&
      decide (form.immediates = .farPointer ↔ mode = .protected32 ∧ (b = 0x9a ∨ b = 0xea)) &&
      decide (form.hasModRM = true → form.immediates ≠ .wordByte ∧ form.immediates ≠ .farPointer)) =
      true := by
  revert b
  cases mode <;> decide +kernel

theorem OpcodeMap.secondary_immediates (b : Byte) :
    (OpcodeMap.secondary.get? b).all (fun form =>
      decide (form.immediates ≠ .wordByte ∧ form.immediates ≠ .farPointer)) = true := by
  revert b
  decide +kernel

/-- Only ENTER and far pointers have two immediates, and neither has a ModRM byte. -/
theorem Mode.immediates_of_form? {mode : Mode} {o : Opcode} {form : Form}
    (h : mode.form? o = some form) :
    (form.immediates = .wordByte ↔ o = .primary 0xc8) ∧
      (form.immediates = .farPointer ↔
        mode = .protected32 ∧ (o = .primary 0x9a ∨ o = .primary 0xea)) ∧
      (form.hasModRM = true → form.immediates ≠ .wordByte ∧ form.immediates ≠ .farPointer) := by
  cases o with
  | primary b =>
    have hall := OpcodeMap.primary_immediates mode b
    rw [show (OpcodeMap.primary mode).get? b = some form from h] at hall
    simp only [Option.all_some, Bool.and_eq_true, decide_eq_true_eq] at hall
    obtain ⟨⟨henter, hfar⟩, hmodrm⟩ := hall
    exact ⟨by simpa using henter, by simpa using hfar, hmodrm⟩
  | escaped b =>
    have hall := OpcodeMap.secondary_immediates b
    rw [show OpcodeMap.secondary.get? b = some form from h] at hall
    simp only [Option.all_some, decide_eq_true_eq] at hall
    exact ⟨by simp [hall.1], by simp [hall.2], fun _ => hall⟩

/-! ### Literals in slots -/

namespace Slot

/-- At most a displacement and then an immediate. -/
def isOrdered : List Slot → Bool
  | [] => true
  | [_] => true
  | [s, s'] => s.isDisp && !s'.isDisp
  | _ => false

/-- Literals that are read in this order are kept in this order. -/
theorem bytes_of_isOrdered {slots : List Slot} {literals : List Literal} {i : Instruction}
    (hordered : isOrdered slots = true) (hlen : literals.length = slots.length)
    (hdisp : i.disp = none) (himm : i.imm = none) :
    literals.flatMap Literal.bytes = Literal.bytesOf (storeAll slots literals i).disp ++
      Literal.bytesOf (storeAll slots literals i).imm := by
  match slots, literals, hlen with
  | [], [], _ => simp [storeAll, hdisp, himm, Literal.bytesOf]
  | [s], [l], _ => cases hs : s.isDisp <;> simp [storeAll, store, hs, hdisp, himm, Literal.bytesOf]
  | [s, s'], [l, l'], _ =>
    simp only [isOrdered, Bool.and_eq_true, Bool.not_eq_true'] at hordered
    simp [storeAll, store, hordered.1, hordered.2, Literal.bytesOf]

theorem displacement_cases (addr16 : Bool) (form : BitVec 2) (rm : BitVec 3) (sib : Option Sib) :
    displacement addr16 form rm sib = [] ∨
      ∃ s, displacement addr16 form rm sib = [s] ∧ s.isDisp = true := by
  unfold displacement
  dsimp only
  split_ifs <;> simp

end Slot

/-- Other immediates than those of ENTER and of far pointers take one literal at most. -/
theorem Immediates.slots_cases (mode : Mode) (operand16 operand64 : Bool) (immediates : Immediates)
    (henter : immediates ≠ .wordByte) (hfar : immediates ≠ .farPointer) :
    immediates.slots mode operand16 operand64 = [] ∨
      ∃ s, immediates.slots mode operand16 operand64 = [s] ∧ s.isDisp = false := by
  cases immediates with
  | none => exact .inl rfl
  | byte | word | short => exact .inr ⟨_, rfl, rfl⟩
  | wordByte => exact absurd rfl henter
  | farPointer => exact absurd rfl hfar
  | operand | near =>
    right
    simp only [Immediates.slots]
    split_ifs <;> exact ⟨_, rfl, rfl⟩

theorem Form.immediatesWith_cases (form : Form) (o : Opcode) (reg : BitVec 3) :
    form.immediatesWith o reg = form.immediates ∨ form.immediatesWith o reg = .byte ∨
      form.immediatesWith o reg = .operand := by
  unfold Form.immediatesWith
  split_ifs <;> simp

/-- With a ModRM byte the displacement stands before the immediate. -/
theorem Head.isOrdered_operandSlots {mode : Mode} {h : Head} {form : Form}
    (hform : mode.form? h.opcode = some form) (hmodrm : form.hasModRM = true) (m : ModRM)
    (sib : Option Sib) : Slot.isOrdered (h.operandSlots mode form m sib) = true := by
  obtain ⟨henter, hfar⟩ := (Mode.immediates_of_form? hform).2.2 hmodrm
  have himm : form.immediatesWith h.opcode m.reg ≠ .wordByte ∧
      form.immediatesWith h.opcode m.reg ≠ .farPointer := by
    rcases form.immediatesWith_cases h.opcode m.reg with heq | heq | heq <;>
      simp [heq, henter, hfar]
  rcases Slot.displacement_cases (h.prefixes.contains .addrSize)
    (h.opcode.ruling.addressingForm m) m.rm sib with hd | ⟨s, hd, hs⟩ <;>
  rcases Immediates.slots_cases mode h.operand16 h.operand64 _ himm.1 himm.2 with hi | ⟨s',
    hi, hs'⟩ <;>
  simp_all [Head.operandSlots, Slot.isOrdered]

/-! ### Fields that literals do not change -/

namespace Slot

/-- The fields of an instruction apart from flags, length and literals. -/
def fixedFields (i : Instruction) : Opcode × Option Rex × Option ModRM × Option Sib :=
  (i.opcode, i.rex, i.modrm, i.sib)

theorem fixedFields_store (s : Slot) (l : Literal) (i : Instruction) :
    fixedFields (s.store l i) = fixedFields i := by
  unfold store
  split <;> rfl

theorem fixedFields_storeAll (slots : List Slot) (literals : List Literal) (i : Instruction) :
    fixedFields (storeAll slots literals i) = fixedFields i := by
  fun_induction storeAll slots literals i with
  | case1 s slots l literals i ih => rw [ih, fixedFields_store]
  | case2 => rfl

/-- The flags that slots can set. -/
def flagMask : BitVec 32 := 0x3fc

theorem flags_store (s : Slot) (l : Literal) (i : Instruction) :
    (s.store l i).flags = i.flags ||| s.flags := by
  unfold store
  split <;> rfl

theorem getLsbD_flags_store {s : Slot} {k : Nat} (hs : s.flags.bits.getLsbD k = false) (l : Literal)
    (i : Instruction) : (s.store l i).flags.bits.getLsbD k = i.flags.bits.getLsbD k := by
  have hor : (i.flags ||| s.flags).bits = i.flags.bits ||| s.flags.bits := rfl
  rw [flags_store, hor, BitVec.getLsbD_or, hs, Bool.or_false]

/-- A flag that no slot sets stays as it is. -/
theorem getLsbD_flags_storeAll {k : Nat} {slots : List Slot} {literals : List Literal}
    {i : Instruction} (hslots : ∀ s ∈ slots, s.flags.bits.getLsbD k = false) :
    (storeAll slots literals i).flags.bits.getLsbD k = i.flags.bits.getLsbD k := by
  fun_induction storeAll slots literals i with
  | case1 s slots l literals i ih =>
    rw [ih fun s' hs' => hslots s' (List.mem_cons_of_mem s hs'),
      getLsbD_flags_store (hslots s List.mem_cons_self)]
  | case2 => rfl

theorem flags_displacement {addr16 : Bool} {form : BitVec 2} {rm : BitVec 3} {sib : Option Sib}
    {s : Slot} (hs : s ∈ displacement addr16 form rm sib) :
    s.flags.bits &&& ~~~flagMask = 0#32 := by
  unfold displacement at hs
  dsimp only at hs
  split_ifs at hs <;> simp at hs <;> subst hs <;> decide

end Slot

theorem Immediates.flags_slots {mode : Mode} {operand16 operand64 : Bool} {immediates : Immediates}
    {s : Slot} (hs : s ∈ immediates.slots mode operand16 operand64) :
    s.flags.bits &&& ~~~Slot.flagMask = 0#32 := by
  revert s
  cases immediates <;> cases mode <;> cases operand16 <;> cases operand64 <;> decide

theorem Head.flags_slots {mode : Mode} {h : Head} {form : Form} {addressing : Addressing} {s : Slot}
    (hs : s ∈ h.slots mode form addressing) : s.flags.bits &&& ~~~Slot.flagMask = 0#32 := by
  cases addressing with
  | none => exact Immediates.flags_slots hs
  | modrm m | sib m s' =>
    rcases List.mem_append.mp hs with hs | hs
    · exact Slot.flags_displacement hs
    · exact Immediates.flags_slots hs

/-- The flags outside of `Slot.flagMask` are those that the head and the addressing bytes set. -/
theorem Parse.getLsbD_flags {mode : Mode} (p : Parse mode) {k : Nat}
    (hk : (~~~Slot.flagMask).getLsbD k = true) :
    p.instruction.flags.bits.getLsbD k =
      (p.head.withAddressing p.addressing).flags.bits.getLsbD k := by
  refine Slot.getLsbD_flags_storeAll fun s hs => ?_
  have hbit := congrArg (BitVec.getLsbD · k) (Head.flags_slots hs)
  simpa only [BitVec.getLsbD_and, hk, Bool.and_true, BitVec.getLsbD_zero] using hbit

/-! ### Flags that announce a part -/

namespace InsnFlags

/-- A flag of one bit is contained if its bit is set. -/
theorem contains_twoPow (f : InsnFlags) (k : Nat) (hk : k < 32) :
    f.contains ⟨BitVec.twoPow 32 k⟩ = f.bits.getLsbD k := by
  have hne : 0#32 ≠ BitVec.twoPow 32 k := by
    intro h
    have hbit := congrArg (BitVec.getLsbD · k) h
    simp [hk] at hbit
  simp only [contains, BitVec.and_twoPow]
  cases f.bits.getLsbD k <;> simp [hne]

theorem getLsbD_or (f g : InsnFlags) (k : Nat) :
    (f ||| g).bits.getLsbD k = (f.bits.getLsbD k || g.bits.getLsbD k) :=
  BitVec.getLsbD_or

theorem getLsbD_prefixField_mask (k : Nat) :
    prefixField.mask.getLsbD k = decide (10 ≤ k ∧ k < 23) := by
  simp only [prefixField, BitField.mask, BitVec.getLsbD_shiftLeft, BitVec.getLsbD_ushiftRight,
    BitVec.getLsbD_allOnes]
  rw [Bool.eq_iff_iff]
  simp only [Bool.and_eq_true, Bool.not_eq_true', decide_eq_true_eq, decide_eq_false_iff_not]
  omega

/-- The flags with other prefixes, bit by bit. -/
theorem getLsbD_withPrefixes (f : InsnFlags) (s : PrefixSet) (k : Nat) :
    (f.withPrefixes s).bits.getLsbD k =
      if 10 ≤ k ∧ k < 23 then s.bits.getLsbD (k - 10) else f.bits.getLsbD k := by
  simp only [withPrefixes, BitVec.getLsbD_or, BitVec.getLsbD_and, BitVec.getLsbD_not,
    getLsbD_prefixField_mask, BitVec.getLsbD_shiftLeft, BitVec.getLsbD_setWidth]
  by_cases hk : 10 ≤ k ∧ k < 23
  · have hlt : k < 32 ∧ ¬ k < 10 ∧ k - 10 < 32 := by omega
    simp [hk, hlt, prefixField]
  · by_cases hlt : k < 32
    · simp [hk, hlt]
    · rw [BitVec.getLsbD_of_ge _ _ (Nat.le_of_not_lt hlt)]
      simp [hk]

theorem getLsbD_withPrefixes_empty (s : PrefixSet) (k : Nat) :
    (empty.withPrefixes s).bits.getLsbD k =
      (decide (10 ≤ k ∧ k < 23) && s.bits.getLsbD (k - 10)) := by
  rw [getLsbD_withPrefixes]
  by_cases hk : 10 ≤ k ∧ k < 23 <;> simp [hk, empty]

end InsnFlags

namespace PrefixSet

theorem ofByte?_ne_rex (b : Byte) : Prefix.ofByte? b ≠ some .rex := by
  unfold Prefix.ofByte?
  split <;> simp

/-- No run of legacy prefixes sets the bit of REX. -/
theorem getLsbD_rex_ofRun (run : List Byte) : (ofRun run).bits.getLsbD 6 = false := by
  have hnone : (run.any fun b => Prefix.ofByte? b == some .rex) = false := by
    rw [List.any_eq_false]
    intro b _
    simpa using ofByte?_ne_rex b
  have hrex := contains_eq_getLsbD (ofRun run) .rex
  rw [contains_ofRun rfl (by decide), hnone] at hrex
  exact hrex.symm

end PrefixSet

namespace Parse

variable {mode : Mode} (p : Parse mode)

theorem fixedFields_instruction :
    Slot.fixedFields p.instruction =
      (p.head.opcode, p.head.rex, p.addressing.modrm?, p.addressing.sib?) := by
  have hstored : Slot.fixedFields p.instruction =
      Slot.fixedFields (p.head.withAddressing p.addressing) :=
    Slot.fixedFields_storeAll _ _ _
  rw [hstored]
  cases p.addressing <;> rfl

theorem opcode_instruction : p.instruction.opcode = p.head.opcode :=
  congrArg Prod.fst p.fixedFields_instruction

theorem rex_instruction : p.instruction.rex = p.head.rex :=
  congrArg (·.2.1) p.fixedFields_instruction

theorem modrm_instruction : p.instruction.modrm = p.addressing.modrm? :=
  congrArg (·.2.2.1) p.fixedFields_instruction

theorem sib_instruction : p.instruction.sib = p.addressing.sib? :=
  congrArg (·.2.2.2) p.fixedFields_instruction

end Parse

namespace Head

theorem getLsbD_flags (h : Head) (k : Nat) :
    h.flags.bits.getLsbD k = (decide (10 ≤ k ∧ k < 23) && h.prefixes.bits.getLsbD (k - 10) ||
      h.rex.isSome && decide (k = 16)) := by
  have hrex : (InsnFlags.ofPrefix .rex).bits.getLsbD k = decide (k = 16) := by
    rw [show (InsnFlags.ofPrefix .rex).bits = BitVec.twoPow 32 16 by decide, BitVec.getLsbD_twoPow]
    simp [eq_comm]
  unfold flags
  dsimp only
  split
  · rename_i hsome
    rw [InsnFlags.getLsbD_or, InsnFlags.getLsbD_withPrefixes_empty, hrex, hsome, Bool.true_and]
  · rename_i hnone
    rw [InsnFlags.getLsbD_withPrefixes_empty]
    simp [hnone]

/-- Addressing bytes set their own flags and no other. -/
theorem getLsbD_flags_withAddressing (h : Head) (a : Addressing) (k : Nat) :
    (h.withAddressing a).flags.bits.getLsbD k = (h.flags.bits.getLsbD k ||
      a.modrm?.isSome && decide (k = 0) || a.sib?.isSome && decide (k = 1)) := by
  have hmodrm : InsnFlags.modrm.bits.getLsbD k = decide (k = 0) := by
    rw [show InsnFlags.modrm.bits = BitVec.twoPow 32 0 by decide, BitVec.getLsbD_twoPow]
    simp [eq_comm]
  have hsib : InsnFlags.sib.bits.getLsbD k = decide (k = 1) := by
    rw [show InsnFlags.sib.bits = BitVec.twoPow 32 1 by decide, BitVec.getLsbD_twoPow]
    simp [eq_comm]
  cases a with
  | none => simp [withAddressing, start, Addressing.modrm?, Addressing.sib?]
  | modrm m =>
    simp [withAddressing, withModRM, start, Addressing.modrm?, Addressing.sib?,
      InsnFlags.getLsbD_or, hmodrm]
  | sib m s =>
    simp [withAddressing, withSib, withModRM, start, Addressing.modrm?, Addressing.sib?,
      InsnFlags.getLsbD_or, hmodrm, hsib]

end Head

namespace Parse

variable {mode : Mode} (p : Parse mode)

/-- A flag outside of those of the literals says whether its part is there. -/
theorem contains_flag (flag : InsnFlags) (k : Nat) (hk : k < 32)
    (hflag : flag = ⟨BitVec.twoPow 32 k⟩) (hmask : (~~~Slot.flagMask).getLsbD k = true) :
    p.instruction.flags.contains flag = (p.head.flags.bits.getLsbD k ||
      p.instruction.modrm.isSome && decide (k = 0) || p.instruction.sib.isSome &&
        decide (k = 1)) := by
  rw [hflag, InsnFlags.contains_twoPow _ k hk, p.getLsbD_flags hmask,
    p.head.getLsbD_flags_withAddressing, p.modrm_instruction, p.sib_instruction]

theorem contains_rex :
    p.instruction.flags.contains (.ofPrefix .rex) = p.instruction.rex.isSome := by
  have hrun : p.head.prefixes.bits.getLsbD 6 = false := by
    rw [p.prefixes_eq, PrefixSet.getLsbD_rex_ofRun]
  rw [p.contains_flag _ 16 (by decide) (by decide) (by decide), p.head.getLsbD_flags, hrun,
    p.rex_instruction]
  simp

theorem contains_modrm : p.instruction.flags.contains .modrm = p.instruction.modrm.isSome := by
  rw [p.contains_flag _ 0 (by decide) (by decide) (by decide), p.head.getLsbD_flags]
  simp

theorem contains_sib : p.instruction.flags.contains .sib = p.instruction.sib.isSome := by
  rw [p.contains_flag _ 1 (by decide) (by decide) (by decide), p.head.getLsbD_flags]
  simp

/-! ### The bytes of an instruction -/

theorem isEnter_iff : p.instruction.IsEnter ↔ p.form.immediates = .wordByte := by
  rw [Instruction.IsEnter, p.opcode_instruction, (Mode.immediates_of_form? p.form_eq).1]

theorem isFarPointer_iff : p.instruction.IsFarPointer mode ↔ p.form.immediates = .farPointer := by
  rw [Instruction.IsFarPointer, p.opcode_instruction, (Mode.immediates_of_form? p.form_eq).2.1]

/-- Apart from ENTER and far pointers a displacement stands before an immediate. -/
theorem isOrdered_slots (henter : p.form.immediates ≠ .wordByte)
    (hfar : p.form.immediates ≠ .farPointer) :
    Slot.isOrdered (p.head.slots mode p.form p.addressing) = true := by
  have hadmits := p.admits
  cases ha : p.addressing with
  | none =>
    rcases Immediates.slots_cases mode p.head.operand16 p.head.operand64 _ henter hfar with
      hslots | ⟨s, hslots, -⟩ <;> simp [Head.slots, hslots, Slot.isOrdered]
  | modrm m =>
    rw [ha] at hadmits
    exact Head.isOrdered_operandSlots p.form_eq hadmits.1 m .none
  | sib m s =>
    rw [ha] at hadmits
    exact Head.isOrdered_operandSlots p.form_eq hadmits.1 m (some s)

/-- An opcode with two immediates has no addressing bytes. -/
theorem addressing_eq_none (h : p.form.immediates = .wordByte ∨ p.form.immediates = .farPointer) :
    p.addressing = .none := by
  have hadmits := p.admits
  have hmodrm : p.form.hasModRM ≠ true := by
    intro hmodrm
    obtain ⟨henter, hfar⟩ := (Mode.immediates_of_form? p.form_eq).2.2 hmodrm
    exact h.elim henter hfar
  cases ha : p.addressing with
  | none => rfl
  | modrm m | sib m s =>
    rw [ha] at hadmits
    exact absurd hadmits.1 hmodrm

/-- Two slots hold two literals, of the widths of the slots. -/
theorem exists_pair_of_slots {s s' : Slot}
    (hslots : p.head.slots mode p.form p.addressing = [s, s']) :
    ∃ l l', p.literals = [l, l'] ∧ l.width = s.width ∧ l'.width = s'.width := by
  have hwidths := p.widths_eq
  rw [hslots] at hwidths
  have htwo : p.literals.length = 2 := by simpa using congrArg List.length hwidths
  obtain ⟨l, l', hliterals⟩ := List.length_eq_two.mp htwo
  rw [hliterals] at hwidths
  exact ⟨l, l', hliterals, by simpa using hwidths⟩

/-- The literals of a parse stand for the bytes that its instruction ends with. -/
theorem endsWith : p.instruction.EndsWith mode (p.literals.flatMap Literal.bytes) := by
  unfold Instruction.EndsWith
  split
  · rename_i hfar
    rw [isFarPointer_iff] at hfar
    have haddressing := p.addressing_eq_none (.inr hfar)
    obtain ⟨s, s', hslots, hs, hs'⟩ : ∃ s s' : Slot,
        p.head.slots mode p.form p.addressing = [s, s'] ∧ s.isDisp = false ∧ s'.isDisp = true := by
      simp only [haddressing, Head.slots, hfar, Immediates.slots]
      split_ifs <;> exact ⟨_, _, rfl, rfl, rfl⟩
    obtain ⟨l, l', hliterals, -, -⟩ := p.exists_pair_of_slots hslots
    simp [Parse.instruction, hslots, hliterals, Slot.storeAll, Slot.store, hs, hs', Literal.bytesOf]
  · rename_i hfar
    rw [isFarPointer_iff] at hfar
    split
    · rename_i henter
      rw [isEnter_iff] at henter
      have hslots : p.head.slots mode p.form p.addressing = [.imm16, .imm8] := by
        rw [p.addressing_eq_none (.inl henter), Head.slots, henter, Immediates.slots]
      obtain ⟨l, l', hliterals, hl, -⟩ := p.exists_pair_of_slots hslots
      refine ⟨l.bytes, ?_, ?_⟩
      · simp [Literal.bytes, hl, Slot.imm16]
      · simp [Parse.instruction, hslots, hliterals, Slot.storeAll, Slot.store, Slot.imm16,
          Slot.imm8, Literal.bytesOf]
    · rename_i henter
      rw [isEnter_iff] at henter
      have hlen : p.literals.length = (p.head.slots mode p.form p.addressing).length := by
        simpa using congrArg List.length p.widths_eq
      have hstart : (p.head.withAddressing p.addressing).disp = none ∧
          (p.head.withAddressing p.addressing).imm = none := by
        cases p.addressing <;> exact ⟨rfl, rfl⟩
      exact Slot.bytes_of_isOrdered (p.isOrdered_slots henter hfar) hlen hstart.1 hstart.2

theorem bytes_opcode : p.head.opcode.bytes = p.instruction.opcode.first ::
    if p.instruction.opcode.first = Opcode.escape then [p.instruction.opcode.second] else [] := by
  rw [p.opcode_instruction]
  cases ho : p.head.opcode with
  | primary b => simp [Opcode.bytes, Opcode.first, p.fits.ne_escape b ho]
  | escaped b => simp [Opcode.bytes, Opcode.first, Opcode.second]

theorem bytes_addressing : p.addressing.bytes =
    (p.instruction.modrm.map ModRM.byte).toList ++ (p.instruction.sib.map Sib.byte).toList := by
  rw [p.modrm_instruction, p.sib_instruction]
  cases p.addressing <;> rfl

end Parse

/-- Decoding loses no byte. The bytes of an instruction are the longest run of prefixes, the REX
byte, the opcode with a second byte after the escape byte, the ModRM byte, the SIB byte and the
bytes of the literals; REX, ModRM and SIB bytes are there if the flags say so, and the length is the
sum of the parts. -/
theorem decode_lossless (mode : Mode) (b : List Byte) (i : Instruction)
    (h : decode mode b = .ok i) :
    ∃ tail, i.EndsWith mode tail ∧
      b.take i.length = b.takeWhile Head.isPrefixByte ++ (i.rex.map Rex.byte).toList ++
        [i.opcode.first] ++ (if i.opcode.first = Opcode.escape then [i.opcode.second] else []) ++
        (i.modrm.map ModRM.byte).toList ++ (i.sib.map Sib.byte).toList ++ tail ∧
      i.flags.contains (.ofPrefix .rex) = i.rex.isSome ∧
      i.flags.contains .modrm = i.modrm.isSome ∧ i.flags.contains .sib = i.sib.isSome ∧
      i.length = (b.takeWhile Head.isPrefixByte).length +
        (i.flags.contains (.ofPrefix .rex)).toNat +
        (if i.opcode.first = Opcode.escape then 2 else 1) +
        (i.flags.contains .modrm).toNat + (i.flags.contains .sib).toNat + tail.length := by
  obtain ⟨p, rfl, hbytes, hrun⟩ := exists_parse_of_decode h
  have hparts : p.bytes = b.takeWhile Head.isPrefixByte ++
      (p.instruction.rex.map Rex.byte).toList ++ [p.instruction.opcode.first] ++
      (if p.instruction.opcode.first = Opcode.escape then [p.instruction.opcode.second] else []) ++
      (p.instruction.modrm.map ModRM.byte).toList ++ (p.instruction.sib.map Sib.byte).toList ++
      p.literals.flatMap Literal.bytes := by
    rw [Parse.bytes, p.bytes_opcode, p.bytes_addressing, Head.rexBytes, p.rex_instruction, ← hrun]
    simp
  refine ⟨_, p.endsWith, hbytes.symm.trans hparts, p.contains_rex, p.contains_modrm, p.contains_sib,
    ?_⟩
  have hlen : p.instruction.length = p.bytes.length := rfl
  have htoList : ∀ {α : Type} (o : Option α) (f : α → Byte),
      (o.map f).toList.length = o.isSome.toNat :=
    fun o f => by cases o <;> rfl
  rw [hlen, hparts, p.contains_rex, p.contains_modrm, p.contains_sib]
  simp only [List.length_append, htoList, List.length_singleton]
  split <;> simp

/-- A store through a SIB byte with a segment override: after the addressing bytes stand a
displacement and an immediate of four bytes each. -/
theorem decode_lossless_indexed_store :
    ∃ i, decode .protected32 [0x64, 0xc7, 0x84, 0x88, 1, 2, 3, 4, 5, 6, 7, 8] = .ok i ∧
      ∃ tail, i.EndsWith .protected32 tail ∧
        [0x64, 0xc7, 0x84, 0x88, 1, 2, 3, 4, 5, 6, 7, 8] = [0x64, 0xc7, 0x84, 0x88] ++ tail := by
  obtain ⟨i, hd, hlen, hrex, hopcode, hmodrm, hsib⟩ : ∃ i,
      decode .protected32 [0x64, 0xc7, 0x84, 0x88, 1, 2, 3, 4, 5, 6, 7, 8] = .ok i ∧
      i.length = 12 ∧ i.rex = none ∧ i.opcode = .primary 0xc7 ∧
      i.modrm = some ⟨0x84⟩ ∧ i.sib = some ⟨0x88⟩ := ⟨_, rfl, rfl, rfl, rfl, rfl, rfl⟩
  obtain ⟨tail, hends, hbytes, -⟩ := decode_lossless .protected32 _ i hd
  refine ⟨i, hd, tail, hends, ?_⟩
  rw [hlen, hrex, hopcode, hmodrm, hsib] at hbytes
  exact hbytes

end LengthDisasm
