import LengthDisasm.Proofs.LiteralWidths
import LengthDisasm.Proofs.Lock

/-!
# Operands that must be in memory

Some opcodes take memory only, and one takes a register only. The rules that say so are tied to
classes of prefixes: a rule applies if the instruction has a prefix of one of its classes. So a rule
for all classes could be evaded by an instruction without any class. There is none. The absence of
prefixes is a class of its own, a prefix that replaces another one is of the same class, and a REX
byte neither adds nor removes one.

## Main definitions

* `Opcode.NeedsMemory` — with this register field the opcode takes memory only
* `Opcode.MemoryOnly.isStrict` — a rule without exception

## Main results

* `PrefixSet.classes_ofRun_ne_zero` — every run of prefixes has a class
* `Opcode.refusesRegister_of_needsMemory` — a rule for all classes applies under any class
* `Parse.isLegal` — the operand of an instruction breaks no rule
* `decode_operand_forms` — which operands are not decoded as registers, and which only so
-/

namespace LengthDisasm

/-! ### Classes of prefixes -/

namespace PrefixSet

variable {s : PrefixSet}

/-- The last class is that of all segment overrides. -/
theorem getLsbD_classes_segment (h : s.bits &&& segmentMask ≠ 0) : s.classes.getLsbD 6 = true := by
  have hbit : (0x40 : PrefixClasses).getLsbD 6 = true := by decide
  rw [classes, if_neg h, BitVec.getLsbD_or, hbit, Bool.or_true]

/-- Every prefix but REX is of a class. -/
theorem classes_ne_zero_of_contains {q : Prefix} (hq : q ≠ .rex) (h : s.contains q = true) :
    s.classes ≠ 0 := by
  rw [contains_eq_getLsbD] at h
  obtain ⟨k, hk⟩ : ∃ k, s.classes.getLsbD k = true := by
    cases q with
    | rex => exact absurd rfl hq
    | segment t =>
      refine ⟨6, getLsbD_classes_segment fun hzero => ?_⟩
      have hmask : segmentMask.getLsbD (Prefix.segment t).position = true := by cases t <;> rfl
      have hbit := congrArg (BitVec.getLsbD · (Prefix.segment t).position) hzero
      simp [h, hmask] at hbit
    | unprefixed | repNZ | rep | opSize | addrSize | lock => exact ⟨_,
      (getLsbD_classes s (by decide)).trans h⟩
  rintro hzero
  rw [hzero] at hk
  simp at hk

/-- The set of a run is of some class, whatever prefixes replace each other in the run. -/
theorem classes_ofRun_ne_zero (run : List Byte) : (ofRun run).classes ≠ 0 := by
  by_cases hnone : (ofRun run).contains .unprefixed = true
  · exact classes_ne_zero_of_contains (by decide) hnone
  · rw [contains_unprefixed_ofRun_iff] at hnone
    push Not at hnone
    obtain ⟨q, -, hq⟩ := hnone
    have hrex : q ≠ .rex := by
      rintro rfl
      rw [contains_eq_getLsbD] at hq
      exact hq (getLsbD_rex_ofRun run)
    exact classes_ne_zero_of_contains hrex (by simpa using hq)

end PrefixSet

/-! ### Rules for operands -/

namespace Opcode

/-- With this register field the opcode takes memory only, whatever prefixes it has. -/
def NeedsMemory (reg : BitVec 3) : Opcode → Prop
  | primary b => b ∈ [0x62, 0x8d, 0xc4, 0xc5] ∨ (b = 0xff ∧ (reg = 3 ∨ reg = 5))
  | escaped b =>
    b ∈ [0xb2, 0xb4, 0xb5] ∨ (b = 0x01 ∧ reg ≠ 4 ∧ reg ≠ 6) ∨ (b = 0xae ∧ reg < 5) ∨
    (b = 0xc7 ∧ reg = 1)

instance (reg : BitVec 3) : (o : Opcode) → Decidable (o.NeedsMemory reg)
  | primary _ => inferInstanceAs (Decidable (_ ∨ _))
  | escaped _ => inferInstanceAs (Decidable (_ ∨ _))

/-- The rule of an opcode that takes memory only, under some prefixes at least. -/
def memoryOnly? : Opcode → Option MemoryOnly
  | primary b => memoryOnlyPrimary.find? (·.byte == b)
  | escaped b => memoryOnlyEscaped.find? (·.byte == b)

/-- The rule refuses a register with this field under these prefixes. -/
def MemoryOnly.refuses (rule : MemoryOnly) (classes : PrefixClasses) (reg : BitVec 3) : Bool :=
  rule.classes &&& classes != 0 && !rule.allowed.contains reg

/-- The rule holds under all prefixes, and makes no exception for the register field. -/
def MemoryOnly.isStrict (rule : MemoryOnly) (reg : BitVec 3) : Bool :=
  rule.classes == 0xff && !rule.allowed.contains reg

theorem refusesRegister_eq (o : Opcode) (classes : PrefixClasses) (reg : BitVec 3) :
    o.refusesRegister classes reg = o.memoryOnly?.any (·.refuses classes reg) := by
  cases o with
  | primary b =>
    dsimp only [refusesRegister, memoryOnly?, byte]
    cases memoryOnlyPrimary.find? (·.byte == b) <;> rfl
  | escaped b =>
    dsimp only [refusesRegister, memoryOnly?, byte]
    cases memoryOnlyEscaped.find? (·.byte == b) <;> rfl

/-- A strict rule refuses a register under any class of prefixes. -/
theorem MemoryOnly.refuses_of_isStrict {rule : MemoryOnly} {reg : BitVec 3}
    {classes : PrefixClasses}
    (h : rule.isStrict reg = true) (hclasses : classes ≠ 0) : rule.refuses classes reg = true := by
  rw [isStrict, Bool.and_eq_true, beq_iff_eq] at h
  have hall : (0xff : PrefixClasses) &&& classes = classes := BitVec.allOnes_and
  rw [refuses, h.1, h.2, hall, Bool.and_true, bne_iff_ne]
  exact hclasses

/-- The opcodes that take memory only have strict rules, but for a register field that is undefined
anyway. -/
theorem isStrict_of_needsMemory {o : Opcode} {reg : BitVec 3} (h : o.NeedsMemory reg)
    (hdefined : ¬ (o = escaped 0x01 ∧ reg = 5)) : o.memoryOnly?.any (·.isStrict reg) = true := by
  cases o with
  | primary b =>
    have hall : ∀ b reg, (primary b).NeedsMemory reg →
        (primary b).memoryOnly?.any (·.isStrict reg) = true := by decide +kernel
    exact hall b reg h
  | escaped b =>
    have hall : ∀ b reg, (escaped b).NeedsMemory reg → ¬ (escaped b = escaped 0x01 ∧ reg = 5) →
        (escaped b).memoryOnly?.any (·.isStrict reg) = true := by decide +kernel
    exact hall b reg h hdefined

theorem refusesRegister_of_needsMemory {o : Opcode} {reg : BitVec 3} {classes : PrefixClasses}
    (h : o.NeedsMemory reg) (hdefined : ¬ (o = escaped 0x01 ∧ reg = 5)) (hclasses : classes ≠ 0) :
    o.refusesRegister classes reg = true := by
  obtain ⟨rule, hrule, hstrict⟩ := (Option.any_eq_true _ _).mp (isStrict_of_needsMemory h hdefined)
  rw [refusesRegister_eq, hrule, Option.any_some]
  exact MemoryOnly.refuses_of_isStrict hstrict hclasses

/-- What a legal ModRM byte does not break. -/
theorem legal_of_checkOperand {o : Opcode} {undefinedRegs : RegSet} {s : PrefixSet} {m : ModRM}
    (h : o.checkOperand undefinedRegs s m = .ok ()) :
    undefinedRegs.contains m.reg = false ∧
      (o.addressingForm m = 3 → o.refusesRegister s.classes m.reg = false) ∧
      (o.addressingForm m ≠ 3 → o.refusesMemory s.classes = false) := by
  unfold checkOperand at h
  split_ifs at h with hundefined hx87 hlock hmissing hform hregister hmemory
  · rw [beq_iff_eq] at hform
    exact ⟨by simpa using hundefined, fun _ => by simpa using hregister,
      fun hne => absurd hform hne⟩
  · rw [beq_iff_eq] at hform
    exact ⟨by simpa using hundefined, fun heq => absurd heq hform, fun _ => by simpa using hmemory⟩

end Opcode

/-! ### Decoded operands -/

namespace Parse

variable {mode : Mode} (p : Parse mode)

/-- The ModRM byte of an instruction breaks no rule. -/
theorem isLegal {m : ModRM} (hm : p.instruction.modrm = some m) :
    p.form.undefinedRegs.contains m.reg = false ∧
      (p.instruction.operandForm m = 3 →
        p.instruction.opcode.ruling.refusesRegister p.head.prefixes.classes m.reg = false) ∧
      (p.instruction.operandForm m ≠ 3 →
        p.instruction.opcode.ruling.refusesMemory p.head.prefixes.classes = false) := by
  have hadmits := p.admits
  rw [p.modrm_instruction] at hm
  rw [← p.addressingForm_eq, p.opcode_instruction]
  cases ha : p.addressing with
  | none =>
    rw [ha] at hm
    cases hm
  | modrm m' | sib m' s =>
    rw [ha] at hm hadmits
    cases hm
    exact Opcode.legal_of_checkOperand hadmits.2.2

/-- An operand that must be in memory is not decoded as a register. -/
theorem not_needsMemory {m : ModRM} (hm : p.instruction.modrm = some m) (hmod : m.mod = 3) :
    ¬ p.instruction.opcode.NeedsMemory m.reg := by
  intro hneeds
  obtain ⟨hdefined, hregister, -⟩ := p.isLegal hm
  have hform : p.instruction.operandForm m = 3 := by rw [Instruction.operandForm, hmod, ite_self]
  have hruling : p.instruction.opcode.ruling = p.instruction.opcode := by
    apply Opcode.ruling_of_ne
    intro heq
    rw [heq] at hneeds
    exact absurd hneeds (by simp [Opcode.NeedsMemory])
  have hclasses : p.head.prefixes.classes ≠ 0 := by
    rw [p.prefixes_eq]
    exact PrefixSet.classes_ofRun_ne_zero p.run
  have hundefined : ¬ (p.instruction.opcode = .escaped 0x01 ∧ m.reg = 5) := by
    rintro ⟨ho, hreg⟩
    have hentry := p.form_eq
    rw [← p.opcode_instruction, ho] at hentry
    have hform : ⟨true, .none, ⟨0x04⟩⟩ = p.form := Option.some.inj hentry
    rw [← hform, hreg] at hdefined
    exact absurd hdefined (by decide)
  have hrefuses := Opcode.refusesRegister_of_needsMemory hneeds hundefined hclasses
  rw [← hruling, hregister hform] at hrefuses
  cases hrefuses

/-- `0F C5` is decoded with a register only. -/
theorem mod_of_escaped_c5 (ho : p.instruction.opcode = .escaped 0xc5) :
    ∃ m, p.instruction.modrm = some m ∧ m.mod = 3 := by
  have hentry := p.form_eq
  rw [← p.opcode_instruction, ho] at hentry
  have hform : ⟨true, .byte, .empty⟩ = p.form := Option.some.inj hentry
  have hmodrm : p.addressing.modrm?.isSome = true := by rw [← p.hasModRM_eq, ← hform]
  obtain ⟨m, hm⟩ := Option.isSome_iff_exists.mp hmodrm
  rw [← p.modrm_instruction] at hm
  refine ⟨m, hm, ?_⟩
  by_contra hmod
  have hoperand : p.instruction.operandForm m = m.mod := by
    rw [Instruction.operandForm, ho, if_neg (by decide)]
  have hmemory := (p.isLegal hm).2.2 (by rwa [hoperand])
  rw [ho] at hmemory
  cases hmemory

end Parse

/-- Opcodes that take memory only are never decoded with a register, and `0F C5` is never decoded
with memory, whatever prefixes and REX byte the instruction has. -/
theorem decode_operand_forms (mode : Mode) (code : List Byte) (i : Instruction)
    (h : decode mode code = .ok i) :
    (∀ m, i.modrm = some m → m.mod = 3 → ¬ i.opcode.NeedsMemory m.reg) ∧
      (i.opcode = .escaped 0xc5 → ∃ m, i.modrm = some m ∧ m.mod = 3) := by
  obtain ⟨p, rfl, -, -⟩ := exists_parse_of_decode h
  exact ⟨fun m hm hmod => p.not_needsMemory hm hmod, p.mod_of_escaped_c5⟩

/-- A fence behind two segment overrides and a REX byte, and `0F C5` behind an operand size. -/
theorem decode_operand_forms_fence :
    (∃ i m, decode .long64 [0x2e, 0x64, 0x48, 0x0f, 0xae, 0xe8] = .ok i ∧ i.modrm = some m ∧
      m.mod = 3 ∧ ¬ i.opcode.NeedsMemory m.reg) ∧
    ∃ i m, decode .protected32 [0x66, 0x0f, 0xc5, 0xc1, 2] = .ok i ∧ i.modrm = some m ∧
      m.mod = 3 := by
  obtain ⟨i, hi, hm⟩ : ∃ i, decode .long64 [0x2e, 0x64, 0x48, 0x0f, 0xae, 0xe8] = .ok i ∧
      i.modrm = some ⟨0xe8⟩ :=
    ⟨_, rfl, rfl⟩
  obtain ⟨j, hj, ho⟩ : ∃ j, decode .protected32 [0x66, 0x0f, 0xc5, 0xc1, 2] = .ok j ∧
      j.opcode = .escaped 0xc5 :=
    ⟨_, rfl, rfl⟩
  obtain ⟨m, hm', hmod⟩ := (decode_operand_forms .protected32 _ j hj).2 ho
  exact ⟨⟨i, _, hi, hm, rfl, (decode_operand_forms .long64 _ i hi).1 _ hm rfl⟩, j, m, hj, hm', hmod⟩

end LengthDisasm
