import LengthDisasm.Listing.Text
import LengthDisasm.Proofs.LiteralWidths
import LengthDisasm.Symbols.Search

/-!
# Relative branches

An instruction is relative if its last literal is a distance from its end. Whether it is so follows
from the entry of its opcode in the opcode maps. The classes of instructions are told from the
opcode alone, without the maps. Both say the same: the relative instructions are the conditional
jumps, the jumps, the call and the four loops. A listing says where a relative instruction goes, and
this is where its immediate says.

## Main definitions

* `Immediates.isRelative` — the immediate is a branch distance
* `Opcode.isBranch` — the opcode is that of a relative branch

## Main results

* `Mode.isRelative_of_form?` — the opcode maps have branch distances for branches only
* `Parse.isRelative_flags` — the flag of a relative instruction follows from its immediates
* `Presentation.branchTarget_eq` — the target of a branch as a number
* `decode_relative_branches` — relative instructions are the branches, and listings say where they
  go
-/

namespace LengthDisasm

/-! ### Branches in the opcode maps -/

/-- The immediate is a branch distance. -/
def Immediates.isRelative : Immediates → Bool
  | short | near => true
  | _ => false

/-- The opcode is that of a relative branch: a conditional jump, a loop, a call or a jump. -/
def Opcode.isBranch : Opcode → Bool
  | primary b =>
    b &&& 0xf0 == 0x70 || decide (0xe0 ≤ b ∧ b ≤ 0xe3) || b == 0xe8 || b == 0xe9 || b == 0xeb
  | escaped b => b &&& 0xf0 == 0x80

/-- Branches by their opcode are the branches by their classes. -/
theorem Instruction.isBranch_opcode_iff (i : Instruction) : i.opcode.isBranch = true ↔
    i.isJcc = true ∨ i.isJmp = true ∨ i.opcode.first = 0xe8 ∨
    (0xe0 ≤ i.opcode.first ∧ i.opcode.first ≤ 0xe3) := by
  unfold isJcc isJmp
  cases i.opcode with
  | primary b =>
    simp only [Opcode.isBranch, Opcode.first, Opcode.isEscaped, Bool.false_and, Bool.or_false,
      Bool.or_eq_true, beq_iff_eq, decide_eq_true_eq]
    tauto
  | escaped b =>
    -- the escape byte itself is in none of the classes
    have hjcc : (Opcode.escape &&& 0xf0 == 0x70) = false := by decide
    have hjmp : (Opcode.escape == 0xe9 || Opcode.escape == 0xeb) = false := by decide
    have hcall : ¬ Opcode.escape = 0xe8 := by decide
    have hloop : ¬ (0xe0 ≤ Opcode.escape ∧ Opcode.escape ≤ 0xe3) := by decide
    simp only [Opcode.isBranch, Opcode.first, Opcode.isEscaped, Opcode.second, hjcc, hjmp, hcall,
      hloop, Bool.false_or, Bool.true_and, Bool.false_eq_true, or_false]

/-- The maps have branch distances for branches, and no ModRM byte with them. -/
theorem OpcodeMap.relative_immediates :
    (∀ mode b, ((OpcodeMap.primary mode).get? b).all fun form =>
      form.immediates.isRelative ==
        (Opcode.primary b).isBranch && !(form.hasModRM && (Opcode.primary b).isBranch)) ∧
    ∀ b, (OpcodeMap.secondary.get? b).all fun form =>
      form.immediates.isRelative == (Opcode.escaped b).isBranch &&
        !(form.hasModRM && (Opcode.escaped b).isBranch) := by
  refine ⟨fun mode => ?_, by decide +kernel⟩
  cases mode <;> decide +kernel

theorem Mode.isRelative_of_form? {mode : Mode} {o : Opcode} {form : Form}
    (h : mode.form? o = some form) :
    form.immediates.isRelative = o.isBranch ∧ (o.isBranch = true → form.hasModRM = false) := by
  have hall : (mode.form? o).all fun form =>
      form.immediates.isRelative == o.isBranch && !(form.hasModRM && o.isBranch) := by
    cases o with
    | primary b => exact OpcodeMap.relative_immediates.1 mode b
    | escaped b => exact OpcodeMap.relative_immediates.2 b
  rw [h, Option.all_some, Bool.and_eq_true, beq_iff_eq] at hall
  refine ⟨hall.1, fun hbranch => ?_⟩
  simpa [hbranch] using hall.2

/-! ### The flag of relative instructions -/

/-- A displacement is never a branch distance. -/
theorem Slot.any_relative_displacement (addr16 : Bool) (form : BitVec 2) (rm : BitVec 3)
    (sib : Option Sib) :
    ((displacement addr16 form rm sib).any fun s => s.flags.bits.getLsbD 9) = false := by
  have hall : ∀ w ∈ InsnFlags.dispWidths, w.1.bits.getLsbD 9 = false := by decide
  rcases displacement_widths addr16 form rm sib with hnone | ⟨w, hw, hsome⟩
  · rw [hnone]
    rfl
  · rw [hsome, List.any_cons, hall w hw]
    rfl

theorem Immediates.any_relative_slots (mode : Mode) (operand16 operand64 : Bool)
    (immediates : Immediates) :
    ((immediates.slots mode operand16 operand64).any fun s => s.flags.bits.getLsbD 9) =
      immediates.isRelative := by
  cases immediates with
  | operand | farPointer | near =>
    rw [slots]
    split_ifs <;> rfl
  | _ => rfl

namespace Parse

variable {mode : Mode} (p : Parse mode)

/-- The register field, which some immediates depend on, never makes a branch. -/
theorem isRelative_immediates : p.immediates.isRelative = p.head.opcode.isBranch := by
  obtain ⟨hform, hmodrm⟩ := Mode.isRelative_of_form? p.form_eq
  cases hm : p.addressing.modrm? with
  | none => rw [immediates, hm, hform]
  | some m =>
    have hbranch : p.head.opcode.isBranch = false := by
      rw [Bool.eq_false_iff]
      intro hbranch
      have hnone := hmodrm hbranch
      rw [p.hasModRM_eq, hm] at hnone
      cases hnone
    rw [p.immediates_of_modrm hm, hbranch]
    rcases p.form.immediatesWith_cases p.head.opcode m.reg with heq | heq | heq
    · rw [heq, hform, hbranch]
    · rw [heq]
      rfl
    · rw [heq]
      rfl

theorem isRelative_flags : p.instruction.flags.isRelative = p.instruction.opcode.isBranch := by
  have hdisp : (p.displacement.any fun s => s.flags.bits.getLsbD 9) = false := by
    unfold displacement
    split
    · rfl
    · exact Slot.any_relative_displacement _ _ _ _
  have hbit : InsnFlags.relative = ⟨BitVec.twoPow 32 9⟩ := by decide
  rw [InsnFlags.isRelative, p.contains_announced (by decide), hbit,
    InsnFlags.contains_twoPow _ 9 (by decide), Slot.getLsbD_announced, p.slots_eq, List.any_append,
    hdisp, Immediates.any_relative_slots, p.isRelative_immediates, p.opcode_instruction]
  simp

/-- A relative instruction has no ModRM byte. -/
theorem modrm_eq_none_of_isRelative (h : p.instruction.flags.isRelative = true) :
    p.instruction.modrm = none := by
  rw [p.isRelative_flags, p.opcode_instruction] at h
  have hnone := (Mode.isRelative_of_form? p.form_eq).2 h
  rwa [p.hasModRM_eq, Option.isSome_eq_false_iff, Option.isNone_iff_eq_none,
    ← p.modrm_instruction] at hnone

/-- A relative instruction has its distance as immediate. -/
theorem exists_imm_of_isRelative (h : p.instruction.flags.isRelative = true) :
    ∃ l, p.instruction.imm = some l := by
  obtain ⟨hwidth, -⟩ := p.wellFormed.literals.relative h
  cases himm : p.instruction.imm with
  | none => simp [himm] at hwidth
  | some l => exact ⟨l, rfl⟩

end Parse

/-! ### Targets -/

/-- The distance counts from the end of the branch, and addresses wrap around. -/
theorem Presentation.branchTarget_eq (address : Address) (length : Nat) (distance : Int) :
    branchTarget address length distance = BitVec.ofInt 64 (address.toNat + length + distance) := by
  have haddress : BitVec.ofInt 64 address.toNat = address := by
    rw [BitVec.ofInt_natCast, BitVec.ofNat_toNat, BitVec.setWidth_eq]
  rw [BitVec.ofInt_add, BitVec.ofInt_add, haddress, BitVec.ofInt_natCast, branchTarget]

/-- The comment of a branch: its target, and the symbol that this falls into. -/
theorem Presentation.target_eq (p : Presentation) (target : Address) : ∃ place,
    (p.symbols.find? target = none → place = "") ∧
    (∀ s, p.symbols.find? target = some s →
      place = " <" ++ p.theme.wrap .symbol (p.spell s.name) ++
        (if target = s.address then "" else "+0x" ++ Text.hex (target - s.address).toNat) ++ ">") ∧
    p.target target = p.theme.wrap .comment
      ("\t# " ++ p.theme.wrap .address (Text.hex target.toNat) ++ place) := by
  unfold Presentation.target
  cases p.symbols.find? target with
  | none => exact ⟨_, fun _ => rfl, fun s hs => (Option.some_ne_none s hs.symm).elim, rfl⟩
  | some s =>
    refine ⟨_, fun hs => (Option.some_ne_none s hs).elim, fun t ht => ?_, rfl⟩
    obtain rfl := Option.some.inj ht
    have hoffset (n : Nat) : "+" ++ Text.hexMarked n = "+0x" ++ Text.hex n := by
      rw [Text.hexMarked, ← String.append_assoc]
      rfl
    simp only [symbol, hoffset]

/-- The line of a relative instruction ends with the place that its immediate leads to. -/
theorem Presentation.decoded_of_isRelative (p : Presentation) (address : Address) {i : Instruction}
    {l : Literal} (h : i.flags.isRelative = true) (himm : i.imm = some l) :
    p.decoded address (.ok i) =
      i.line p.theme ++ p.target (BitVec.ofInt 64 (address.toNat + i.length + l.signed)) := by
  rw [decoded, if_pos h, himm, ← branchTarget_eq]

/-- A decoded instruction is relative if it is a conditional jump, a jump, a call or a loop by its
opcode. Then it has no ModRM byte, and its immediate is the distance to the target that a listing
shows, counted from its end. After the instruction the listing has a tab, the target in hexadecimal
and the symbol that the target falls into, with the offset from there. -/
theorem decode_relative_branches (mode : Mode) (code : List Byte) (i : Instruction)
    (h : decode mode code = .ok i) :
    (i.flags.isRelative = true ↔ i.isJcc = true ∨ i.isJmp = true ∨ i.opcode.first = 0xe8 ∨
      (0xe0 ≤ i.opcode.first ∧ i.opcode.first ≤ 0xe3)) ∧
    (i.flags.isRelative = true → i.modrm = none ∧ i.flags.contains .modrm = false ∧
      ∃ l, i.imm = some l ∧ ∀ (p : Presentation) (address : Address), ∃ target place,
        target = BitVec.ofInt 64 (address.toNat + i.length + l.signed) ∧
        (p.symbols.find? target = none → place = "") ∧
        (∀ s, p.symbols.find? target = some s →
          place = " <" ++ p.theme.wrap .symbol (p.spell s.name) ++
            (if target = s.address then "" else "+0x" ++ Text.hex (target - s.address).toNat) ++
            ">") ∧
        p.decoded address (.ok i) = i.line p.theme ++ p.theme.wrap .comment
          ("\t# " ++ p.theme.wrap .address (Text.hex target.toNat) ++ place)) := by
  obtain ⟨p, rfl, -, -⟩ := exists_parse_of_decode h
  constructor
  · rw [p.isRelative_flags, Instruction.isBranch_opcode_iff]
  · intro hrelative
    have hmodrm := p.modrm_eq_none_of_isRelative hrelative
    obtain ⟨l, hl⟩ := p.exists_imm_of_isRelative hrelative
    refine ⟨hmodrm, ?_, l, hl, fun listing address => ?_⟩
    · rw [p.contains_modrm, hmodrm]
      rfl
    · obtain ⟨place, hnone, hsome, htarget⟩ := listing.target_eq
        (BitVec.ofInt 64 (address.toNat + p.instruction.length + l.signed))
      refine ⟨_, place, rfl, hnone, hsome, ?_⟩
      rw [listing.decoded_of_isRelative address hrelative hl, htarget]

/-- A near conditional jump backwards to itself, with 16-bit operands, in the middle of a symbol. -/
theorem decode_relative_branches_backwards :
    ∃ i, decode .long64 [0x66, 0x0f, 0x85, 0xfb, 0xff] = .ok i ∧ i.flags.isRelative = true ∧
      i.modrm = none ∧
      Presentation.decoded ⟨.plain, SymbolSearch.lookup #[⟨0xff0, "main"⟩], id⟩ 0x1000 (.ok i) =
        "op=0f op2=85 imm=i16(0xfffb / -5) flags=Imm16|Relative|OpSize\t# 1000 <main+0x10>" := by
  obtain ⟨i, hi, hlength, hjcc, himm, hline⟩ : ∃ i,
      decode .long64 [0x66, 0x0f, 0x85, 0xfb, 0xff] = .ok i ∧ i.length = 5 ∧ i.isJcc = true ∧
      i.imm = some ⟨0xfffb, 16⟩ ∧
      i.line .plain = "op=0f op2=85 imm=i16(0xfffb / -5) flags=Imm16|Relative|OpSize" :=
    ⟨_, rfl, rfl, rfl, rfl, by decide +kernel⟩
  obtain ⟨hclasses, hbranch⟩ := decode_relative_branches .long64 _ i hi
  have hrelative := hclasses.mpr (.inl hjcc)
  obtain ⟨hmodrm, -, l, hl, htext⟩ := hbranch hrelative
  refine ⟨i, hi, hrelative, hmodrm, ?_⟩
  obtain ⟨target, place, htarget, -, hplace, hdecoded⟩ :=
    htext ⟨.plain, SymbolSearch.lookup #[⟨0xff0, "main"⟩], id⟩ 0x1000
  obtain rfl : target = 0x1000 := by
    rw [himm, Option.some.injEq] at hl
    rw [htarget, hlength, ← hl]
    decide
  rw [hdecoded, hline, hplace ⟨0xff0, "main"⟩ (by decide +kernel)]
  decide +kernel

end LengthDisasm
