import LengthDisasm.Proofs.ReportedPrefixes
import LengthDisasm.Proofs.TableDecoding
import LengthDisasm.Proofs.WellFormed

/-!
# The widths of literals

Two literals can end an instruction. The displacement is sized by the addressing form, and by the
address size prefix where the form has no width of its own. The immediate is sized by the opcode,
and by the operand size prefix where the opcode leaves it open; but the immediate of an offset move
is an address, and REX.W widens that of a move to a register.

The slots of an instruction are those of the displacement and then those of the immediates. Apart
from far pointers neither reaches into the place of the other, so that each literal is sized by its
own slots.

## Main definitions

* `Instruction.operandForm`, `Instruction.LacksBase` — the addressing form that counts, and the SIB
  bytes that override it
* `DisplacementSized` — a displacement is as wide as the addressing form says
* `ImmediateSized` — an immediate is as wide as the class of the opcode says

## Main results

* `Parse.slots_eq` — the slots of an instruction, displacement first
* `Parse.width_disp`, `Parse.width_imm` — each literal is sized by its own slots
* `Slot.displacementSized` — the slots of the displacement
* `Parse.immediateSized` — the immediates of the classes of opcodes
* `decode_sizes_displacement`, `decode_sizes_immediate` — the widths in decoded instructions
-/

namespace LengthDisasm

/-! ### Slots of one place -/

namespace Slot

variable {slots : List Slot} {isDisp : Bool}

theorem keptWidth?_append (isDisp : Bool) (slots slots' : List Slot) :
    keptWidth? isDisp (slots ++ slots') =
      (keptWidth? isDisp slots').or (keptWidth? isDisp slots) := by
  induction slots with
  | nil => simp [keptWidth?]
  | cons s slots ih => rw [List.cons_append, keptWidth?, keptWidth?, ih, Option.or_assoc]

/-- Slots for the other place keep nothing. -/
theorem keptWidth?_eq_none (h : ∀ s ∈ slots, s.isDisp = !isDisp) :
    keptWidth? isDisp slots = none := by
  induction slots with
  | nil => rfl
  | cons s slots ih =>
    rw [List.forall_mem_cons] at h
    rw [keptWidth?, ih h.2, h.1]
    cases isDisp <;> rfl

theorem isDisp_of_mem_displacement {addr16 : Bool} {form : BitVec 2} {rm : BitVec 3}
    {sib : Option Sib} {s : Slot} (hs : s ∈ displacement addr16 form rm sib) : s.isDisp = true := by
  rcases displacement_cases addr16 form rm sib with hnone | ⟨t, hsome, ht⟩
  · rw [hnone] at hs
    cases hs
  · rw [hsome, List.mem_singleton] at hs
    rw [hs, ht]

end Slot

namespace Immediates

variable (mode : Mode) (operand16 operand64 : Bool)

/-- Only far pointers reach into the place of the displacement. -/
theorem isDisp_of_mem_slots {immediates : Immediates} (hfar : immediates ≠ .farPointer) {s : Slot}
    (hs : s ∈ immediates.slots mode operand16 operand64) : s.isDisp = false := by
  by_cases henter : immediates = .wordByte
  · rw [henter, slots] at hs
    simp only [List.mem_cons, List.not_mem_nil, or_false] at hs
    rcases hs with rfl | rfl <;> rfl
  · rcases slots_cases mode operand16 operand64 immediates henter hfar with hnone | ⟨t, hsome, ht⟩
    · rw [hnone] at hs
      cases hs
    · rw [hsome, List.mem_singleton] at hs
      rw [hs, ht]

theorem keptWidth?_operand : Slot.keptWidth? false (operand.slots mode operand16 operand64) =
    some (if mode.isLong && operand64 then 64 else if operand16 then 16 else 32) := by
  rw [slots]
  split_ifs <;> rfl

theorem keptWidth?_near : Slot.keptWidth? false (near.slots mode operand16 operand64) =
    some (if operand16 then 16 else 32) := by
  rw [slots]
  split_ifs <;> rfl

/-- The offset of a far pointer is kept as the immediate, and the selector as the displacement. -/
theorem keptWidth?_farPointer :
    Slot.keptWidth? false (farPointer.slots mode operand16 operand64) =
      some (if operand16 then 16 else 32) ∧
      Slot.keptWidth? true (farPointer.slots mode operand16 operand64) = some 16 := by
  rw [slots]
  split_ifs <;> exact ⟨rfl, rfl⟩

end Immediates

/-! ### The two literals of a parse -/

namespace Parse

variable {mode : Mode} (p : Parse mode)

/-- The slots of the displacement. -/
def displacement : List Slot :=
  match p.addressing.modrm? with
  | none => []
  | some m =>
    Slot.displacement (p.head.prefixes.contains .addrSize) (p.head.opcode.ruling.addressingForm m)
      m.rm p.addressing.sib?

/-- The immediates, which for some opcodes depend on the register field. -/
def immediates : Immediates :=
  match p.addressing.modrm? with
  | none => p.form.immediates
  | some m => p.form.immediatesWith p.head.opcode m.reg

theorem immediates_of_modrm {m : ModRM} (hm : p.addressing.modrm? = some m) :
    p.immediates = p.form.immediatesWith p.head.opcode m.reg := by
  rw [immediates, hm]

theorem slots_eq : p.head.slots mode p.form p.addressing =
    p.displacement ++ p.immediates.slots mode p.head.operand16 p.head.operand64 := by
  unfold displacement immediates
  cases p.addressing <;> rfl

theorem isDisp_of_mem_displacement {s : Slot} (hs : s ∈ p.displacement) : s.isDisp = true := by
  unfold displacement at hs
  split at hs
  · cases hs
  · exact Slot.isDisp_of_mem_displacement hs

/-- The immediate is sized by the slots of the immediates. -/
theorem width_imm : p.instruction.imm.map Literal.width =
    Slot.keptWidth? false (p.immediates.slots mode p.head.operand16 p.head.operand64) := by
  have hkept : p.instruction.imm.map Literal.width = _ := p.width_kept false
  have hnone : Slot.keptWidth? false p.displacement = none :=
    Slot.keptWidth?_eq_none fun s hs => p.isDisp_of_mem_displacement hs
  rw [hkept, slots_eq, Slot.keptWidth?_append, hnone, Option.or_none]

/-- With a ModRM byte the displacement is sized by the addressing form. -/
theorem width_disp (hmodrm : p.instruction.modrm.isSome = true) :
    p.instruction.disp.map Literal.width = Slot.keptWidth? true p.displacement := by
  have hkept : p.instruction.disp.map Literal.width = _ := p.width_kept true
  -- far pointers have no ModRM byte, so the immediates leave the displacement alone
  have hfar : p.immediates ≠ .farPointer := by
    rw [p.modrm_instruction] at hmodrm
    obtain ⟨m, hm⟩ := Option.isSome_iff_exists.mp hmodrm
    have hform := (Mode.immediates_of_form? p.form_eq).2.2 (by rw [p.hasModRM_eq, hm]; rfl)
    rw [p.immediates_of_modrm hm]
    rcases p.form.immediatesWith_cases p.head.opcode m.reg with heq | heq | heq
    · rw [heq]
      exact hform.2
    · simp [heq]
    · simp [heq]
  have hnone : Slot.keptWidth? true (p.immediates.slots mode p.head.operand16 p.head.operand64) =
      none :=
    Slot.keptWidth?_eq_none fun s hs => Immediates.isDisp_of_mem_slots mode _ _ hfar hs
  rw [hkept, slots_eq, Slot.keptWidth?_append, hnone, Option.none_or]

/-- The prefixes that size literals are reported as the head has them. -/
theorem contains_head_prefixes {q : Prefix} (hq : q ≠ .rex) :
    p.head.prefixes.contains q = p.instruction.prefixes.contains q := by
  rw [p.contains_prefixes_of_ne hq, p.prefixes_eq]

end Parse

/-! ### Displacements -/

/-- The addressing form that counts: moves of control and debug registers take a register, whatever
the ModRM byte says. -/
def Instruction.operandForm (i : Instruction) (m : ModRM) : BitVec 2 :=
  if i.opcode ∈ [.escaped 0x20, .escaped 0x21, .escaped 0x22, .escaped 0x23] then 3 else m.mod

/-- The SIB byte names no base register in a form that can do without one. -/
def Instruction.LacksBase (i : Instruction) (m : ModRM) : Prop :=
  ∃ s, i.sib = some s ∧ s.base = 5 ∧ (i.operandForm m = 0 ∨ i.operandForm m = 2)

/-- A displacement, by its width, is sized by the addressing form and the address size. -/
@[mk_iff] structure DisplacementSized (addr16 : Bool) (form : BitVec 2) (rm : BitVec 3)
    (disp : Option Nat) :
    Prop where
  byte : disp = some 8 ↔ form = 1
  /-- With 16-bit addresses the sixth operand of form 0 is a bare address. -/
  word : disp = some 16 ↔ addr16 = true ∧ (form = 2 ∨ form = 0 ∧ rm = 6)
  /-- Otherwise the fifth one is. -/
  double : disp = some 32 ↔ addr16 = false ∧ (form = 2 ∨ form = 0 ∧ rm = 5)
  absent : disp = none ↔ ¬ (form = 1 ∨ (addr16 = true ∧ (form = 2 ∨ form = 0 ∧ rm = 6)) ∨
    (addr16 = false ∧ (form = 2 ∨ form = 0 ∧ rm = 5)))

instance (addr16 : Bool) (form : BitVec 2) (rm : BitVec 3) (disp : Option Nat) :
    Decidable (DisplacementSized addr16 form rm disp) :=
  decidable_of_iff' _ (displacementSized_iff addr16 form rm disp)

theorem Opcode.addressingForm_ruling (o : Opcode) (m : ModRM) : o.ruling.addressingForm m =
    if o ∈ [.escaped 0x20, .escaped 0x21, .escaped 0x22, .escaped 0x23] then 3 else m.mod := by
  cases o with
  | primary b => simp [ruling, addressingForm, isControlMove, isDebugMove]
  | escaped b =>
    have hmoves : ∀ b, ((escaped b).ruling.isControlMove || (escaped b).ruling.isDebugMove) =
        decide (escaped b ∈ [escaped 0x20, escaped 0x21, escaped 0x22, escaped 0x23]) := by
          decide +kernel
    simp only [addressingForm, hmoves, decide_eq_true_eq]

namespace Slot

variable (addr16 : Bool) (form : BitVec 2) (rm : BitVec 3)

/-- Without a base register the displacement has 32 bits. -/
theorem displacement_of_lacksBase {s : Sib} (hbase : s.base = 5) (hform : form = 0 ∨ form = 2) :
    keptWidth? true (displacement addr16 form rm (some s)) = some 32 := by
  have hnone : (s.base == 5 && (form == 0 || form == 2)) = true := by simpa [hbase] using hform
  simp only [displacement, hnone, if_true]
  rfl

/-- A SIB byte with a base register does not change the displacement. -/
theorem displacement_of_base {sib : Option Sib}
    (hbase : ∀ s ∈ sib, ¬ (s.base = 5 ∧ (form = 0 ∨ form = 2))) :
    displacement addr16 form rm sib = displacement addr16 form rm none := by
  cases sib with
  | none => rfl
  | some s =>
    have hsome : (s.base == 5 && (form == 0 || form == 2)) = false := by
      simpa only [Bool.eq_false_iff, ne_eq, Bool.and_eq_true, Bool.or_eq_true,
        beq_iff_eq] using hbase s rfl
    simp only [displacement, hsome]

/-- The displacement is sized by the addressing form, unless the base register is missing. -/
theorem displacementSized {sib : Option Sib}
    (hbase : ∀ s ∈ sib, ¬ (s.base = 5 ∧ (form = 0 ∨ form = 2))) :
    DisplacementSized addr16 form rm (keptWidth? true (displacement addr16 form rm sib)) := by
  have hall : ∀ addr16 form rm,
      DisplacementSized addr16 form rm
        (keptWidth? true (displacement addr16 form rm none)) := by decide
  rw [displacement_of_base addr16 form rm hbase]
  exact hall addr16 form rm

end Slot

namespace Parse

variable {mode : Mode} (p : Parse mode) {m : ModRM}

theorem addressingForm_eq (m : ModRM) :
    p.head.opcode.ruling.addressingForm m = p.instruction.operandForm m := by
  rw [Opcode.addressingForm_ruling, Instruction.operandForm, p.opcode_instruction]

/-- The slots of the displacement behind a ModRM byte, from the fields of the instruction. -/
theorem displacement_eq (hm : p.instruction.modrm = some m) : p.displacement =
    Slot.displacement (p.instruction.prefixes.contains .addrSize) (p.instruction.operandForm m) m.rm
      p.instruction.sib := by
  rw [p.modrm_instruction] at hm
  rw [displacement, hm, p.sib_instruction, ← p.contains_head_prefixes (by decide),
    ← p.addressingForm_eq]

/-- A SIB byte is read exactly behind the ModRM bytes that ask for one. -/
theorem isSome_sib_iff (hm : p.instruction.modrm = some m) : p.instruction.sib.isSome = true ↔
    p.instruction.operandForm m ≠ 3 ∧ m.rm = 4 ∧
      (mode = .long64 ∨ p.instruction.prefixes.contains .addrSize = false) := by
  have hlong : mode.isLong = true ↔ mode = .long64 := by cases mode <;> decide
  have hwants : p.head.wantsSib mode m = true ↔ p.instruction.operandForm m ≠ 3 ∧ m.rm = 4 ∧
      (mode = .long64 ∨ p.instruction.prefixes.contains .addrSize = false) := by
    rw [Head.wantsSib, hasSib, p.addressingForm_eq, p.contains_head_prefixes (by decide)]
    simp only [Bool.and_eq_true, Bool.or_eq_true, bne_iff_ne, beq_iff_eq, Bool.not_eq_true', hlong,
      and_assoc]
  have hadmits := p.admits
  rw [← hwants, p.sib_instruction]
  rw [p.modrm_instruction] at hm
  cases ha : p.addressing with
  | none =>
    rw [ha] at hm
    cases hm
  | modrm m' | sib m' s =>
    -- what a parse admits holds the answer of `Head.wantsSib`
    rw [ha] at hm hadmits
    cases hm
    rw [hadmits.2.1]
    rfl

end Parse

/-- The addressing bytes size the displacement. A SIB byte follows the ModRM byte for memory
operands with the fourth register, but not with 16-bit addresses in 32-bit mode. Where it names no
base register the displacement has 32 bits; otherwise the addressing form says how wide it is, and
whether there is one. -/
theorem decode_sizes_displacement (mode : Mode) (code : List Byte) (i : Instruction) (m : ModRM)
    (h : decode mode code = .ok i) (hm : i.modrm = some m) :
    (i.sib.isSome = true ↔
      i.operandForm m ≠ 3 ∧ m.rm = 4 ∧ (mode = .long64 ∨ i.prefixes.contains .addrSize = false)) ∧
    (i.LacksBase m → i.disp.map Literal.width = some 32) ∧
    (¬ i.LacksBase m →
      DisplacementSized (i.prefixes.contains .addrSize) (i.operandForm m) m.rm
        (i.disp.map Literal.width)) := by
  obtain ⟨p, rfl, -, -⟩ := exists_parse_of_decode h
  have hwidth := p.width_disp (by rw [hm]; rfl)
  rw [p.displacement_eq hm] at hwidth
  rw [hwidth]
  refine ⟨p.isSome_sib_iff hm, ?_, fun hbase => ?_⟩
  · rintro ⟨s, hs, hfive, hform⟩
    rw [hs]
    exact Slot.displacement_of_lacksBase _ _ _ hfive hform
  · apply Slot.displacementSized
    rintro s hs ⟨hfive, hform⟩
    exact hbase ⟨s, hs, hfive, hform⟩

/-- In 64-bit mode a SIB byte follows in spite of the address size prefix. It names no base
register, so the displacement has 32 bits; with a base register it has 16 bits under this prefix. -/
theorem decode_sizes_displacement_addr16 :
    (∃ i, decode .long64 [0x67, 0x8b, 0x04, 0x25, 1, 2, 3, 4] = .ok i ∧ i.sib.isSome = true ∧
      i.disp.map Literal.width = some 32) ∧
    ∃ i, decode .long64 [0x67, 0x8b, 0x84, 0x24, 1, 2] = .ok i ∧ i.sib.isSome = true ∧
      DisplacementSized true 2 4 (i.disp.map Literal.width) := by
  obtain ⟨i, hi, hm, hform, hlacks⟩ :
      ∃ i, decode .long64 [0x67, 0x8b, 0x04, 0x25, 1, 2, 3, 4] = .ok i ∧
      i.modrm = some ⟨0x04⟩ ∧ i.operandForm ⟨0x04⟩ = 0 ∧ i.sib = some ⟨0x25⟩ :=
        ⟨_, rfl, rfl, rfl, rfl⟩
  obtain ⟨j, hj, hm', hform', haddr', hbase'⟩ :
      ∃ j, decode .long64 [0x67, 0x8b, 0x84, 0x24, 1, 2] = .ok j ∧
      j.modrm = some ⟨0x84⟩ ∧ j.operandForm ⟨0x84⟩ = 2 ∧ j.prefixes.contains .addrSize = true ∧
      j.sib = some ⟨0x24⟩ := ⟨_, rfl, rfl, rfl, rfl, rfl⟩
  obtain ⟨hsib, hwide, -⟩ := decode_sizes_displacement .long64 _ i _ hi hm
  obtain ⟨hsib', -, hsized⟩ := decode_sizes_displacement .long64 _ j _ hj hm'
  refine ⟨⟨i, hi, hsib.mpr ?_, hwide ?_⟩, j, hj, hsib'.mpr ?_, ?_⟩
  · exact ⟨by rw [hform]; decide, rfl, .inl rfl⟩
  · exact ⟨_, hlacks, rfl, .inl hform⟩
  · exact ⟨by rw [hform']; decide, rfl, .inl rfl⟩
  · rw [haddr', hform'] at hsized
    apply hsized
    rintro ⟨s, hs, hfive, -⟩
    rw [hbase', Option.some.injEq] at hs
    rw [← hs] at hfive
    exact absurd hfive (by decide)

/-! ### Immediates -/

namespace Opcode

/-- The opcode is a near branch: a call, a jump or a conditional jump. -/
def isNearBranch : Opcode → Bool
  | primary b => b == 0xe8 || b == 0xe9
  | escaped b => decide (0x80 ≤ b ∧ b ≤ 0x8f)

/-- The opcode moves an immediate to a register. -/
def isRegisterMove : Opcode → Bool
  | primary b => decide (0xb8 ≤ b ∧ b ≤ 0xbf)
  | escaped _ => false

/-- The one-byte opcodes, but for offset moves and the group `F7`, whose immediate is as wide as the
operand. -/
def operandSized : List Byte :=
  [0x05, 0x0d, 0x15, 0x1d, 0x25, 0x2d, 0x35, 0x3d, 0x68, 0x69, 0x81, 0xa9,
    0xb8, 0xb9, 0xba, 0xbb, 0xbc, 0xbd, 0xbe, 0xbf, 0xc7]

/-- The opcode is one of `Opcode.operandSized`. -/
def isOperandSized : Opcode → Bool
  | primary b => operandSized.contains b
  | escaped _ => false

/-- The groups `F6` and `F7` are in none of the classes. -/
theorem byte_ne_of_class {o : Opcode}
    (h : (o.isOffsetMove || o.isNearBranch || o.isOperandSized) = true) :
    o.byte ≠ 0xf6 ∧ o.byte ≠ 0xf7 := by
  cases o with
  | primary b | escaped b =>
    constructor
    · rintro rfl
      exact absurd h (by decide)
    · rintro rfl
      exact absurd h (by decide)

theorem not_isOffsetMove_of_class {o : Opcode} (h : (o.isNearBranch || o.isOperandSized) = true) :
    o.isOffsetMove = false := by
  cases o with
  | escaped b => rfl
  | primary b =>
    -- none of the one-byte opcodes of the two classes lies between A0 and A3
    have hall : (([0xe8, 0xe9] ++ operandSized).all fun b => !(primary b).isOffsetMove) = true := by
      decide
    have hmem : b ∈ [0xe8, 0xe9] ++ operandSized := by
      simpa [isNearBranch, isOperandSized, or_assoc] using h
    exact (Bool.not_eq_true' _).mp (List.all_eq_true.mp hall b hmem)

theorem isOperandSized_of_isRegisterMove {o : Opcode} (h : o.isRegisterMove = true) :
    o.isOperandSized = true := by
  cases o with
  | escaped b => cases h
  | primary b =>
    have hall : ∀ b, (primary b).isRegisterMove = true → (primary b).isOperandSized = true := by
      decide +kernel
    exact hall b h

end Opcode

/-- The immediate of the instruction is as wide as the operand. In the group `F7` the first two
register fields have an immediate. -/
def Instruction.IsOperandSized (i : Instruction) : Prop :=
  i.opcode.isOperandSized = true ∨ (i.opcode = .primary 0xf7 ∧ ∃ m, i.modrm = some m ∧ m.reg ≤ 1)

/-- The instruction moves a 64-bit immediate to a register. -/
def Instruction.isWideMove (mode : Mode) (i : Instruction) : Bool :=
  mode.isLong && i.rex.any Rex.w && i.opcode.isRegisterMove

/-- The immediate is as wide as the class of the opcode says under these prefixes, in this mode. -/
structure ImmediateSized (mode : Mode) (i : Instruction) : Prop where
  /-- An offset is an address, and the operand size does not matter to it. -/
  offsetMove : i.opcode.isOffsetMove = true → i.imm.map Literal.width =
    some (if mode = .long64 then 64 else if i.prefixes.contains .addrSize then 16 else 32)
  /-- A branch distance is sized alike in both modes. -/
  nearBranch : i.opcode.isNearBranch = true → i.imm.map Literal.width =
    some (if i.prefixes.contains .opSize then 16 else 32)
  /-- REX.W counts before the operand size prefix, and for moves to registers only. -/
  operandSized : i.IsOperandSized → i.imm.map Literal.width =
    some (if i.isWideMove mode then 64 else if i.prefixes.contains .opSize then 16 else 32)
  /-- The offset of a far pointer is the immediate, and its selector the displacement. -/
  farPointer : i.IsFarPointer mode →
    i.imm.map Literal.width = some (if i.prefixes.contains .opSize then 16 else 32) ∧
      i.disp.map Literal.width = some 16

/-- What the maps say about the immediates of these opcodes. -/
theorem OpcodeMap.class_immediates :
    (∀ mode b, ((OpcodeMap.primary mode).get? b).all fun form =>
      (!((Opcode.primary b).isOffsetMove || (Opcode.primary b).isOperandSized) ||
        form.immediates == .operand) &&
      (!(Opcode.primary b).isNearBranch || form.immediates == .near)) ∧
    ∀ b, (OpcodeMap.secondary.get? b).all fun form =>
      !(Opcode.escaped b).isNearBranch || form.immediates == .near := by
  refine ⟨fun mode => ?_, by decide +kernel⟩
  cases mode <;> decide +kernel

theorem Mode.immediates_of_class {mode : Mode} {o : Opcode} {form : Form}
    (h : mode.form? o = some form) :
    ((o.isOffsetMove || o.isOperandSized) = true → form.immediates = .operand) ∧
      (o.isNearBranch = true → form.immediates = .near) := by
  cases o with
  | primary b =>
    have hall := OpcodeMap.class_immediates.1 mode b
    rw [show (OpcodeMap.primary mode).get? b = some form from h, Option.all_some,
      Bool.and_eq_true] at hall
    constructor
    · intro ho
      simpa [ho] using hall.1
    · intro ho
      simpa [ho] using hall.2
  | escaped b =>
    have hall := OpcodeMap.class_immediates.2 b
    rw [show OpcodeMap.secondary.get? b = some form from h, Option.all_some] at hall
    constructor
    · intro ho
      cases ho
    · intro ho
      simpa [ho] using hall

namespace Head

theorem operand16_of_not_offsetMove {h : Head} (hmove : h.opcode.isOffsetMove = false) :
    h.operand16 = h.prefixes.contains .opSize := by
  rw [operand16, hmove]
  rfl

/-- Apart from offset moves only moves to registers have 64-bit immediates. -/
theorem operand64_of_not_offsetMove {h : Head} (hmove : h.opcode.isOffsetMove = false) :
    h.operand64 = (h.rex.any Rex.w && h.opcode.isRegisterMove) := by
  have hmoves : ∀ b : Byte, (b &&& 0xf8 == 0xb8) = decide (0xb8 ≤ b ∧ b ≤ 0xbf) := by decide +kernel
  rw [operand64, hmove, Bool.false_or]
  cases h.rex with
  | none => rfl
  | some rex =>
    cases h.opcode with
    | primary b =>
      rw [Option.any_some, Opcode.isRegisterMove]
      exact congrArg (rex.w && ·) (hmoves b)
    | escaped b => exact (Bool.and_false rex.w).symm

end Head

namespace Parse

variable {mode : Mode} (p : Parse mode)

/-- In the three classes the register field does not matter to the immediates. -/
theorem immediates_of_class
    (h : (p.head.opcode.isOffsetMove || p.head.opcode.isNearBranch ||
      p.head.opcode.isOperandSized) = true) :
    p.immediates = p.form.immediates := by
  obtain ⟨hsix, hseven⟩ := Opcode.byte_ne_of_class h
  unfold immediates
  cases p.addressing.modrm? with
  | none => rfl
  | some m =>
    dsimp only
    rw [Form.immediatesWith, if_neg hsix, if_neg hseven, ite_self]

theorem operand16_of_not_offsetMove (hmove : p.head.opcode.isOffsetMove = false) :
    p.head.operand16 = p.instruction.prefixes.contains .opSize := by
  rw [Head.operand16_of_not_offsetMove hmove, p.contains_head_prefixes (by decide)]

theorem immediates_of_isOperandSized (h : p.instruction.IsOperandSized) :
    p.immediates = .operand ∧ p.head.opcode.isOffsetMove = false := by
  rw [Instruction.IsOperandSized, p.opcode_instruction, p.modrm_instruction] at h
  rcases h with ho | ⟨ho, m, hm, hreg⟩
  · rw [p.immediates_of_class (by rw [ho, Bool.or_true])]
    constructor
    · exact (Mode.immediates_of_class p.form_eq).1 (by rw [ho, Bool.or_true])
    · exact Opcode.not_isOffsetMove_of_class (by rw [ho, Bool.or_true])
  · -- here the immediate is there because of the register field
    refine ⟨?_, by rw [ho]; decide⟩
    rw [p.immediates_of_modrm hm, Form.immediatesWith, if_pos hreg, ho]
    rfl

theorem width_imm_offsetMove (h : p.instruction.opcode.isOffsetMove = true) :
    p.instruction.imm.map Literal.width =
      some (if mode = .long64 then 64
        else if p.instruction.prefixes.contains .addrSize then 16 else 32) := by
  rw [p.opcode_instruction] at h
  have himmediates : p.immediates = .operand := by
    rw [p.immediates_of_class (by rw [h, Bool.true_or, Bool.true_or])]
    exact (Mode.immediates_of_class p.form_eq).1 (by rw [h, Bool.true_or])
  -- an offset is sized by the address size prefix, and outside 64-bit mode no immediate has 64 bits
  have h16 : p.head.operand16 = p.instruction.prefixes.contains .addrSize := by
    rw [Head.operand16, h, if_pos rfl, p.contains_head_prefixes (by decide)]
  have h64 : p.head.operand64 = true := by rw [Head.operand64, h, Bool.true_or]
  rw [p.width_imm, himmediates, Immediates.keptWidth?_operand, h16, h64, Bool.and_true]
  cases mode <;> rfl

theorem width_imm_nearBranch (h : p.instruction.opcode.isNearBranch = true) :
    p.instruction.imm.map Literal.width =
      some (if p.instruction.prefixes.contains .opSize then 16 else 32) := by
  rw [p.opcode_instruction] at h
  have himmediates : p.immediates = .near := by
    rw [p.immediates_of_class (by rw [h, Bool.or_true, Bool.true_or])]
    exact (Mode.immediates_of_class p.form_eq).2 h
  have hmove : p.head.opcode.isOffsetMove = false :=
    Opcode.not_isOffsetMove_of_class (by rw [h, Bool.true_or])
  rw [p.width_imm, himmediates, Immediates.keptWidth?_near, p.operand16_of_not_offsetMove hmove]

theorem width_imm_operandSized (h : p.instruction.IsOperandSized) :
    p.instruction.imm.map Literal.width = some (if p.instruction.isWideMove mode then 64
      else if p.instruction.prefixes.contains .opSize then 16 else 32) := by
  obtain ⟨himmediates, hmove⟩ := p.immediates_of_isOperandSized h
  rw [p.width_imm, himmediates, Immediates.keptWidth?_operand, p.operand16_of_not_offsetMove hmove,
    Head.operand64_of_not_offsetMove hmove, Instruction.isWideMove, p.rex_instruction,
    p.opcode_instruction, Bool.and_assoc]

theorem widths_farPointer (h : p.instruction.IsFarPointer mode) :
    p.instruction.imm.map Literal.width =
      some (if p.instruction.prefixes.contains .opSize then 16 else 32) ∧
      p.instruction.disp.map Literal.width = some 16 := by
  have hfar := p.isFarPointer_iff.mp h
  obtain ⟨-, ho⟩ := h
  rw [p.opcode_instruction] at ho
  have hmove : p.head.opcode.isOffsetMove = false := by
    rcases ho with ho | ho <;> rw [ho] <;> decide
  obtain ⟨himm, hdisp⟩ := Immediates.keptWidth?_farPointer mode p.head.operand16 p.head.operand64
  -- there are no addressing bytes, so all slots are those of the pointer
  have hslots : p.head.slots mode p.form p.addressing =
      Immediates.farPointer.slots mode p.head.operand16 p.head.operand64 := by
    rw [p.addressing_eq_none (.inr hfar), Head.slots, hfar]
  have hkept := fun isDisp => p.width_kept isDisp
  rw [hslots] at hkept
  rw [← p.operand16_of_not_offsetMove hmove]
  exact ⟨(hkept false).trans himm, (hkept true).trans hdisp⟩

theorem immediateSized : ImmediateSized mode p.instruction where
  offsetMove := p.width_imm_offsetMove
  nearBranch := p.width_imm_nearBranch
  operandSized := p.width_imm_operandSized
  farPointer := p.widths_farPointer

end Parse

/-- The immediate of an instruction that the tables decode is as wide as the class of its opcode
says, whatever prefixes it has. The decoder that goes by the maps decodes the same instruction. -/
theorem decode_sizes_immediate (mode : Mode) (code : List Byte) (i : Instruction)
    (h : decodeByTable mode code = .ok (.ok i)) :
    ImmediateSized mode i ∧ decode mode code = .ok i := by
  have hdecode : decode mode code = .ok i :=
    Except.ok.inj ((decodeByTable_eq mode code).symm.trans h)
  obtain ⟨p, rfl, -, -⟩ := exists_parse_of_decode hdecode
  exact ⟨p.immediateSized, hdecode⟩

/-- An offset move in 32-bit mode has a 32-bit offset in spite of the operand size prefix, and a
move to a register in 64-bit mode a 64-bit immediate under REX.W. -/
theorem decode_sizes_immediate_prefixed :
    (∃ i, decodeByTable .protected32 [0x66, 0xa1, 1, 2, 3, 4] = .ok (.ok i) ∧
      i.imm.map Literal.width = some 32) ∧
    ∃ i, decodeByTable .long64 [0x66, 0x48, 0xb8, 1, 2, 3, 4, 5, 6, 7, 8] = .ok (.ok i) ∧
      i.imm.map Literal.width = some 64 := by
  simp only [decodeByTable_eq]
  obtain ⟨i, hi, ho, haddr⟩ : ∃ i, decode .protected32 [0x66, 0xa1, 1, 2, 3, 4] = .ok i ∧
      i.opcode = .primary 0xa1 ∧ i.prefixes.contains .addrSize = false := ⟨_, rfl, rfl, rfl⟩
  obtain ⟨j, hj, ho', hwide⟩ : ∃ j,
      decode .long64 [0x66, 0x48, 0xb8, 1, 2, 3, 4, 5, 6, 7, 8] = .ok j ∧
      j.opcode = .primary 0xb8 ∧ j.isWideMove .long64 = true := ⟨_, rfl, rfl, rfl⟩
  have hsized := decode_sizes_immediate .protected32 _ i (by rw [decodeByTable_eq, hi])
  have hsized' := decode_sizes_immediate .long64 _ j (by rw [decodeByTable_eq, hj])
  refine ⟨⟨i, by rw [hi], ?_⟩, j, by rw [hj], ?_⟩
  · rw [hsized.1.offsetMove (by rw [ho]; decide), haddr]
    rfl
  · rw [hsized'.1.operandSized (.inl (by rw [ho']; decide)), hwide]
    rfl

end LengthDisasm
