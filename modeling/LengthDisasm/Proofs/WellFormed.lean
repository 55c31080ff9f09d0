import Mathlib.Tactic.MkIffOfInductiveProp
import LengthDisasm.Instruction.Record
import LengthDisasm.Proofs.Layout

/-!
# Decoded instructions are well formed

The flags of an instruction announce its parts. One bit stands for a 64-bit immediate in 64-bit mode
and for a second 16-bit immediate in 32-bit mode, ENTER has two immediates of which the last one is
kept, and the selector of a far pointer is kept as a displacement. All of this is decided by the
sequence of literals that an opcode asks for, and there are few such sequences.

## Main definitions

* `DispFits`, `ImmFits`, `LiteralsFit` — literals go together with the flags that announce them
* `Instruction.WellFormed` — flags and parts of an instruction go together
* `Slot.announced`, `Slot.keptWidth?` — what a sequence of slots sets, and which literals are kept

## Main results

* `Immediates.fits_slots`, `Immediates.fits_displaced` — the sequences of slots fit the flags that
  they set
* `decode_wellFormed` — every decoded instruction is well formed
-/

namespace LengthDisasm

/-! ### Well-formed instructions -/

/-- The displacement flags with the widths that they stand for. -/
def InsnFlags.dispWidths : List (InsnFlags × Nat) := [(.disp8, 8), (.disp16, 16), (.disp32, 32)]

/-- The displacement, by its width, goes together with its flags. -/
@[mk_iff] structure DispFits (mode : Mode) (flags : InsnFlags) (disp : Option Nat) : Prop where
  /-- A displacement flag comes with ModRM and without another one, and tells the width. -/
  width : ∀ w ∈ InsnFlags.dispWidths, flags.contains w.1 = true → flags.contains .modrm = true ∧
    disp = some w.2 ∧ ∀ w' ∈ InsnFlags.dispWidths, flags.contains w'.1 = true → w' = w
  /-- Without a displacement flag only the selector of a far pointer is there, in 32-bit mode. -/
  selector : (∀ w ∈ InsnFlags.dispWidths, flags.contains w.1 = false) → disp.isSome = true →
    mode = .protected32 ∧ flags.contains .imm16 = true ∧
      (flags.contains .imm32 = true ∨ flags.contains .twoImm16 = true) ∧
      flags.contains .modrm = false ∧ disp = some 16

/-- The immediate, by its width, goes together with its flags. -/
@[mk_iff] structure ImmFits (mode : Mode) (flags : InsnFlags) (imm : Option Nat) : Prop where
  isSome : imm.isSome = (flags.contains .imm8 || flags.contains .imm16 || flags.contains .imm32 ||
    mode.isLong && flags.contains .imm64)
  /-- A byte counts first, then a 64-bit immediate, then the wider one of the others. -/
  width : imm.isSome = true → imm = some (if flags.contains .imm8 then 8
    else if mode.isLong && flags.contains .imm64 then 64
    else if flags.contains .imm32 then 32
    else 16)
  /-- A 64-bit immediate is the only one. -/
  imm64 : mode = .long64 → flags.contains .imm64 = true → flags.contains .imm8 = false ∧
    flags.contains .imm16 = false ∧ flags.contains .imm32 = false
  /-- In 32-bit mode the same bit stands for a second 16-bit immediate. -/
  twoImm16 : mode = .protected32 → flags.contains .twoImm16 = true →
    flags.contains .imm16 = true ∧ flags.contains .imm32 = false

/-- The literals, by their widths, go together with their flags. -/
@[mk_iff] structure LiteralsFit (mode : Mode) (flags : InsnFlags) (disp imm : Option Nat) :
    Prop where
  dispFits : DispFits mode flags disp
  immFits : ImmFits mode flags imm
  /-- A branch distance is an immediate, and no displacement is there. -/
  relative : flags.contains .relative = true →
    (imm = some 8 ∨ imm = some 16 ∨ imm = some 32) ∧ disp = none

section Decidable

variable (mode : Mode) (flags : InsnFlags) (disp imm : Option Nat)

instance : Decidable (DispFits mode flags disp) :=
  decidable_of_iff' _ (dispFits_iff mode flags disp)

instance : Decidable (ImmFits mode flags imm) := decidable_of_iff' _ (immFits_iff mode flags imm)

instance : Decidable (LiteralsFit mode flags disp imm) :=
  decidable_of_iff' _ (literalsFit_iff mode flags disp imm)

end Decidable

/-- Flags and parts of an instruction go together. -/
structure Instruction.WellFormed (mode : Mode) (i : Instruction) : Prop where
  sib_modrm : i.flags.contains .sib = true → i.flags.contains .modrm = true
  literals : LiteralsFit mode i.flags (i.disp.map Literal.width) (i.imm.map Literal.width)
  disp_lt : ∀ l, i.disp = some l → l.value < 2 ^ l.width
  imm_lt : ∀ l, i.imm = some l → l.value < 2 ^ l.width
  /-- Bytes that are not announced are not there, and stand as zero in a record. -/
  rex : i.flags.contains (.ofPrefix .rex) = false → i.rex = none ∧ i.record.rex = 0
  modrm : i.flags.contains .modrm = false → i.modrm = none ∧ i.record.modrm = 0
  sib : i.flags.contains .sib = false → i.sib = none ∧ i.record.sib = 0
  opcode2 : i.record.opcode ≠ 0x0f → i.record.opcode2 = 0

/-! ### What slots set -/

namespace Slot

/-- The flags of ModRM and literals that a sequence of slots sets. -/
def announced (hasModRM : Bool) (slots : List Slot) : InsnFlags :=
  slots.foldr (fun s f => s.flags ||| f) (if hasModRM then .modrm else .empty)

/-- The width of the literal that is kept as the displacement, or as the immediate: the last one. -/
def keptWidth? (isDisp : Bool) : List Slot → Option Nat
  | [] => none
  | s :: slots => (keptWidth? isDisp slots).or (if s.isDisp = isDisp then some s.width else none)

/-- The sequence of slots fits the flags that it sets. -/
def Fits (mode : Mode) (hasModRM : Bool) (slots : List Slot) : Prop :=
  LiteralsFit mode (announced hasModRM slots) (keptWidth? true slots) (keptWidth? false slots)

instance (mode : Mode) (hasModRM : Bool) (slots : List Slot) :
    Decidable (Fits mode hasModRM slots) :=
  inferInstanceAs (Decidable (LiteralsFit _ _ _ _))

end Slot

/-- The displacement or the immediate of an instruction. -/
def Instruction.kept (i : Instruction) (isDisp : Bool) : Option Literal :=
  if isDisp then i.disp else i.imm

namespace Slot

variable {slots : List Slot} {literals : List Literal} {i : Instruction}

theorem getLsbD_announced (hasModRM : Bool) (slots : List Slot) (k : Nat) :
    (announced hasModRM slots).bits.getLsbD k =
      ((slots.any fun s => s.flags.bits.getLsbD k) || hasModRM && decide (k = 0)) := by
  induction slots with
  | nil =>
    have hmodrm : InsnFlags.modrm.bits = BitVec.twoPow 32 0 := by decide
    cases hasModRM with
    | false => simp [announced, InsnFlags.empty]
    | true => simp [announced, hmodrm, BitVec.getLsbD_twoPow, eq_comm]
  | cons s slots ih =>
    have hcons : announced hasModRM (s :: slots) = s.flags ||| announced hasModRM slots := rfl
    rw [hcons, InsnFlags.getLsbD_or, ih, List.any_cons, Bool.or_assoc]

/-- Each slot adds its flags. -/
theorem getLsbD_flags_storeAll_eq (hlen : literals.length = slots.length) (k : Nat) :
    (storeAll slots literals i).flags.bits.getLsbD k =
      ((slots.any fun s => s.flags.bits.getLsbD k) || i.flags.bits.getLsbD k) := by
  induction slots generalizing literals i with
  | nil => simp [storeAll]
  | cons s slots ih =>
    cases literals with
    | nil => cases hlen
    | cons l literals =>
      rw [storeAll, ih (Nat.succ.inj hlen), flags_store, InsnFlags.getLsbD_or, List.any_cons]
      cases s.flags.bits.getLsbD k <;> simp

theorem kept_store (s : Slot) (l : Literal) (i : Instruction) (isDisp : Bool) :
    (s.store l i).kept isDisp = if s.isDisp = isDisp then some l else i.kept isDisp := by
  cases hs : s.isDisp <;> cases isDisp <;> simp [store, Instruction.kept, hs]

/-- Of several literals for one place the last one is kept. -/
theorem width_kept_storeAll (hwidths : literals.map Literal.width = slots.map Slot.width)
    (isDisp : Bool) :
    ((storeAll slots literals i).kept isDisp).map Literal.width =
      (keptWidth? isDisp slots).or ((i.kept isDisp).map Literal.width) := by
  -- along the slots: a literal that is read later takes the place of one read before
  induction slots generalizing literals i with
  | nil => simp [storeAll, keptWidth?]
  | cons s slots ih =>
    cases literals with
    | nil => cases hwidths
    | cons l literals =>
      rw [List.map_cons, List.map_cons, List.cons.injEq] at hwidths
      rw [storeAll, ih hwidths.2, kept_store, keptWidth?, Option.or_assoc]
      split <;> simp [hwidths.1]

/-- Only literals that were read are kept. -/
theorem mem_of_kept_storeAll {isDisp : Bool} {l : Literal}
    (h : (storeAll slots literals i).kept isDisp = some l) :
    i.kept isDisp = some l ∨ l ∈ literals := by
  fun_induction storeAll slots literals i with
  | case1 s slots l' literals i ih =>
    rcases ih h with hkept | hmem
    · rw [kept_store] at hkept
      split at hkept
      · cases hkept
        exact .inr List.mem_cons_self
      · exact .inl hkept
    · exact .inr (List.mem_cons_of_mem l' hmem)
  | case2 => exact .inl h

end Slot

/-! ### The sequences of slots -/

/-- With a ModRM byte there is no immediate, a byte or an operand-sized one. -/
theorem OpcodeMap.immediates_of_hasModRM :
    (∀ mode b, ((OpcodeMap.primary mode).get? b).all fun form =>
        !form.hasModRM || [Immediates.none, .byte, .operand].contains form.immediates) ∧
      ∀ b, (OpcodeMap.secondary.get? b).all fun form =>
        !form.hasModRM || [Immediates.none, .byte, .operand].contains form.immediates := by
  refine ⟨fun mode => ?_, by decide +kernel⟩
  cases mode <;> decide +kernel

theorem Mode.immediates_of_hasModRM {mode : Mode} {o : Opcode} {form : Form}
    (h : mode.form? o = some form) (hmodrm : form.hasModRM = true) :
    form.immediates ∈ [Immediates.none, .byte, .operand] := by
  have hall : (mode.form? o).all fun form =>
      !form.hasModRM || [Immediates.none, .byte, .operand].contains form.immediates := by
    cases o with
    | primary b => exact OpcodeMap.immediates_of_hasModRM.1 mode b
    | escaped b => exact OpcodeMap.immediates_of_hasModRM.2 b
  rw [h, Option.all_some, hmodrm] at hall
  exact List.contains_iff_mem.mp hall

namespace Immediates

variable (mode : Mode) (operand16 operand64 : Bool)

/-- Immediates without a ModRM byte fit; far pointers are there in 32-bit mode only. -/
theorem fits_slots (immediates : Immediates)
    (hfar : immediates = .farPointer → mode = .protected32) :
    Slot.Fits mode false (immediates.slots mode operand16 operand64) := by
  cases immediates with
  | farPointer =>
    obtain rfl := hfar rfl
    cases operand16 <;> cases operand64 <;> decide
  | _ => cases mode <;> cases operand16 <;> cases operand64 <;> decide

/-- The immediates that stand with a ModRM byte fit behind any displacement. -/
theorem fits_displaced {displacement : List Slot} {immediates : Immediates}
    (hdisp : displacement = [] ∨ ∃ w ∈ InsnFlags.dispWidths, displacement = [⟨w.2, w.1, true⟩])
    (himm : immediates ∈ [Immediates.none, .byte, .operand]) :
    Slot.Fits mode true (displacement ++ immediates.slots mode operand16 operand64) := by
  -- there are three kinds of immediates and four displacements
  have hall : ∀ immediates ∈ [Immediates.none, .byte, .operand],
      Slot.Fits mode true (immediates.slots mode operand16 operand64) ∧
        ∀ w ∈ InsnFlags.dispWidths,
          Slot.Fits mode true
            ([⟨w.2, w.1, true⟩] ++ immediates.slots mode operand16 operand64) := by
    cases mode <;> cases operand16 <;> cases operand64 <;> decide
  obtain ⟨hplain, hdisplaced⟩ := hall immediates himm
  rcases hdisp with rfl | ⟨w, hw, rfl⟩
  · exact hplain
  · exact hdisplaced w hw

end Immediates

theorem Slot.displacement_widths (addr16 : Bool) (form : BitVec 2) (rm : BitVec 3)
    (sib : Option Sib) :
    displacement addr16 form rm sib = [] ∨
      ∃ w ∈ InsnFlags.dispWidths, displacement addr16 form rm sib = [⟨w.2, w.1, true⟩] := by
  unfold displacement InsnFlags.dispWidths
  dsimp only
  split_ifs <;> simp

theorem Head.fits_operandSlots {mode : Mode} {h : Head} {form : Form}
    (hform : mode.form? h.opcode = some form) (hmodrm : form.hasModRM = true) (m : ModRM)
    (sib : Option Sib) : Slot.Fits mode true (h.operandSlots mode form m sib) := by
  apply Immediates.fits_displaced
  · exact Slot.displacement_widths _ _ _ _
  · have himm := Mode.immediates_of_hasModRM hform hmodrm
    rcases form.immediatesWith_cases h.opcode m.reg with heq | heq | heq
    · rwa [heq]
    · simp [heq]
    · simp [heq]

/-! ### Decoded instructions -/

/-- The flags that announce a ModRM byte or a literal. -/
def InsnFlags.structural : List InsnFlags :=
  [.modrm, .imm8, .imm16, .imm32, .imm64, .disp8, .disp16, .disp32, .relative]

theorem InsnFlags.exists_bit_of_structural {g : InsnFlags} (hg : g ∈ structural) :
    ∃ k < 10, k ≠ 1 ∧ g = ⟨BitVec.twoPow 32 k⟩ := by
  simp only [structural, List.mem_cons, List.not_mem_nil, or_false] at hg
  rcases hg with rfl | rfl | rfl | rfl | rfl | rfl | rfl | rfl | rfl
  · exact ⟨0, by decide⟩
  · exact ⟨2, by decide⟩
  · exact ⟨3, by decide⟩
  · exact ⟨4, by decide⟩
  · exact ⟨5, by decide⟩
  · exact ⟨6, by decide⟩
  · exact ⟨7, by decide⟩
  · exact ⟨8, by decide⟩
  · exact ⟨9, by decide⟩

/-- Only these flags matter to literals. -/
theorem LiteralsFit.congr {mode : Mode} {f f' : InsnFlags} {disp imm : Option Nat}
    (hcongr : ∀ g ∈ InsnFlags.structural, f'.contains g = f.contains g)
    (h : LiteralsFit mode f disp imm) : LiteralsFit mode f' disp imm := by
  have htwo : f'.contains .twoImm16 = f.contains .twoImm16 := hcongr .imm64 (by decide)
  simp only [InsnFlags.structural, List.forall_mem_cons] at hcongr
  obtain ⟨hmodrm, himm8, himm16, himm32, himm64, hdisp8, hdisp16, hdisp32, hrelative, -⟩ := hcongr
  have hdisp : ∀ w ∈ InsnFlags.dispWidths, f'.contains w.1 = f.contains w.1 := by
    simp [InsnFlags.dispWidths, hdisp8, hdisp16, hdisp32]
  refine ⟨⟨?_, ?_⟩, ⟨?_, ?_, ?_, ?_⟩, ?_⟩
  · intro w hw
    rw [hdisp w hw, hmodrm]
    intro hset
    obtain ⟨hset', hwidth, hother⟩ := h.dispFits.width w hw hset
    refine ⟨hset', hwidth, fun w' hw' => ?_⟩
    rw [hdisp w' hw']
    exact hother w' hw'
  · intro hclear
    rw [himm16, himm32, htwo, hmodrm]
    refine h.dispFits.selector fun w hw => ?_
    rw [← hdisp w hw]
    exact hclear w hw
  · rw [himm8, himm16, himm32, himm64]
    exact h.immFits.isSome
  · rw [himm8, himm32, himm64]
    exact h.immFits.width
  · rw [himm8, himm16, himm32, himm64]
    exact h.immFits.imm64
  · rw [himm16, himm32, htwo]
    exact h.immFits.twoImm16
  · rw [hrelative]
    exact h.relative

/-- Before its slots are read an instruction has no literals. -/
theorem Head.kept_withAddressing (h : Head) (a : Addressing) (isDisp : Bool) :
    (h.withAddressing a).kept isDisp = none := by
  cases a <;> cases isDisp <;> rfl

namespace Parse

variable {mode : Mode} (p : Parse mode)

theorem hasModRM_eq : p.form.hasModRM = p.addressing.modrm?.isSome := by
  have hadmits := p.admits
  cases ha : p.addressing with
  | none | modrm m | sib m s =>
    rw [ha] at hadmits
    exact hadmits.1

/-- The literals of a parse fit the flags that they set. -/
theorem fits_slots :
    Slot.Fits mode p.form.hasModRM (p.head.slots mode p.form p.addressing) := by
  have hadmits := p.admits
  cases ha : p.addressing with
  | none =>
    rw [ha] at hadmits
    rw [hadmits.1]
    refine Immediates.fits_slots mode _ _ p.form.immediates fun hfar => ?_
    exact ((Mode.immediates_of_form? p.form_eq).2.1.mp hfar).1
  | modrm m | sib m s =>
    rw [ha] at hadmits
    rw [hadmits.1]
    exact Head.fits_operandSlots p.form_eq hadmits.1 m _

/-- The flags of ModRM and literals are those that the slots announce. -/
theorem contains_announced {g : InsnFlags} (hg : g ∈ InsnFlags.structural) :
    p.instruction.flags.contains g =
      (Slot.announced p.form.hasModRM (p.head.slots mode p.form p.addressing)).contains g := by
  obtain ⟨k, hk, hne, rfl⟩ := InsnFlags.exists_bit_of_structural hg
  have hlen : p.literals.length = (p.head.slots mode p.form p.addressing).length := by
    simpa using congrArg List.length p.widths_eq
  -- the head sets flags of prefixes only
  have hhead : p.head.flags.bits.getLsbD k = false := by
    rw [p.head.getLsbD_flags, decide_eq_false (by omega), decide_eq_false (by omega)]
    simp
  have hflags : p.instruction.flags.bits.getLsbD k = _ := Slot.getLsbD_flags_storeAll_eq hlen k
  rw [InsnFlags.contains_twoPow _ k (by omega), InsnFlags.contains_twoPow _ k (by omega), hflags,
    Slot.getLsbD_announced, p.head.getLsbD_flags_withAddressing, hhead, p.hasModRM_eq]
  simp [hne]

/-- The literals that are kept have the widths of their slots. -/
theorem width_kept (isDisp : Bool) :
    (p.instruction.kept isDisp).map Literal.width =
      Slot.keptWidth? isDisp (p.head.slots mode p.form p.addressing) := by
  have hkept : (p.instruction.kept isDisp).map Literal.width = _ :=
    Slot.width_kept_storeAll p.widths_eq isDisp
  rw [hkept, p.head.kept_withAddressing, Option.map_none, Option.or_none]

theorem value_lt_of_kept (isDisp : Bool) {l : Literal} (h : p.instruction.kept isDisp = some l) :
    l.value < 2 ^ l.width := by
  rcases Slot.mem_of_kept_storeAll h with hkept | hmem
  · rw [p.head.kept_withAddressing] at hkept
    cases hkept
  · exact p.values_lt l hmem

theorem wellFormed : p.instruction.WellFormed mode where
  sib_modrm := by
    rw [p.contains_sib, p.contains_modrm, p.modrm_instruction, p.sib_instruction]
    cases p.addressing <;> simp [Addressing.modrm?, Addressing.sib?]
  literals := by
    -- flags of prefixes do not matter, so the check of the slots is enough
    have hfits := p.fits_slots.congr fun g hg => p.contains_announced hg
    rwa [← p.width_kept, ← p.width_kept] at hfits
  disp_lt l h := p.value_lt_of_kept true h
  imm_lt l h := p.value_lt_of_kept false h
  rex h := by
    rw [p.contains_rex, Option.isSome_eq_false_iff, Option.isNone_iff_eq_none] at h
    exact ⟨h, by simp [Instruction.record, h]⟩
  modrm h := by
    rw [p.contains_modrm, Option.isSome_eq_false_iff, Option.isNone_iff_eq_none] at h
    exact ⟨h, by simp [Instruction.record, h]⟩
  sib h := by
    rw [p.contains_sib, Option.isSome_eq_false_iff, Option.isNone_iff_eq_none] at h
    exact ⟨h, by simp [Instruction.record, h]⟩
  opcode2 h := by
    simp only [Instruction.record] at h ⊢
    cases hopcode : p.instruction.opcode with
    | primary b => rfl
    | escaped b =>
      rw [hopcode] at h
      exact absurd rfl h

end Parse

/-- Every decoded instruction is well formed. -/
theorem decode_wellFormed {mode : Mode} {code : List Byte} {i : Instruction}
    (h : decode mode code = .ok i) : i.WellFormed mode := by
  obtain ⟨p, rfl, -, -⟩ := exists_parse_of_decode h
  exact p.wellFormed

/-- A far call in 32-bit mode with 16-bit operands: the selector is kept as a displacement. -/
def farCall : List Byte := [0x66, 0x9a, 4, 3, 2, 1]

theorem decode_wellFormed_far_call :
    ∃ i, decode .protected32 farCall = .ok i ∧ i.imm = some ⟨0x0304, 16⟩ ∧
      i.disp = some ⟨0x0102, 16⟩ ∧ i.WellFormed .protected32 := by
  have hcall : ∃ i, decode .protected32 farCall = .ok i ∧
      i.imm = some ⟨0x0304, 16⟩ ∧ i.disp = some ⟨0x0102, 16⟩ := ⟨_, rfl, rfl, rfl⟩
  obtain ⟨i, hdecode, himm, hdisp⟩ := hcall
  exact ⟨i, hdecode, himm, hdisp, decode_wellFormed hdecode⟩

end LengthDisasm
