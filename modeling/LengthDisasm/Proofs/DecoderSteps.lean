import LengthDisasm.Decode.ByTable
import LengthDisasm.Proofs.Layout
import LengthDisasm.Proofs.OpcodeTables

/-!
# The steps of decoding by the packed tables

A decoder that goes by the packed tables keeps what it has read so far in a state, and rewrites the
shape of the opcode while it reads the literals. Each of its steps has one outcome from each state:
it reads the literals of some slots, checks a rule, or fails.

## Main definitions

* `Steps.ReadsFrom` — steps that read the literals of slots, and nothing else
* `Steps.Guards` — steps that only check a condition
* `InsnFlags.Opens` — the flags under which a 16-bit immediate is not a selector
* `readAddress` — the SIB byte and the displacement, as `decode` reads them

## Main results

* `Steps.readsFrom_readImmediates` — the shape of immediates reads the slots of immediates
* `Steps.outcome_checkModRM` — the rules for a ModRM byte
* `Steps.outcome_readAddressing` — the addressing bytes
-/

namespace LengthDisasm

/-- What a decoder holds with other parts and another cursor. -/
def DecoderState.holding (s : DecoderState) (r : Instruction × Cursor) : DecoderState :=
  { s with insn := r.1, cursor := r.2 }

/-! ### Outcomes -/

namespace Steps

section Outcomes

variable {α β : Type} (s : DecoderState)

@[simp] theorem outcome_pure (a : α) : outcome (pure a) s = .ok (.ok (a, s)) := rfl

@[simp] theorem outcome_get : outcome get s = .ok (.ok (s, s)) := rfl

@[simp] theorem outcome_modify (f : DecoderState → DecoderState) :
    outcome (modify f) s = .ok (.ok ((), f s)) := rfl

@[simp] theorem outcome_throw (e : DecodeError) :
    outcome (throw e : Steps α) s = .ok (.error e) := rfl

@[simp] theorem outcome_modifyInsn (f : Instruction → Instruction) :
    outcome (modifyInsn f) s = .ok (.ok ((), { s with insn := f s.insn })) := rfl

@[simp] theorem outcome_setFlags (flags : InsnFlags) : outcome (setFlags flags) s =
    .ok (.ok ((), { s with insn := { s.insn with flags := s.insn.flags ||| flags } })) := rfl

/-- A look at the tables that is no fault. -/
@[simp] theorem outcome_lift_ok (a : α) :
    outcome (liftM (Except.ok a : Except Fault α) : Steps α) s = .ok (.ok (a, s)) := rfl

theorem outcome_bind (steps : Steps α) (next : α → Steps β) :
    outcome (steps >>= next) s = match outcome steps s with
      | .ok (.ok (a, s')) => outcome (next a) s'
      | .ok (.error e) => .ok (.error e)
      | .error f => .error f := by
  simp only [outcome, StateT.run_bind, ExceptT.run_bind]
  cases ExceptT.run (steps.run s) with
  | error f => rfl
  | ok r => cases r <;> rfl

theorem outcome_readByte : outcome readByte s =
    .ok (s.cursor.readByte.map fun r => (r.1, { s with cursor := r.2 })) := by
  simp only [readByte, outcome_bind, outcome_get]
  cases s.cursor.readByte <;> rfl

theorem outcome_readLiteral (width : Nat) : outcome (readLiteral width) s =
    .ok ((Literal.read width s.cursor).map fun r => (r.1, { s with cursor := r.2 })) := by
  simp only [readLiteral, outcome_bind, outcome_get]
  cases Literal.read width s.cursor <;> rfl

end Outcomes

end Steps

/-! ### Literals -/

namespace Slot

theorem readAll_singleton (slot : Slot) (i : Instruction) (c : Cursor) :
    readAll [slot] i c = (Literal.read slot.width c).map fun r => (slot.store r.1 i, r.2) := by
  simp only [readAll, bind, Except.bind]
  cases Literal.read slot.width c <;> rfl

theorem readAll_append (slots slots' : List Slot) (i : Instruction) (c : Cursor) :
    readAll (slots ++ slots') i c = readAll slots i c >>= fun r => readAll slots' r.1 r.2 := by
  induction slots generalizing i c with
  | nil => rfl
  | cons s slots ih =>
    simp only [List.cons_append, readAll, bind, Except.bind]
    cases Literal.read s.width c with
    | error e => rfl
    | ok r => exact ih _ _

theorem flags_of_readAll_singleton {slot : Slot} {i : Instruction} {c : Cursor}
    {r : Instruction × Cursor} (h : readAll [slot] i c = .ok r) :
    r.1.flags = i.flags ||| slot.flags := by
  rw [readAll_singleton] at h
  cases hl : Literal.read slot.width c with
  | error e =>
    rw [hl] at h
    cases h
  | ok l =>
    rw [hl] at h
    cases h
    exact flags_store slot l.1 i

end Slot

namespace Steps

variable {s : DecoderState}

/-- From a state, steps read the literals of slots and write nothing else. -/
def ReadsFrom (steps : Steps Unit) (s : DecoderState) (slots : List Slot) : Prop :=
  outcome steps s = .ok ((Slot.readAll slots s.insn s.cursor).map fun r => ((), s.holding r))

theorem readsFrom_pure : ReadsFrom (pure ()) s [] := rfl

theorem readsFrom_readImm (flags : InsnFlags) (width : Nat) :
    ReadsFrom (readImm flags width) s [⟨width, flags, false⟩] := by
  simp only [ReadsFrom, readImm, outcome_bind, outcome_setFlags, outcome_readLiteral,
    Slot.readAll_singleton]
  cases Literal.read width s.cursor <;> rfl

theorem readsFrom_readDisp (flags : InsnFlags) (width : Nat) :
    ReadsFrom (readDisp flags width) s [⟨width, flags, true⟩] := by
  simp only [ReadsFrom, readDisp, outcome_bind, outcome_setFlags, outcome_readLiteral,
    Slot.readAll_singleton]
  cases Literal.read width s.cursor <;> rfl

theorem readsFrom_of_get {steps : DecoderState → Steps Unit} {slots : List Slot}
    (h : ReadsFrom (steps s) s slots) : ReadsFrom (get >>= steps) s slots := by
  rw [ReadsFrom, outcome_bind]
  exact h

/-- Literals that are read one after the other. -/
theorem ReadsFrom.bind {steps next : Steps Unit} {slots slots' : List Slot}
    (h : ReadsFrom steps s slots)
    (h' : ∀ r, Slot.readAll slots s.insn s.cursor = .ok r → ReadsFrom next (s.holding r) slots') :
    ReadsFrom (steps >>= fun _ => next) s (slots ++ slots') := by
  rw [ReadsFrom, outcome_bind, h, Slot.readAll_append]
  cases hr : Slot.readAll slots s.insn s.cursor with
  | error e => rfl
  | ok r => exact h' r hr

end Steps

/-! ### Immediates -/

/-- No immediate was read that makes a selector of a 16-bit immediate after it. -/
def InsnFlags.Opens (f : InsnFlags) : Prop := f.contains .imm16 = false ∧ f.contains .imm32 = false

namespace InsnFlags

variable {f g : InsnFlags}

instance : Decidable f.Opens := inferInstanceAs (Decidable (_ ∧ _))

theorem contains_imm16 (f : InsnFlags) : f.contains .imm16 = f.bits.getLsbD 3 :=
  f.contains_twoPow 3 (by decide)

theorem contains_imm32 (f : InsnFlags) : f.contains .imm32 = f.bits.getLsbD 4 :=
  f.contains_twoPow 4 (by decide)

theorem opens_iff : f.Opens ↔ f.bits.getLsbD 3 = false ∧ f.bits.getLsbD 4 = false := by
  rw [Opens, contains_imm16, contains_imm32]

theorem Opens.or (hf : f.Opens) (hg : g.Opens) : (f ||| g).Opens := by
  rw [opens_iff] at hf hg ⊢
  rw [getLsbD_or, getLsbD_or, hf.1, hf.2, hg.1, hg.2]
  exact ⟨rfl, rfl⟩

theorem opens_withPrefixes (s : PrefixSet) : (empty.withPrefixes s).Opens := by
  rw [opens_iff, getLsbD_withPrefixes_empty, getLsbD_withPrefixes_empty]
  exact ⟨rfl, rfl⟩

end InsnFlags

namespace Slot

theorem opens_of_readAll {slots : List Slot} (hslots : ∀ s ∈ slots, s.flags.Opens)
    {i : Instruction} {c : Cursor} {r : Instruction × Cursor} (h : readAll slots i c = .ok r)
    (hflags : i.flags.Opens) : r.1.flags.Opens := by
  induction slots generalizing i c with
  | nil =>
    cases h
    exact hflags
  | cons s slots ih =>
    rw [List.forall_mem_cons] at hslots
    simp only [readAll, bind, Except.bind] at h
    split at h
    · cases h
    · refine ih hslots.2 h ?_
      rw [flags_store]
      exact hflags.or hslots.1

theorem opens_of_mem_displacement {addr16 : Bool} {form : BitVec 2} {rm : BitVec 3}
    {sib : Option Sib} {s : Slot} (hs : s ∈ displacement addr16 form rm sib) : s.flags.Opens := by
  unfold displacement at hs
  dsimp only at hs
  split_ifs at hs <;> simp at hs <;> subst hs <;> decide

end Slot

namespace Steps

variable {s : DecoderState}

theorem readsFrom_readWord (mode : Mode) (hflags : s.insn.flags.Opens) :
    ReadsFrom (readWord mode) s [.imm16] := by
  apply readsFrom_of_get
  simp only [hflags.1, hflags.2, Bool.false_eq_true, if_false, ite_self]
  exact readsFrom_readImm _ _

/-- Behind the offset of a far pointer a 16-bit immediate is the selector. -/
theorem readsFrom_readWord_selector (offset16 : Bool) {f : InsnFlags} (hflags : f.Opens)
    (hoffset : s.insn.flags = f ||| if offset16 then .imm16 else .imm32) :
    ReadsFrom (readWord .protected32) s [.selector offset16] := by
  obtain ⟨himm16, himm32⟩ := InsnFlags.opens_iff.mp hflags
  apply readsFrom_of_get
  simp only [hoffset, InsnFlags.contains_imm16, InsnFlags.contains_imm32, InsnFlags.getLsbD_or,
    himm16, himm32]
  cases offset16 <;> exact readsFrom_readDisp _ _

/-- The immediates of 64-bit mode that are as wide as the operand. A 16-bit one is left to the step
for 16-bit immediates. -/
theorem readsFrom_operand_long {modrm : Byte} (hmodrm : modrm = 0 ∨ modrm = Shape.modrm)
    (hflags : s.insn.flags.Opens) :
    ReadsFrom (readImmediates .long64 (Immediates.operand.shape ||| modrm)) s
      (Immediates.operand.slots .long64 (s.prefixes.contains .opSize) s.force64) := by
  have hword := readsFrom_readWord .long64 hflags
  rw [Immediates.slots]
  rcases hmodrm with rfl | rfl
  all_goals
    refine readsFrom_of_get (readsFrom_of_get ?_)
    cases s.force64 with
    | true => exact (readsFrom_readImm _ _).bind fun _ _ => readsFrom_pure
    | false =>
      cases s.prefixes.contains .opSize with
      | true => exact hword.bind fun _ _ => readsFrom_pure
      | false => exact (readsFrom_readImm _ _).bind fun _ _ => readsFrom_pure

/-- The steps for the shape of immediates read the slots of the immediates. The operand size is that
of the prefixes which the decoder holds, and the mark for 64 bits that of the decoder. -/
theorem readsFrom_readImmediates (mode : Mode) (immediates : Immediates) {modrm : Byte}
    (hmodrm : modrm = 0 ∨ modrm = Shape.modrm) (hflags : s.insn.flags.Opens)
    (hfar : immediates = .farPointer → mode = .protected32) :
    ReadsFrom (readImmediates mode (immediates.shape ||| modrm)) s
      (immediates.slots mode (s.prefixes.contains .opSize) s.force64) := by
  -- the bit for the ModRM byte is still in the shape, and no step for immediates asks for it
  have hword := readsFrom_readWord mode hflags
  cases immediates with
  | none => rcases hmodrm with rfl | rfl <;> exact readsFrom_of_get readsFrom_pure
  | byte =>
    rcases hmodrm with rfl | rfl <;>
      exact readsFrom_of_get ((readsFrom_readImm _ _).bind fun _ _ => readsFrom_pure)
  | word =>
    rcases hmodrm with rfl | rfl <;>
      exact readsFrom_of_get (hword.bind fun _ _ => readsFrom_pure)
  | wordByte =>
    rcases hmodrm with rfl | rfl <;>
      exact readsFrom_of_get (hword.bind fun _ _ =>
        (readsFrom_readImm _ _).bind fun _ _ => readsFrom_pure)
  | operand =>
    cases mode with
    | long64 => exact readsFrom_operand_long hmodrm hflags
    | protected32 =>
      apply readsFrom_of_get
      rw [Immediates.slots]
      cases s.prefixes.contains .opSize <;> rcases hmodrm with rfl | rfl <;>
        exact (readsFrom_readImm _ _).bind fun _ _ => readsFrom_pure
  | farPointer =>
    -- the flags of the offset say that the next immediate is the selector
    obtain rfl := hfar rfl
    apply readsFrom_of_get
    rw [Immediates.slots]
    cases s.prefixes.contains .opSize with
    | true =>
      rcases hmodrm with rfl | rfl <;>
        exact (readsFrom_readImm _ _).bind fun _ hr =>
          (readsFrom_readWord_selector true hflags (Slot.flags_of_readAll_singleton hr)).bind
            fun _ _ => readsFrom_pure
    | false =>
      rcases hmodrm with rfl | rfl <;>
        exact (readsFrom_readImm _ _).bind fun _ hr =>
          (readsFrom_readWord_selector false hflags (Slot.flags_of_readAll_singleton hr)).bind
            fun _ _ => readsFrom_pure
  | short => rcases hmodrm with rfl | rfl <;> exact readsFrom_of_get (readsFrom_readImm _ _)
  | near =>
    apply readsFrom_of_get
    rw [Immediates.slots]
    cases s.prefixes.contains .opSize <;> rcases hmodrm with rfl | rfl <;>
      exact readsFrom_readImm _ _

end Steps

/-! ### Rules -/

namespace Opcode

/-- The rules that apply are those of a two-byte opcode exactly if its second byte is not zero. -/
theorem isEscaped_ruling (o : Opcode) : o.ruling.isEscaped = (o.second != 0) := by
  cases o with
  | primary b => rfl
  | escaped b =>
    revert b
    decide +kernel

theorem byte_ruling (o : Opcode) : o.ruling.byte = o.byte := by
  cases o with
  | primary b => rfl
  | escaped b =>
    revert b
    decide +kernel

end Opcode

namespace Steps

variable {α β : Type} {s : DecoderState} {condition : Bool} {e : DecodeError}

/-- Steps that fail if the condition holds, and otherwise give `a` and write nothing. -/
def Guards (steps : Steps α) (s : DecoderState) (condition : Bool) (e : DecodeError) (a : α) :
    Prop :=
  outcome steps s = .ok (if condition then .error e else .ok (a, s))

theorem guards_refuseIf (condition : Bool) (e : DecodeError) :
    Guards (refuseIf condition e) s condition e () := by
  cases condition <;> rfl

theorem guards_refuseIf_return (condition : Bool) (e : DecodeError) (a : α) :
    Guards (refuseIf condition e >>= fun _ => pure a) s condition e a := by
  cases condition <;> rfl

theorem guards_pure (a : α) (e : DecodeError) : Guards (pure a) s false e a := rfl

theorem guards_of_get {steps : DecoderState → Steps α} {a : α}
    (h : Guards (steps s) s condition e a) : Guards (get >>= steps) s condition e a := by
  rw [Guards, outcome_bind]
  exact h

/-- A look at the tables before a check. -/
theorem guards_of_lift {steps : β → Steps α} {x : Except Fault β} {a : α} {b : β}
    (hx : x = .ok b) (h : Guards (steps b) s condition e a) :
    Guards (liftM x >>= steps) s condition e a := by
  rw [hx, Guards, outcome_bind]
  exact h

/-- What follows a check runs if the check does not fail. -/
theorem Guards.outcome_bind {steps : Steps α} {a : α} (h : Guards steps s condition e a)
    (next : α → Steps β) :
    outcome (steps >>= next) s = if condition then .ok (.error e) else outcome (next a) s := by
  rw [Steps.outcome_bind, h]
  cases condition <;> rfl

/-- Two checks for the same error. -/
theorem Guards.bind {steps : Steps α} {next : α → Steps β} {a : α} {b : β} {condition' : Bool}
    (h : Guards steps s condition e a) (h' : Guards (next a) s condition' e b) :
    Guards (steps >>= next) s (condition || condition') e b := by
  rw [Guards, h.outcome_bind, h']
  cases condition <;> rfl

variable (mode : Mode) (r : Opcode) (m : ModRM)

theorem guards_checkX87 : Guards (checkX87 mode r.isEscaped r.byte m) s (r.isUndefinedX87 m)
    .unknownOpcode () := by
  cases r with
  | escaped b => exact guards_pure () _
  | primary b =>
    unfold checkX87 Opcode.isUndefinedX87
    by_cases hrange : 0xd9 ≤ b ∧ b ≤ 0xdf
    · -- the seven opcodes are counted from the first one, and each has a row of masks
      have hlow : 0xd9 ≤ b.toNat := hrange.1
      have hhigh : b.toNat ≤ 0xdf := hrange.2
      have hindex : (b - 0xd9).toNat = b.toNat - 0xd9 := BitVec.toNat_sub_of_le hrange.1
      have hrow : b.toNat - 0xd9 < 7 := by omega
      simp only [Opcode.isEscaped, Opcode.byte, hrange, hindex, ModRM.isRegister, beq_iff_eq,
        Bool.not_false, Bool.true_and, and_self, decide_true, if_true]
      by_cases hmod : m.mod = 3
      · simp only [hmod, if_true]
        apply guards_of_lift (mode.x87Mask_tables_register hrow m.reg)
        rw [OpcodeTables.isMasked_bits]
        exact guards_refuseIf _ _
      · simp only [hmod, if_false]
        apply guards_of_lift (mode.x87Mask_tables_memory hrow)
        rw [OpcodeTables.isMasked_bits]
        exact guards_refuseIf _ _
    · simp only [Opcode.isEscaped, Opcode.byte, hrange]
      exact guards_pure () _

theorem guards_checkLock : Guards (checkLock mode r.isEscaped r.byte m) s
    (s.prefixes.contains .lock && (m.isRegister || !r.isLockable m.reg)) .invalidLock () := by
  unfold checkLock
  apply guards_of_get
  cases s.prefixes.contains .lock with
  | false => exact guards_pure () _
  | true =>
    exact (guards_refuseIf _ _).bind
      (guards_of_lift (mode.allowsLock_tables r m.reg) (guards_refuseIf _ _))

theorem guards_checkSystemMove : Guards (checkSystemMove r.isEscaped r.byte m) s
    (r.isMissingRegister m.reg) .badOperand (r.addressingForm m) := by
  unfold checkSystemMove Opcode.isMissingRegister Opcode.addressingForm
  cases r with
  | primary b =>
    simp only [Opcode.isEscaped, Opcode.byte, Opcode.isControlMove, Opcode.isDebugMove,
      Bool.false_and, Bool.not_false, Bool.true_and, Bool.false_eq_true, if_false, Bool.or_self,
      beq_iff_eq, Opcode.primary.injEq]
    split_ifs
    · exact guards_refuseIf_return _ _ _
    · exact guards_refuseIf_return _ _ _
    · exact guards_pure _ _
  | escaped b =>
    simp only [Opcode.isEscaped, Opcode.byte, Opcode.isControlMove, Opcode.isDebugMove,
      Bool.true_and, Bool.not_true, Bool.false_and, Bool.false_eq_true, if_false, reduceCtorEq]
    by_cases hcontrol : (b == 0x20 || b == 0x22) = true
    · simp only [hcontrol, if_true, Bool.true_or]
      exact guards_refuseIf_return _ _ _
    · by_cases hdebug : (b == 0x21 || b == 0x23) = true
      · simp only [hcontrol, hdebug, if_true, Bool.or_true]
        exact guards_refuseIf_return _ _ _
      · simp only [hcontrol, hdebug, Bool.or_self]
        exact guards_pure _ _

theorem guards_checkForm (form : BitVec 2) (reg : BitVec 3) :
    Guards (checkForm mode r.isEscaped r.byte form reg) s
      (if form = 3 then r.refusesRegister s.prefixes.classes reg
        else r.refusesMemory s.prefixes.classes) .badOperand () := by
  unfold checkForm
  apply guards_of_get
  by_cases hform : form = 3
  · simp only [hform, if_true]
    exact guards_of_lift (mode.deniesRegister_tables r _ reg) (guards_refuseIf _ _)
  · simp only [hform, if_false]
    cases r with
    | primary b => exact guards_pure () _
    | escaped b => exact guards_refuseIf _ _

/-- An empty mask refuses no register field. -/
theorem guards_mask (mask : Byte) : Guards
    (refuseIf (mask != 0 && OpcodeTables.isMasked mask m.reg) .unknownOpcode) s
    (RegSet.contains ⟨mask⟩ m.reg) .unknownOpcode () := by
  by_cases hmask : mask = 0
  · have hempty : ∀ reg, RegSet.contains ⟨0⟩ reg = false := by decide
    rw [hmask, hempty]
    exact guards_refuseIf _ _
  · rw [bne_iff_ne.mpr hmask, Bool.true_and, ← OpcodeTables.isMasked_bits]
    exact guards_refuseIf _ _

/-- The steps for the ModRM byte check the rules in order, and give the addressing form. -/
theorem outcome_checkModRM (mask : Byte) :
    outcome (checkModRM mode r.isEscaped r.byte mask m) s =
      .ok ((r.checkOperand ⟨mask⟩ s.prefixes m).map fun _ => (r.addressingForm m, s)) := by
  unfold checkModRM Opcode.checkOperand
  -- both go through the rules in the same order, and each rule fails or is passed
  rw [(guards_mask m mask).outcome_bind]
  split
  · rfl
  rw [(guards_checkX87 mode r m).outcome_bind]
  split
  · rfl
  rw [(guards_checkLock mode r m).outcome_bind]
  split
  · rfl
  rw [(guards_checkSystemMove r m).outcome_bind]
  split
  · rfl
  rw [(guards_checkForm mode r (r.addressingForm m) m.reg).outcome_bind]
  by_cases hform : r.addressingForm m = 3
  · simp only [hform, if_true, beq_self_eq_true]
    split <;> rfl
  · simp only [hform, if_false, beq_iff_eq]
    split <;> rfl

end Steps

/-! ### Addressing bytes -/

/-- The SIB byte and the displacement of an addressing form, read into an instruction. -/
def readAddress (mode : Mode) (addr16 : Bool) (form : BitVec 2) (rm : BitVec 3) (i : Instruction)
    (c : Cursor) : Except DecodeError (Instruction × Cursor) :=
  if hasSib mode addr16 form rm then
    c.readByte >>= fun p =>
      Slot.readAll (Slot.displacement addr16 form rm (some ⟨p.1⟩))
        { i with flags := i.flags ||| .sib, sib := some ⟨p.1⟩ } p.2
  else Slot.readAll (Slot.displacement addr16 form rm none) i c

theorem readAddressed_eq (mode : Mode) (h : Head) (form : Form) (m : ModRM) (c : Cursor) :
    readAddressed mode h form m c =
      readAddress mode (h.prefixes.contains .addrSize) (h.opcode.ruling.addressingForm m) m.rm
        (h.withModRM m) c >>= fun r =>
      Slot.readAll ((form.immediatesWith h.opcode m.reg).slots mode h.operand16 h.operand64)
        r.1 r.2 := by
  unfold readAddressed readAddress
  split
  · cases c.readByte with
    | error e => rfl
    | ok p => exact Slot.readAll_append _ _ _ _
  · exact Slot.readAll_append _ _ _ _

theorem opens_of_readAddress {mode : Mode} {addr16 : Bool} {form : BitVec 2} {rm : BitVec 3}
    {i : Instruction} {c : Cursor} {r : Instruction × Cursor}
    (h : readAddress mode addr16 form rm i c = .ok r) (hflags : i.flags.Opens) :
    r.1.flags.Opens := by
  unfold readAddress at h
  split at h
  · cases hbyte : c.readByte with
    | error e =>
      rw [hbyte] at h
      cases h
    | ok p =>
      rw [hbyte] at h
      exact Slot.opens_of_readAll (fun _ => Slot.opens_of_mem_displacement) h
        (hflags.or (by decide))
  · exact Slot.opens_of_readAll (fun _ => Slot.opens_of_mem_displacement) h hflags

namespace Steps

variable {s : DecoderState}

/-- A displacement of so many bytes, as slots. -/
def slotsOfSize : (size : Nat) → List Slot
  | 1 => [⟨8, .disp8, true⟩]
  | 2 => [⟨16, .disp16, true⟩]
  | 4 => [⟨32, .disp32, true⟩]
  | _ => []

theorem readsFrom_readDisplacement (size : Nat) :
    ReadsFrom (readDisplacement size) s (slotsOfSize size) := by
  rcases size with _ | _ | _ | _ | _ | size
  · exact readsFrom_pure
  · exact readsFrom_readDisp _ _
  · exact readsFrom_readDisp _ _
  · exact readsFrom_pure
  · exact readsFrom_readDisp _ _
  · exact readsFrom_pure

theorem slotsOfSize_displacementSize (addr16 : Bool) (form : BitVec 2) (rm : BitVec 3) :
    slotsOfSize (displacementSize addr16 form rm) = Slot.displacement addr16 form rm none := by
  revert addr16 form rm
  decide

/-- A SIB byte changes the displacement of the two forms whose lowest bit is clear. -/
theorem slotsOfSize_sib (addr16 : Bool) (form : BitVec 2) (rm : BitVec 3) (sib : Sib) :
    slotsOfSize (if sib.base == 5 && form &&& 1 == 0 then 4
      else displacementSize addr16 form rm) = Slot.displacement addr16 form rm (some sib) := by
  have hform : (form &&& 1 == 0) = (form == 0 || form == 2) := by
    revert form
    decide
  have hnone := slotsOfSize_displacementSize addr16 form rm
  rw [hform]
  by_cases hbase : (sib.base == 5 && (form == 0 || form == 2)) = true
  · simp only [hbase, if_true, Slot.displacement]
    rfl
  · rw [if_neg hbase, hnone]
    simp only [Slot.displacement, hbase]

theorem outcome_readMemory (mode : Mode) (form : BitVec 2) (rm : BitVec 3) :
    outcome (readMemory mode form rm) s =
      .ok ((readAddress mode (s.prefixes.contains .addrSize) form rm s.insn
        s.cursor).map fun r => ((), s.holding r)) := by
  unfold readMemory readAddress hasSib
  rw [outcome_bind, outcome_get]
  dsimp only
  split
  · rw [outcome_bind, outcome_readByte]
    cases s.cursor.readByte with
    | error e => rfl
    | ok p =>
      have hsize := readsFrom_readDisplacement (s := { s with
        cursor := p.2
        insn := { s.insn with flags := s.insn.flags ||| .sib, sib := some ⟨p.1⟩ } })
        (if Sib.base ⟨p.1⟩ == 5 && form &&& 1 == 0 then 4
          else displacementSize (s.prefixes.contains .addrSize) form rm)
      rw [slotsOfSize_sib, apply_ite readDisplacement] at hsize
      exact hsize
  · rw [← slotsOfSize_displacementSize]
    exact readsFrom_readDisplacement _

theorem outcome_readAddressing (mode : Mode) (r : Opcode) (shape mask : Byte) (m : ModRM) :
    outcome (readAddressing mode r.isEscaped r.byte shape mask m) s =
      .ok ((r.checkOperand ⟨mask⟩ s.prefixes m >>= fun _ =>
        readAddress mode (s.prefixes.contains .addrSize) (r.addressingForm m) m.rm
          s.insn s.cursor).map fun x => (promote shape r.byte m.reg, s.holding x)) := by
  have hmemory := outcome_readMemory (s := s) mode (r.addressingForm m) m.rm
  rw [readAddressing, outcome_bind, outcome_checkModRM]
  cases r.checkOperand ⟨mask⟩ s.prefixes m with
  | error e => rfl
  | ok _ =>
    simp only [Except.map, outcome_bind, hmemory]
    cases readAddress mode (s.prefixes.contains .addrSize) (r.addressingForm m) m.rm
      s.insn s.cursor <;> simp [bind, Except.bind]

end Steps

end LengthDisasm
