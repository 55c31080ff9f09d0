import LengthDisasm.Proofs.DecoderSteps

/-!
# Decoding by the packed tables is decoding

A decoder that goes by the packed tables rewrites shapes, prefixes and a mark for 64-bit immediates
on its way. It reads the same parts as `decode`, for which all of this is decided before the
literals are read, and fails with the same errors. It never looks outside the tables.

## Main definitions

* `Head.state` — what a decoder holds after the head

## Main results

* `Steps.outcome_readHead`, `Steps.outcome_readBody` — the head, and what follows it
* `decodeByTable_eq` — decoding by the tables is decoding
-/

namespace LengthDisasm

/-! ### Heads -/

/-- The opcodes to which a register field can add an immediate have none otherwise. -/
theorem Mode.immediates_of_byte {mode : Mode} {o : Opcode} {form : Form}
    (hform : mode.form? o = some form) (ho : o.byte = 0xf6 ∨ o.byte = 0xf7) :
    form.immediates = .none := by
  have hall : ∀ b ∈ [0xf6, 0xf7], ∀ o ∈ [Opcode.primary b, Opcode.escaped b],
      (mode.form? o).all fun form => form.immediates == .none := by
    cases mode <;> decide +kernel
  have hmem : o.byte ∈ [0xf6, 0xf7] := by simpa using ho
  have hentry := hall o.byte hmem o (by cases o <;> simp [Opcode.byte])
  rw [hform] at hentry
  simpa using hentry

/-- The immediates that a register field adds are added to the shape. -/
theorem Steps.promote_shape {mode : Mode} {o : Opcode} {form : Form}
    (hform : mode.form? o = some form) (hmodrm : form.hasModRM = true) (reg : BitVec 3) :
    promote form.shape o.byte reg = (form.immediatesWith o reg).shape ||| Shape.modrm := by
  have hshape : form.shape = form.immediates.shape ||| Shape.modrm := by
    rw [Form.shape, if_pos hmodrm]
  have hnone := Mode.immediates_of_byte hform
  unfold promote Form.immediatesWith
  split_ifs with hreg hsix hseven
  · rw [hshape, hnone (.inl hsix)]
    rfl
  · rw [hshape, hnone (.inr hseven)]
    rfl
  · exact hshape
  · exact hshape

namespace Head

variable (h : Head)

/-- The prefixes that count after the head: for an offset move the address size prefix takes the
place of the operand size prefix. -/
def counted : PrefixSet :=
  if h.opcode.isOffsetMove then
    if h.prefixes.contains .addrSize then h.prefixes.insert .opSize else h.prefixes.erase .opSize
  else h.prefixes

theorem contains_opSize_counted : h.counted.contains .opSize = h.operand16 := by
  unfold counted operand16
  split
  · cases h.prefixes.contains .addrSize with
    | true =>
      rw [if_pos rfl, PrefixSet.contains_insert]
      rfl
    | false =>
      rw [if_neg (by decide), PrefixSet.contains_erase]
      exact Bool.and_false _
  · rfl

theorem contains_lock_counted : h.counted.contains .lock = h.prefixes.contains .lock := by
  unfold counted
  split
  · split
    · rw [PrefixSet.contains_insert]
      rfl
    · rw [PrefixSet.contains_erase]
      exact Bool.and_true _
  · rfl

/-- What a decoder holds after the head. -/
def state (c : Cursor) : DecoderState := ⟨c, h.start, h.counted, h.operand64⟩

theorem opens_start : h.start.flags.Opens := by
  have hwritten := InsnFlags.opens_withPrefixes h.prefixes
  unfold start flags
  dsimp only
  split
  · exact hwritten.or (by decide)
  · exact hwritten

end Head

/-! ### Bodies -/

namespace Steps

variable {s : DecoderState}

theorem outcome_resolve (mode : Mode) (o : Opcode) : outcome (resolve mode o) s =
    .ok (match mode.form? o with
      | some form => .ok (form.packed, s)
      | none => .error .unknownOpcode) := by
  rw [resolve, outcome_bind, mode.entry?_tables o]
  cases mode.form? o <;> rfl

theorem outcome_hasSecond : outcome hasSecond s =
    .ok (.ok (s.insn.opcode.ruling.isEscaped, s)) := by
  rw [Opcode.isEscaped_ruling]
  rfl

theorem guards_checkPrefixes (mode : Mode) (r : Opcode) :
    Guards (checkPrefixes mode r.isEscaped r.byte) s
      (r.forbiddenClasses &&& s.prefixes.classes != 0) .unknownOpcode () := by
  cases r with
  | primary b =>
    have hnone : ((Opcode.primary b).forbiddenClasses &&& s.prefixes.classes != 0) = false := by
      simp [Opcode.forbiddenClasses]
    rw [hnone]
    exact guards_pure () _
  | escaped b =>
    exact guards_of_lift (mode.refusedPrefixes_tables b) (guards_of_get (guards_refuseIf _ _))

theorem has_shape_modrm (form : Form) : Shape.has form.shape Shape.modrm = form.hasModRM := by
  unfold Form.shape
  cases form.hasModRM <;> cases form.immediates <;> decide

end Steps

namespace Head

variable {h : Head} {mode : Mode} {form : Form} {c : Cursor}

/-- An offset move has an operand-sized immediate and nothing else. -/
theorem form_of_isOffsetMove (hform : mode.form? h.opcode = some form)
    (hmove : h.opcode.isOffsetMove = true) :
    form.hasModRM = false ∧ h.opcode.ruling.forbiddenClasses = 0 := by
  cases ho : h.opcode with
  | escaped b =>
    rw [ho] at hmove
    cases hmove
  | primary b =>
    rw [ho] at hform hmove
    have hall : ∀ b, (Opcode.primary b).isOffsetMove = true →
        (mode.form? (.primary b)).all fun form => !form.hasModRM := by
      cases mode <;> decide +kernel
    have hentry := hall b hmove
    rw [hform] at hentry
    exact ⟨by simpa using hentry, rfl⟩

theorem forbiddenClasses_counted (hform : mode.form? h.opcode = some form) :
    h.opcode.ruling.forbiddenClasses &&& h.counted.classes =
      h.opcode.ruling.forbiddenClasses &&& h.prefixes.classes := by
  unfold counted
  split
  · rename_i hmove
    rw [(form_of_isOffsetMove hform hmove).2]
    simp
  · rfl

theorem counted_of_hasModRM (hform : mode.form? h.opcode = some form)
    (hmodrm : form.hasModRM = true) : h.counted = h.prefixes := by
  apply if_neg
  intro hmove
  rw [(form_of_isOffsetMove hform hmove).1] at hmodrm
  cases hmodrm

end Head

namespace Steps

variable {mode : Mode} {h : Head} {form : Form}

/-- After the head the steps for immediates read those slots that the head asks for. -/
theorem readsFrom_state (h : Head) (c : Cursor) {immediates : Immediates} {modrm : Byte}
    {r : Instruction × Cursor} (hmodrm : modrm = 0 ∨ modrm = Shape.modrm)
    (hflags : r.1.flags.Opens) (hfar : immediates = .farPointer → mode = .protected32) :
    ReadsFrom (readImmediates mode (immediates.shape ||| modrm)) ((h.state c).holding r)
      (immediates.slots mode h.operand16 h.operand64) := by
  have hreads := readsFrom_readImmediates (s := (h.state c).holding r) mode immediates hmodrm
    hflags hfar
  rwa [show ((h.state c).holding r).prefixes.contains .opSize = h.operand16 from
    h.contains_opSize_counted] at hreads

/-- A ModRM byte that was kept is checked, and all that follows it is read. -/
theorem outcome_readAddressing_bind (hform : mode.form? h.opcode = some form)
    (hmodrm : form.hasModRM = true) (m : ModRM) (c : Cursor) :
    outcome (readAddressing mode h.opcode.ruling.isEscaped h.opcode.ruling.byte form.shape
        form.undefinedRegs.bits m >>= readImmediates mode)
        ⟨c, h.withModRM m, h.counted, h.operand64⟩ =
      .ok ((h.opcode.ruling.checkOperand form.undefinedRegs h.prefixes m >>= fun _ =>
        readAddressed mode h form m c).map fun r => ((), (h.state c).holding r)) := by
  have hfar : (form.immediatesWith h.opcode m.reg) ≠ .farPointer := by
    have hnot := ((Mode.immediates_of_form? hform).2.2 hmodrm).2
    rcases form.immediatesWith_cases h.opcode m.reg with heq | heq | heq <;> rw [heq]
    · exact hnot
    · decide
    · decide
  rw [outcome_bind, outcome_readAddressing, readAddressed_eq, h.opcode.byte_ruling,
    promote_shape hform hmodrm, ← Head.counted_of_hasModRM hform hmodrm]
  dsimp only
  cases h.opcode.ruling.checkOperand form.undefinedRegs h.counted m with
  | error e => rfl
  | ok _ =>
    dsimp only [bind, Except.bind]
    cases hread : readAddress mode (h.counted.contains .addrSize)
      (h.opcode.ruling.addressingForm m) m.rm (h.withModRM m) c with
    | error e => rfl
    | ok r =>
      have hopens := opens_of_readAddress hread (h.opens_start.or (by decide))
      exact readsFrom_state h c (.inr rfl) hopens fun heq => absurd heq hfar

/-- What follows an opcode with a ModRM byte. -/
theorem outcome_readOperand_of_modrm (hform : mode.form? h.opcode = some form)
    (hmodrm : form.hasModRM = true) (c : Cursor) :
    outcome (readOperand mode h.opcode.ruling.isEscaped h.opcode.ruling.byte form.shape
        form.undefinedRegs.bits >>= readImmediates mode) (h.state c) =
      .ok ((readOperands mode h form c).map fun r => ((), (h.state c).holding r)) := by
  rw [readOperands_eq]
  simp only [readOperand, has_shape_modrm, hmodrm, if_true, outcome_bind, outcome_readByte,
    Head.state]
  cases c.readByte with
  | error e => rfl
  | ok p =>
    have haddressing := outcome_readAddressing_bind hform hmodrm ⟨p.1⟩ p.2
    rw [outcome_bind] at haddressing
    exact haddressing

theorem outcome_readBody (mode : Mode) (h : Head) (c : Cursor) :
    outcome (readBody mode h.opcode) (h.state c) =
      .ok ((LengthDisasm.readBody mode h c).map fun r => ((), (h.state c).holding r)) := by
  rw [readBody, outcome_bind, outcome_resolve, LengthDisasm.readBody]
  cases hform : mode.form? h.opcode with
  | none => rfl
  | some form =>
    dsimp only [Form.packed]
    rw [outcome_bind, outcome_hasSecond, ← h.opcode.byte_ruling]
    dsimp only
    rw [show (h.state c).insn.opcode = h.opcode from rfl,
      (guards_checkPrefixes mode h.opcode.ruling).outcome_bind,
      show (h.state c).prefixes = h.counted from rfl, Head.forbiddenClasses_counted hform]
    simp only [bne_iff_ne]
    split
    · rfl
    by_cases hmodrm : form.hasModRM = true
    · rw [if_pos hmodrm]
      exact outcome_readOperand_of_modrm hform hmodrm c
    · -- without a ModRM byte LOCK is refused, and all slots are those of the immediates
      have hguard : Guards (readOperand mode h.opcode.ruling.isEscaped h.opcode.ruling.byte
          form.shape form.undefinedRegs.bits) (h.state c) (h.counted.contains .lock)
          .invalidLock form.shape := by
        rw [readOperand, has_shape_modrm, if_neg hmodrm]
        exact guards_of_get (guards_refuseIf_return _ _ _)
      have hshape : form.shape = form.immediates.shape ||| 0 := by rw [Form.shape, if_neg hmodrm]
      have hfar := fun heq => ((Mode.immediates_of_form? hform).2.1.mp heq).1
      rw [if_neg hmodrm, hguard.outcome_bind, h.contains_lock_counted, hshape]
      split
      · rfl
      · exact readsFrom_state (r := (h.start, c)) h c (.inl rfl) h.opens_start hfar

end Steps

/-! ### The head -/

namespace Steps

variable {s : DecoderState}

/-- The rounds read the run of prefixes and the byte that ends it, if there are more rounds than
bytes. -/
theorem outcome_readPrefixes {rounds : Nat} {last : Byte} (h : s.cursor.remaining < rounds) :
    outcome (readPrefixes rounds last) s =
      .ok ((s.cursor.readWhile Head.isPrefixByte).2.readByte.map fun r => (r.1, { s with
        cursor := r.2
        prefixes := ((s.cursor.rest.takeWhile Head.isPrefixByte).filterMap Prefix.ofByte?).foldl
          PrefixSet.insert s.prefixes })) := by
  -- each round takes a byte, so that the code ends before the rounds do
  induction rounds generalizing s last with
  | zero => cases h
  | succ rounds ih =>
    obtain ⟨⟨consumed, rest⟩, insn, prefixes, force64⟩ := s
    rw [readPrefixes, outcome_bind, outcome_readByte]
    cases rest with
    | nil => rfl
    | cons b rest =>
      have hbyte : Cursor.readByte ⟨consumed, b :: rest⟩ = .ok (b, ⟨consumed ++ [b], rest⟩) := rfl
      cases hofByte : Prefix.ofByte? b with
      | none =>
        have hstop : Head.isPrefixByte b = false := by
          rw [Head.isPrefixByte, hofByte]
          rfl
        simp [hofByte, Cursor.readWhile, Cursor.readByte, hstop, Except.map]
      | some p =>
        have hgo : Head.isPrefixByte b = true := by
          rw [Head.isPrefixByte, hofByte]
          rfl
        simp only [hofByte, hbyte, Except.map, outcome_bind, outcome_modify]
        rw [ih (by simpa [Cursor.remaining] using h)]
        simp only [Cursor.readWhile, List.takeWhile_cons_of_pos hgo,
          List.dropWhile_cons_of_pos hgo, List.filterMap_cons_some hofByte, List.foldl_cons,
          List.append_assoc, List.singleton_append]
        rfl

theorem outcome_closePrefixes : outcome closePrefixes s =
    let prefixes := if s.prefixes.isEmpty then s.prefixes.insert .unprefixed else s.prefixes
    .ok (.ok ((), { s with
      prefixes := prefixes
      insn := { s.insn with flags := InsnFlags.empty.withPrefixes prefixes } })) := by
  rw [closePrefixes, outcome_bind, outcome_get]
  dsimp only
  cases s.prefixes.isEmpty <;> rfl

/-- The instruction with a REX byte, if there is one. -/
def withRex (i : Instruction) : Option Rex → Instruction
  | some rex => { i with flags := i.flags ||| .ofPrefix .rex, rex := some rex }
  | none => i

/-- The byte behind a REX byte, which is none itself. -/
theorem outcome_readBehindRex (consumed rest : List Byte) (next : Byte) (i : Instruction)
    (prefixes : PrefixSet) (force64 : Bool) :
    outcome (do
      let next ← readByte
      refuseIf (Rex.isRexByte next) .unknownOpcode
      return next) ⟨⟨consumed, next :: rest⟩, i, prefixes, force64⟩ =
    .ok (if Rex.isRexByte next then .error .unknownOpcode
      else .ok (next, ⟨⟨consumed ++ [next], rest⟩, i, prefixes, force64⟩)) := by
  rw [outcome_bind, outcome_readByte]
  exact guards_refuseIf_return _ _ _

theorem outcome_readRex (mode : Mode) (b : Byte) (hforce : s.force64 = false) :
    outcome (readRex mode b) s =
      .ok ((Head.readRex mode b s.cursor).map fun r => (r.2.1, { s with
        cursor := r.2.2
        insn := withRex s.insn r.1
        force64 := r.1.any Rex.w && (r.2.1 &&& 0xf8 == (0xb8 : Byte)) })) := by
  obtain ⟨⟨consumed, rest⟩, insn, prefixes, force64⟩ := s
  obtain rfl : force64 = false := hforce
  unfold readRex Head.readRex
  by_cases hrex : (mode.isLong && Rex.isRexByte b) = true
  · rw [if_pos hrex, if_pos hrex]
    simp only [outcome_bind, outcome_setFlags, outcome_modifyInsn, outcome_get]
    cases rest with
    | nil => cases Rex.w ⟨b⟩ <;> rfl
    | cons next rest =>
      -- the byte that is looked at is the one that is read
      have hpeek : Cursor.peek? ⟨consumed, next :: rest⟩ = some next := rfl
      have hread : Cursor.readByte ⟨consumed, next :: rest⟩ =
          .ok (next, ⟨consumed ++ [next], rest⟩) := rfl
      have hbehind := outcome_readBehindRex consumed rest next (withRex insn (some ⟨b⟩)) prefixes
        (Rex.w ⟨b⟩ && (next &&& 0xf8 == 0xb8))
      conv_rhs => simp only [hread, bind, Except.bind]
      simp only [hpeek, Option.any_some]
      refine Eq.trans ?_ (hbehind.trans ?_)
      · cases Rex.w ⟨b⟩ && (next &&& 0xf8 == 0xb8) <;> rfl
      · cases Rex.isRexByte next <;> rfl
  · rw [if_neg hrex, if_neg hrex]
    rfl

theorem outcome_readOpcode (b : Byte) :
    outcome (readOpcode b) s =
      .ok ((Head.readOpcode b s.cursor).map fun r => (r.1, { s with
        cursor := r.2
        insn := { s.insn with opcode := r.1 }
        prefixes := Head.counted ⟨s.prefixes, none, r.1⟩
        force64 := r.1.isOffsetMove || s.force64 })) := by
  unfold readOpcode Head.readOpcode
  by_cases hescape : b = Opcode.escape
  · rw [if_pos hescape, if_pos hescape, outcome_bind, outcome_readByte]
    cases s.cursor.readByte <;> rfl
  · rw [if_neg hescape, if_neg hescape]
    by_cases hmove : 0xa0 ≤ b ∧ b ≤ 0xa3
    · have hoffset : (Opcode.primary b).isOffsetMove = true := decide_eq_true hmove
      simp only [hmove, and_self, if_true, pure, Except.pure, Except.map, Head.counted, hoffset]
      cases haddr : s.prefixes.contains .addrSize <;>
        simp only [outcome_bind, outcome_modifyInsn, outcome_modify, outcome_get, haddr] <;> rfl
    · have hoffset : (Opcode.primary b).isOffsetMove = false := decide_eq_false hmove
      simp only [hmove, if_false, pure, Except.pure, Except.map, Head.counted, hoffset]
      rfl

end Steps

namespace Head

theorem first_of_readOpcode {b : Byte} {c c' : Cursor} {o : Opcode}
    (h : readOpcode b c = .ok (o, c')) : o.first = b := by
  unfold readOpcode at h
  split at h
  · rename_i hescape
    cases hread : c.readByte with
    | error e =>
      rw [hread] at h
      cases h
    | ok r =>
      rw [hread] at h
      cases h
      exact hescape.symm
  · cases h
    rfl

/-- The mark for 64-bit immediates can be told from the first byte of the opcode. -/
theorem operand64_eq (h : Head) : h.operand64 =
    (h.opcode.isOffsetMove || (h.rex.any Rex.w && (h.opcode.first &&& 0xf8 == 0xb8))) := by
  obtain ⟨prefixes, rex, opcode⟩ := h
  cases rex with
  | none => cases opcode <;> rfl
  | some rex =>
    cases opcode with
    | primary b => rfl
    | escaped b =>
      have hescape : (Opcode.escape &&& 0xf8 == 0xb8) = false := by decide
      simp only [operand64, Opcode.first, hescape, Bool.and_false]

end Head

namespace Steps

/-- The REX byte and the opcode behind prefixes that were written to the flags. -/
theorem outcome_readFrom (mode : Mode) (prefixes : PrefixSet) (b : Byte) (c : Cursor) :
    outcome (readRex mode b >>= readOpcode)
        ⟨c, { Instruction.blank with flags := InsnFlags.empty.withPrefixes prefixes },
          prefixes, false⟩ =
      .ok ((Head.readFrom mode prefixes b c).map fun r => (r.1.opcode, r.1.state r.2)) := by
  rw [outcome_bind, outcome_readRex mode b rfl]
  unfold Head.readFrom
  cases Head.readRex mode b c with
  | error e => rfl
  | ok r =>
    obtain ⟨rex, b, c⟩ := r
    dsimp only [Except.map, bind, Except.bind]
    rw [outcome_readOpcode]
    cases hopcode : Head.readOpcode b c with
    | error e => rfl
    | ok r =>
      obtain ⟨o, c⟩ := r
      -- the mark was left by the REX byte, or by the opcode
      have hfirst := Head.first_of_readOpcode hopcode
      have hforce := Head.operand64_eq ⟨prefixes, rex, o⟩
      dsimp only at hforce
      rw [hfirst] at hforce
      dsimp only [Except.map, Head.state]
      rw [hforce]
      cases rex <;> rfl

/-- The steps for the head leave the decoder in the state of the head. -/
theorem outcome_readHead (mode : Mode) (code : List Byte) :
    outcome (readHead mode) (.initial code) =
      .ok ((Head.read mode (Cursor.limit code Instruction.maxLength)).map fun r =>
        (r.1.opcode, r.1.state r.2)) := by
  have hrounds : (DecoderState.initial code).cursor.remaining < maxPrefixes := by
    simp only [DecoderState.initial, Cursor.limit, Cursor.ofBytes, Cursor.remaining,
      List.length_take, Instruction.maxLength, maxPrefixes]
    omega
  rw [readHead, outcome_bind, outcome_readPrefixes hrounds, Head.read_eq, Head.readAfter]
  dsimp only [DecoderState.initial]
  cases ((Cursor.limit code Instruction.maxLength).readWhile Head.isPrefixByte).2.readByte with
  | error e => rfl
  | ok p =>
    dsimp only [Except.map]
    rw [outcome_bind, outcome_closePrefixes]
    exact outcome_readFrom mode _ p.1 p.2

end Steps

/-- Decoding by the packed tables never looks outside of them, and gives what decoding gives. -/
theorem decodeByTable_eq (mode : Mode) (code : List Byte) :
    decodeByTable mode code = .ok (decode mode code) := by
  have hhead := Steps.outcome_readHead mode code
  unfold decodeByTable Steps.readInstruction
  rw [Steps.outcome_bind, hhead]
  cases hread : Head.read mode (Cursor.limit code Instruction.maxLength) with
  | error e => simp [decode, hread, bind, Except.bind, Except.map, pure, Except.pure]
  | ok r =>
    obtain ⟨h, c⟩ := r
    have hbody := Steps.outcome_readBody mode h c
    dsimp only [Except.map]
    rw [Steps.outcome_bind, hbody]
    cases hrest : readBody mode h c with
    | error e => simp [decode, hread, hrest, bind, Except.bind, Except.map, pure, Except.pure]
    | ok r =>
      obtain ⟨i, c'⟩ := r
      have hdecode : decode mode code = .ok { i with length := c'.offset } := by
        simp [decode, hread, hrest, bind, Except.bind, pure, Except.pure]
      -- the length is kept in a byte, and no instruction is longer than 15 bytes
      have hlength : c'.offset ≤ min Instruction.maxLength code.length :=
        length_le_of_decode hdecode
      have hbyte : (BitVec.ofNat 8 c'.offset).toNat = c'.offset := by
        rw [BitVec.toNat_ofNat]
        have hmax : Instruction.maxLength = 15 := rfl
        omega
      rw [hdecode]
      exact congrArg (fun n => Except.ok (Except.ok { i with length := n })) hbyte

end LengthDisasm
