import LengthDisasm.Proofs.TableDecoding

/-!
# 64-bit mode as a restriction of 32-bit mode

The two modes have opcode maps of their own, and in 64-bit mode there are REX bytes, 64-bit
immediates and no 16-bit addressing. Code that makes use of none of these means the same in both
modes, unless 64-bit mode leaves its opcode undefined.

## Main definitions

* `Head.IsModeFree` — what follows the head does not depend on the mode

## Main results

* `Mode.form?_long64` — 64-bit mode leaves opcodes undefined, and changes none
* `Head.IsModeFree.readBody_mode` — what follows such a head is read alike in both modes
* `decode_long_cases`, `decode_long_restricts` — code is decoded alike in both modes, or its opcode
  is undefined
-/

namespace LengthDisasm

/-! ### Opcode maps -/

theorem OpcodeMap.primary_long64 (b : Byte) :
    (OpcodeMap.primary .long64).get? b = none ∨
      (OpcodeMap.primary .long64).get? b = (OpcodeMap.primary .protected32).get? b := by
  revert b
  decide +kernel

/-- 64-bit mode leaves some of the one-byte opcodes undefined, and changes no opcode. -/
theorem Mode.form?_long64 (o : Opcode) :
    Mode.form? .long64 o = Mode.form? .protected32 o ∨
      ∃ b, o = .primary b ∧ Mode.form? .long64 (.primary b) = none := by
  cases o with
  | escaped b => exact .inl rfl
  | primary b =>
    rcases OpcodeMap.primary_long64 b with hnone | heq
    · exact .inr ⟨b, rfl, hnone⟩
    · exact .inl heq

/-! ### What follows the head -/

theorem Immediates.slots_mode (mode mode' : Mode) (operand16 : Bool) (immediates : Immediates) :
    immediates.slots mode operand16 false = immediates.slots mode' operand16 false := by
  cases immediates with
  | operand => simp [slots]
  | _ => rfl

theorem hasSib_mode (mode mode' : Mode) (form : BitVec 2) (rm : BitVec 3) :
    hasSib mode false form rm = hasSib mode' false form rm := by
  simp [hasSib]

namespace Head

variable {h : Head} {mode mode' : Mode} {c c' : Cursor}

/-- What follows the head does not depend on the mode: there is no REX byte, the immediate is no
memory offset, and addresses have the default size. -/
structure IsModeFree (h : Head) : Prop where
  rex : h.rex = none
  isOffsetMove : h.opcode.isOffsetMove = false
  addrSize : h.prefixes.contains .addrSize = false

namespace IsModeFree

theorem operand64 (hfree : h.IsModeFree) : h.operand64 = false := by
  simp [Head.operand64, hfree.isOffsetMove, hfree.rex]

theorem operandSlots_mode (hfree : h.IsModeFree) (mode mode' : Mode) (form : Form) (m : ModRM)
    (sib : Option Sib) : h.operandSlots mode form m sib = h.operandSlots mode' form m sib := by
  rw [operandSlots, operandSlots, hfree.operand64, Immediates.slots_mode mode mode']

theorem readAddressed_mode (hfree : h.IsModeFree) (mode mode' : Mode) (form : Form) (m : ModRM)
    (c : Cursor) :
    readAddressed mode h form m c = readAddressed mode' h form m c := by
  have hslots := hfree.operandSlots_mode mode mode' form m
  rw [readAddressed, readAddressed, hfree.addrSize, hasSib_mode mode mode']
  simp only [hslots]

/-- If a mode gives the opcode the same form, all that follows is read alike. -/
theorem readBody_mode (hfree : h.IsModeFree) (hform : mode.form? h.opcode = mode'.form? h.opcode)
    (c : Cursor) : readBody mode h c = readBody mode' h c := by
  have hoperands : ∀ form, readOperands mode h form c = readOperands mode' h form c := by
    intro form
    rw [readOperands_eq, readOperands_eq]
    congr 1
    funext p
    congr 1
    funext _
    exact hfree.readAddressed_mode mode mode' form ⟨p.1⟩ p.2
  have himmediates := Immediates.slots_mode mode mode' h.operand16
  unfold readBody
  rw [hform, hfree.operand64]
  simp only [hoperands, himmediates]

end IsModeFree

/-! ### The head -/

theorem Fits.rex_eq_none (hfits : h.Fits .protected32) : h.rex = none := by
  cases hrex : h.rex with
  | none => rfl
  | some r => cases (hfits.rex r hrex).1

theorem readRex_of_not_isRexByte {b : Byte} (hb : Rex.isRexByte b = false) (mode : Mode)
    (c : Cursor) :
    readRex mode b c = .ok (none, b, c) := by
  simp [readRex, hb]

/-- Where no REX byte follows the prefixes, the modes read the same head. -/
theorem read_mode (hfirst : ∀ x ∈ (c.rest.dropWhile isPrefixByte).head?, Rex.isRexByte x = false)
    (mode mode' : Mode) : read mode c = read mode' c := by
  have hrest : (c.readWhile isPrefixByte).2.rest = c.rest.dropWhile isPrefixByte := rfl
  simp only [read, bind, Except.bind]
  cases hbyte : (c.readWhile isPrefixByte).2.readByte with
  | error e => rfl
  | ok p =>
    -- the byte that is read is the first one after the prefixes
    have htakes := (Cursor.takes_of_readByte hbyte).2
    have hb : Rex.isRexByte p.1 = false := hfirst p.1 (by rw [← hrest, htakes]; rfl)
    simp only [readRex_of_not_isRexByte hb]

/-- Without a REX byte the opcode stands right behind the prefixes. -/
theorem first_of_read (hread : read mode c = .ok (h, c')) (hrex : h.rex = none) :
    (c.rest.dropWhile isPrefixByte).head? = some h.opcode.first := by
  obtain ⟨-, -, -, htakes⟩ := takes_of_read hread
  have hsplit : c.rest.takeWhile isPrefixByte ++ c.rest.dropWhile isPrefixByte =
      c.rest.takeWhile isPrefixByte ++ (h.opcode.bytes ++ c'.rest) := by
    rw [List.takeWhile_append_dropWhile]
    simpa [rexBytes, hrex] using htakes
  rw [List.append_cancel_left hsplit]
  cases h.opcode <;> rfl

end Head

/-! ### Decoding -/

theorem Rex.isRexByte_eq (b : Byte) : Rex.isRexByte b = decide (0x40 ≤ b ∧ b ≤ 0x4f) := by
  revert b
  decide +kernel

theorem Prefix.ofByte?_addrSize (b : Byte) :
    (Prefix.ofByte? b == some .addrSize) = decide (b = 0x67) := by
  revert b
  decide +kernel

/-- Only the bytes up to the first one that breaks the run decide where it ends. -/
theorem head?_dropWhile_of_take {l : List Byte} {p : Byte → Bool} {n : Nat} {x : Byte}
    (hx : ((l.take n).dropWhile p).head? = some x) :
    (l.dropWhile p).head? = some x ∧ l.takeWhile p = (l.take n).takeWhile p := by
  obtain ⟨after, hafter⟩ := List.head?_eq_some_iff.mp hx
  -- the run ends before the cut
  have hlength : ((l.take n).takeWhile p).length ≠ (l.take n).length := by
    intro hall
    have hsplit := congrArg List.length (List.takeWhile_append_dropWhile (p := p) (l := l.take n))
    rw [hafter, List.length_append, hall, List.length_cons] at hsplit
    omega
  have hcut : l = l.take n ++ l.drop n := (List.take_append_drop n l).symm
  constructor
  · calc (l.dropWhile p).head? = ((l.take n ++ l.drop n).dropWhile p).head? := by rw [← hcut]
      _ = some x := by
        rw [List.dropWhile_append, hafter]
        rfl
  · calc l.takeWhile p = (l.take n ++ l.drop n).takeWhile p := by rw [← hcut]
      _ = (l.take n).takeWhile p := by rw [List.takeWhile_append, if_neg hlength]

section Restricts

variable {code : List Byte}

/-- A head that 32-bit mode reads is free of the mode, if no address size prefix stands before it
and if its first byte moves to no memory offset. -/
theorem Head.isModeFree_of_read {c c' : Cursor} {h : Head}
    (hread : Head.read .protected32 c = .ok (h, c'))
    (haddr : 0x67 ∉ c.rest.takeWhile Head.isPrefixByte)
    (hfirst : ¬ (0xa0 ≤ h.opcode.first ∧ h.opcode.first ≤ 0xa3)) : h.IsModeFree := by
  obtain ⟨hfits, hprefixes, -⟩ := Head.takes_of_read hread
  refine ⟨hfits.rex_eq_none, ?_, ?_⟩
  · cases hopcode : h.opcode with
    | escaped b => rfl
    | primary b =>
      rw [hopcode] at hfirst
      exact decide_eq_false hfirst
  · rw [hprefixes, PrefixSet.contains_ofRun rfl (by decide), List.any_eq_false]
    intro b hb
    rw [Prefix.ofByte?_addrSize, decide_eq_true_eq]
    rintro rfl
    exact haddr hb

/-- Code that makes use of nothing that the modes read in different ways is decoded alike, or its
opcode is undefined in 64-bit mode. -/
theorem decode_long_cases (haddr : 0x67 ∉ code.takeWhile Head.isPrefixByte)
    (hfirst : ∀ x ∈ (code.dropWhile Head.isPrefixByte).head?,
      ¬ (0x40 ≤ x ∧ x ≤ 0x4f) ∧ ¬ (0xa0 ≤ x ∧ x ≤ 0xa3)) :
    decode .long64 code = decode .protected32 code ∨
      ∃ x, (code.dropWhile Head.isPrefixByte).head? = some x ∧ x ≠ Opcode.escape ∧
        Mode.form? .long64 (.primary x) = none ∧ decode .long64 code = .error .unknownOpcode := by
  -- decoding sees the front of the code only, where the run of prefixes may be cut off
  have hhead : Head.read .long64 ⟨[], code.take Instruction.maxLength⟩ =
      Head.read .protected32 ⟨[], code.take Instruction.maxLength⟩ := by
    apply Head.read_mode
    intro x hx
    obtain ⟨hcode, -⟩ := head?_dropWhile_of_take hx
    rw [Rex.isRexByte_eq, decide_eq_false_iff_not]
    exact (hfirst x hcode).1
  rw [decode_eq_map_readWhole, decode_eq_map_readWhole, readWhole, readWhole, hhead]
  cases hread : Head.read .protected32 ⟨[], code.take Instruction.maxLength⟩ with
  | error e => exact .inl rfl
  | ok p =>
    obtain ⟨h, c⟩ := p
    obtain ⟨hfits, -⟩ := Head.takes_of_read hread
    obtain ⟨hcode, hrun⟩ := head?_dropWhile_of_take (Head.first_of_read hread hfits.rex_eq_none)
    have hfree : h.IsModeFree :=
      Head.isModeFree_of_read hread (hrun ▸ haddr) (hfirst _ hcode).2
    -- with the same form the same body follows; the other opcodes are refused before it is read
    rcases Mode.form?_long64 h.opcode with hform | ⟨b, hopcode, hnone⟩
    · refine .inl (congrArg _ ?_)
      exact hfree.readBody_mode hform c
    · refine .inr ⟨b, ?_, hfits.ne_escape b hopcode, hnone, ?_⟩
      · rw [hcode, hopcode]
        rfl
      · have hbody : readBody .long64 h c = .error .unknownOpcode := by
          rw [readBody, hopcode, hnone]
        exact congrArg _ hbody

/-- An opcode that 64-bit mode leaves undefined has the shape of undefined opcodes. -/
theorem Mode.shape_tables_of_form?_eq_none {mode : Mode} {b : Byte}
    (h : mode.form? (.primary b) = none) : mode.tables.shape false b = .ok Shape.undefined := by
  have hentry := mode.entry?_tables (.primary b)
  rw [h] at hentry
  simp only [OpcodeTables.entry?, Opcode.isEscaped, Opcode.byte, bind, Except.bind] at hentry
  cases hshape : mode.tables.shape false b with
  | error f =>
    rw [hshape] at hentry
    cases hentry
  | ok shape =>
    rw [hshape] at hentry
    dsimp only at hentry
    split at hentry
    · rename_i hundefined
      rw [hundefined]
    · -- all other shapes are those of a defined opcode
      split at hentry
      · split at hentry <;> cases hentry
      · cases hentry

/-- 64-bit mode is a restriction of 32-bit mode. Each mode decodes by packed tables of its own.
Without an address size prefix, a REX byte or a move to a memory offset, code is decoded as in
32-bit mode or its opcode is unknown. It is decoded as in 32-bit mode if the opcode starts with the
escape byte, or if it is one that the tables of 64-bit mode define. -/
theorem decode_long_restricts (haddr : 0x67 ∉ code.takeWhile Head.isPrefixByte)
    (hfirst : ∀ x ∈ (code.dropWhile Head.isPrefixByte).head?,
      ¬ (0x40 ≤ x ∧ x ≤ 0x4f) ∧ ¬ (0xa0 ≤ x ∧ x ≤ 0xa3)) :
    (decodeByTable .long64 code = .ok (.error .unknownOpcode) ∨
      decodeByTable .long64 code = decodeByTable .protected32 code) ∧
    ((code.dropWhile Head.isPrefixByte).head? = some 0x0f →
      decodeByTable .long64 code = decodeByTable .protected32 code) ∧
    (∀ x, (code.dropWhile Head.isPrefixByte).head? = some x →
      (Mode.tables .long64).shape false x ≠ .ok Shape.undefined →
      decodeByTable .long64 code = decodeByTable .protected32 code) ∧
    ∀ mode, decodeByTable mode code = .ok (decode mode code) := by
  have htable := fun mode => decodeByTable_eq mode code
  simp only [htable]
  rcases decode_long_cases haddr hfirst with heq | ⟨x, hx, hescape, hnone, hunknown⟩
  · rw [heq]
    exact ⟨.inr rfl, fun _ => rfl, fun _ _ _ => rfl, fun _ => trivial⟩
  · rw [hunknown]
    refine ⟨.inl rfl, fun hx' => ?_, fun x' hx' hdefined => ?_, fun _ => trivial⟩
    · exact absurd (Option.some.inj (hx.symm.trans hx')) hescape
    · rw [← Option.some.inj (hx.symm.trans hx')] at hdefined
      exact absurd (Mode.shape_tables_of_form?_eq_none hnone) hdefined

/-- A double shift with two prefixes, a SIB byte, a displacement and an immediate. -/
def indexedShift : List Byte := [0x66, 0x2e, 0x0f, 0xa4, 0x44, 0x8b, 0x10, 0x03]

theorem decode_long_restricts_shift :
    ∃ i, decodeByTable .protected32 indexedShift = .ok (.ok i) ∧ i.length = 8 ∧
      decodeByTable .long64 indexedShift = .ok (.ok i) := by
  obtain ⟨-, hescaped, -, hdecode⟩ := @decode_long_restricts indexedShift (by decide) (by decide)
  have hshift : ∃ i, decode .protected32 indexedShift = .ok i ∧ i.length = 8 := ⟨_, rfl, rfl⟩
  obtain ⟨i, hi, hlength⟩ := hshift
  have htable : decodeByTable .protected32 indexedShift = .ok (.ok i) := by rw [hdecode, hi]
  exact ⟨i, htable, hlength, (hescaped (by decide)).trans htable⟩

end Restricts

end LengthDisasm
