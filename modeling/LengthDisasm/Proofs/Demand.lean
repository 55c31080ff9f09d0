import LengthDisasm.Proofs.PrefixExchange
import LengthDisasm.Proofs.WellFormed

/-!
# How many bytes an instruction asks for

A reader that has enough bytes in front of it does not fail for want of bytes. How many are enough
adds up when readers follow one another, so the opcode maps bound it for a whole instruction:
without its prefixes it asks for 13 bytes at most. Hence three prefixes at least stand before an
instruction that asks for more than the 15 bytes that decoding looks at.

## Main definitions

* `Cursor.Needs` — so many bytes are enough for a reader

## Main results

* `needs_readAfter` — behind the prefixes 13 bytes are enough
* `decode_ne_insufficientLength` — code that is long enough does not fail for want of bytes
-/

namespace LengthDisasm

namespace Cursor

/-- With `n` bytes in front of it a reader does not fail for want of bytes, and it consumes no more
than `n`. -/
structure Needs {α : Type} (n : Nat) (r : Cursor → Except DecodeError (α × Cursor)) : Prop where
  enough : ∀ {c}, r c = .error .insufficientLength → c.remaining < n
  bound : ∀ {c a c'}, r c = .ok (a, c') → c.remaining ≤ c'.remaining + n

namespace Needs

variable {α β : Type} {m n : Nat} {r : Cursor → Except DecodeError (α × Cursor)}

theorem pure (a : α) : Needs 0 fun c => .ok (a, c) where
  enough := nofun
  bound := by
    intro c b c' h
    cases h
    exact Nat.le_refl _

theorem fail {e : DecodeError} (he : e ≠ .insufficientLength) :
    Needs (α := α) 0 fun _ => .error e where
  enough := by
    intro c h
    cases h
    exact absurd rfl he
  bound := nofun

theorem mono (hr : Needs n r) (hle : n ≤ m) : Needs m r where
  enough h := Nat.lt_of_lt_of_le (hr.enough h) hle
  bound h := Nat.le_trans (hr.bound h) (Nat.add_le_add_left hle _)

/-- What two readers need adds up. -/
theorem bind {f : α → Cursor → Except DecodeError (β × Cursor)} (hr : Needs n r)
    (hf : ∀ a, Needs m (f a)) :
    Needs (n + m) fun c => r c >>= fun p => f p.1 p.2 where
  enough := by
    intro c h
    cases hc : r c with
    | error e =>
      rw [hc] at h
      cases h
      have := hr.enough hc
      omega
    | ok p =>
      -- the second reader has all that the first one left
      rw [hc] at h
      have hfirst := hr.bound hc
      have hsecond := (hf p.1).enough h
      omega
  bound := by
    intro c b c' h
    cases hc : r c with
    | error e =>
      rw [hc] at h
      cases h
    | ok p =>
      rw [hc] at h
      have hfirst := hr.bound hc
      have hsecond := (hf p.1).bound h
      omega

end Needs

theorem needs_readByte : Needs 1 readByte where
  enough := by
    rintro ⟨consumed, rest⟩ h
    cases rest with
    | nil => exact Nat.one_pos
    | cons b rest => cases h
  bound := by
    rintro ⟨consumed, rest⟩ b c' h
    cases rest with
    | nil => cases h
    | cons b' rest =>
      cases h
      exact Nat.le_refl _

theorem needs_read (count : Nat) : Needs count (read count) where
  enough := by
    intro c h
    unfold read at h
    split at h
    · cases h
    · omega
  bound := by
    intro c bytes c' h
    unfold read at h
    split at h
    · cases h
      simp only [remaining, List.length_drop]
      omega
    · cases h

end Cursor

open Cursor (Needs needs_readByte needs_read)

/-! ### Literals -/

theorem Literal.needs_read (width : Nat) : Needs (width / 8) (Literal.read width) := by
  unfold Literal.read
  split
  · exact (((Cursor.needs_read (width / 8)).bind fun bytes => .pure (Byte.littleEndian bytes)).bind
      fun value => .pure (⟨value, width⟩ : Literal))
  · exact (Needs.fail (e := .badOperand) nofun).mono (Nat.zero_le _)

namespace Slot

/-- The number of bytes that the slots take together. -/
def bytesTaken (slots : List Slot) : Nat := (slots.map (·.width / 8)).sum

theorem needs_readAll (slots : List Slot) (i : Instruction) :
    Needs (bytesTaken slots) (readAll slots i) := by
  induction slots generalizing i with
  | nil => exact .pure i
  | cons s slots ih => exact (Literal.needs_read s.width).bind fun l => ih (s.store l i)

theorem bytesTaken_append (slots slots' : List Slot) :
    bytesTaken (slots ++ slots') = bytesTaken slots + bytesTaken slots' := by
  simp [bytesTaken]

theorem bytesTaken_displacement (addr16 : Bool) (form : BitVec 2) (rm : BitVec 3)
    (sib : Option Sib) :
    bytesTaken (displacement addr16 form rm sib) ≤ 4 := by
  rcases displacement_widths addr16 form rm sib with hnone | ⟨w, hw, hsome⟩
  · rw [hnone]
    decide
  · have hall : ∀ w ∈ InsnFlags.dispWidths, bytesTaken [⟨w.2, w.1, true⟩] ≤ 4 := by decide
    rw [hsome]
    exact hall w hw

end Slot

namespace Immediates

variable (mode : Mode) (operand16 operand64 : Bool)

theorem bytesTaken_slots (immediates : Immediates) :
    Slot.bytesTaken (immediates.slots mode operand16 operand64) ≤ 8 := by
  cases immediates <;> cases mode <;> cases operand16 <;> cases operand64 <;> decide

/-- Only an operand-sized immediate of 64 bits, or a far pointer, takes more than four bytes. -/
theorem bytesTaken_slots_short {immediates : Immediates}
    (h : immediates ∈ [Immediates.none, .byte, .operand]) :
    Slot.bytesTaken (immediates.slots mode operand16 false) ≤ 4 := by
  revert immediates
  cases mode <;> cases operand16 <;> decide

end Immediates

/-! ### Operands -/

/-- Opcodes whose immediate can have 64 bits have no ModRM byte. -/
theorem OpcodeMap.primary_operand64 (mode : Mode) (b : Byte) :
    ((OpcodeMap.primary mode).get? b).all (fun form =>
      !form.hasModRM || !((Opcode.primary b).isOffsetMove || b &&& 0xf8 == 0xb8)) = true := by
  revert b
  cases mode <;> decide +kernel

theorem Head.operand64_of_hasModRM {mode : Mode} {h : Head} {form : Form}
    (hform : mode.form? h.opcode = some form) (hmodrm : form.hasModRM = true) :
    h.operand64 = false := by
  obtain ⟨prefixes, rex, opcode⟩ := h
  cases opcode with
  | escaped b => cases rex <;> rfl
  | primary b =>
    have hall := OpcodeMap.primary_operand64 mode b
    rw [show (OpcodeMap.primary mode).get? b = some form from hform] at hall
    simp only [Option.all_some, hmodrm, Bool.not_true, Bool.false_or, Bool.not_eq_true',
      Bool.or_eq_false_iff] at hall
    -- an offset move is none of these opcodes, and REX.W widens immediates for the others only
    cases rex with
    | none => exact congrArg (· || false) hall.1
    | some rex =>
      simp only [Head.operand64]
      rw [hall.1, hall.2, Bool.and_false, Bool.or_false]

theorem Head.bytesTaken_operandSlots {mode : Mode} {h : Head} {form : Form}
    (hform : mode.form? h.opcode = some form) (hmodrm : form.hasModRM = true) (m : ModRM)
    (sib : Option Sib) : Slot.bytesTaken (h.operandSlots mode form m sib) ≤ 8 := by
  have himmediates : form.immediatesWith h.opcode m.reg ∈ [Immediates.none, .byte, .operand] := by
    have hmem := Mode.immediates_of_hasModRM hform hmodrm
    rcases form.immediatesWith_cases h.opcode m.reg with heq | heq | heq
    · rwa [heq]
    · simp [heq]
    · simp [heq]
  have hdisplacement := Slot.bytesTaken_displacement (h.prefixes.contains .addrSize)
    (h.opcode.ruling.addressingForm m) m.rm sib
  have hshort := Immediates.bytesTaken_slots_short mode h.operand16 himmediates
  -- four bytes of displacement and, without 64-bit immediates, four bytes of immediate
  rw [Head.operandSlots, Slot.bytesTaken_append, Head.operand64_of_hasModRM hform hmodrm]
  omega

theorem needs_readAddressed {mode : Mode} {h : Head} {form : Form}
    (hform : mode.form? h.opcode = some form) (hmodrm : form.hasModRM = true) (m : ModRM) :
    Needs 9 (readAddressed mode h form m) := by
  have hslots := fun sib i => (Slot.needs_readAll (h.operandSlots mode form m sib) i).mono
    (Head.bytesTaken_operandSlots hform hmodrm m sib)
  unfold readAddressed
  split
  · exact needs_readByte.bind fun b => hslots (some ⟨b⟩) (h.withSib m ⟨b⟩)
  · exact (hslots none (h.withModRM m)).mono (by decide)

theorem Opcode.checkOperand_ne_insufficientLength (o : Opcode) (undefinedRegs : RegSet)
    (prefixes : PrefixSet)
    (m : ModRM) : o.checkOperand undefinedRegs prefixes m ≠ .error .insufficientLength := by
  unfold Opcode.checkOperand
  split_ifs <;> nofun

theorem needs_readOperands {mode : Mode} {h : Head} {form : Form}
    (hform : mode.form? h.opcode = some form) (hmodrm : form.hasModRM = true) :
    Needs 10 (readOperands mode h form) := by
  have hrest : ∀ b : Byte, Needs 9 fun c =>
      h.opcode.ruling.checkOperand form.undefinedRegs h.prefixes ⟨b⟩ >>= fun _ =>
        readAddressed mode h form ⟨b⟩ c := by
    intro b
    -- the check fails for other reasons than the want of bytes
    have hcheck :=
      h.opcode.ruling.checkOperand_ne_insufficientLength form.undefinedRegs h.prefixes ⟨b⟩
    cases hresult : h.opcode.ruling.checkOperand form.undefinedRegs h.prefixes ⟨b⟩ with
    | ok u => exact needs_readAddressed hform hmodrm ⟨b⟩
    | error e =>
      rw [hresult] at hcheck
      exact (Needs.fail fun he => hcheck (congrArg _ he)).mono (Nat.zero_le _)
  exact needs_readByte.bind hrest

theorem needs_readBody (mode : Mode) (h : Head) : Needs 10 (readBody mode h) := by
  have hfail : ∀ {e : DecodeError}, e ≠ .insufficientLength →
      Needs 10 fun _ : Cursor => (.error e : Except DecodeError (Instruction × Cursor)) :=
    fun he => (Needs.fail he).mono (Nat.zero_le _)
  unfold readBody
  split
  · exact hfail nofun
  · rename_i form hform
    split
    · exact hfail nofun
    · split
      · rename_i hmodrm
        exact needs_readOperands hform hmodrm
      · split
        · exact hfail nofun
        · exact (Slot.needs_readAll _ _).mono
            (Nat.le_trans (Immediates.bytesTaken_slots mode _ _ form.immediates) (by decide))

/-! ### Whole instructions -/

namespace Head

theorem needs_readOpcode (b : Byte) : Needs 1 (readOpcode b) := by
  unfold readOpcode
  split
  · exact needs_readByte.bind fun second => .pure (Opcode.escaped second)
  · exact (Needs.pure (Opcode.primary b)).mono (Nat.zero_le _)

theorem needs_readRexPair (mode : Mode) (b : Byte) : Needs 1 (readRexPair mode b) := by
  have hnext : ∀ next : Byte, Needs 0 fun c =>
      if Rex.isRexByte next then (.error .unknownOpcode : Except DecodeError _)
      else .ok ((some (⟨b⟩ : Rex), next), c) := by
    intro next
    split
    · exact .fail nofun
    · exact .pure _
  rw [funext (readRexPair_eq mode b)]
  split
  · exact needs_readByte.bind hnext
  · exact (Needs.pure (none, b)).mono (Nat.zero_le _)

theorem needs_readFrom (mode : Mode) (prefixes : PrefixSet) (b : Byte) :
    Needs 2 (readFrom mode prefixes b) := by
  have hopcode : ∀ r : Option Rex × Byte, Needs 1 fun c =>
      readOpcode r.2 c >>= fun o => .ok ((⟨prefixes, r.1, o.1⟩ : Head), o.2) :=
    fun r => (needs_readOpcode r.2).bind fun o => .pure (⟨prefixes, r.1, o⟩ : Head)
  rw [funext (readFrom_eq mode prefixes b)]
  exact (needs_readRexPair mode b).bind hopcode

end Head

/-- Behind the prefixes 13 bytes are enough: a REX byte, two bytes of opcode, ModRM and SIB, a
displacement of four bytes and an immediate of four. -/
theorem needs_readAfter (mode : Mode) (prefixes : PrefixSet) : Needs 13 (readAfter mode prefixes) :=
  (needs_readByte.bind (Head.needs_readFrom mode prefixes)).bind (needs_readBody mode)

theorem length_takeWhile_take_le (p : Byte → Bool) (code : List Byte) (n : Nat) :
    ((code.take n).takeWhile p).length ≤ (code.takeWhile p).length := by
  conv_rhs => rw [← List.take_append_drop n code, List.takeWhile_append]
  split
  · rename_i hall
    rw [hall, List.length_append]
    exact Nat.le_add_right _ _
  · exact Nat.le_refl _

/-- Code with 13 bytes behind its prefixes, within the first 15 bytes, does not fail for want of
bytes. -/
theorem decode_ne_insufficientLength {code : List Byte}
    (hlen : (code.takeWhile Head.isPrefixByte).length + 13 ≤ min Instruction.maxLength code.length)
    (mode : Mode) :
    decode mode code ≠ .error .insufficientLength := by
  intro herror
  have hrun := length_takeWhile_take_le Head.isPrefixByte code Instruction.maxLength
  have hlimit : ([] : List Byte).length + (code.take Instruction.maxLength).length ≤
      Instruction.maxLength := by
    rw [List.length_nil, Nat.zero_add, List.length_take]
    exact Nat.min_le_left _ _
  have hsplit := congrArg List.length
    (List.takeWhile_append_dropWhile (p := Head.isPrefixByte)
      (l := code.take Instruction.maxLength))
  rw [List.length_append, List.length_take] at hsplit
  -- what is read behind the prefixes is all that is left of the 15 bytes
  rw [← decode_take_maxLength, ← List.nil_append (code.take _),
    decode_run_append mode (by simp) _ hlimit] at herror
  cases hread : readAfter mode _ _ with
  | ok p =>
    rw [hread] at herror
    cases herror
  | error e =>
    rw [hread] at herror
    cases herror
    have hfew := (needs_readAfter mode _).enough hread
    simp only [Cursor.remaining] at hfew
    omega

end LengthDisasm
