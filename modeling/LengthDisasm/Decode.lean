import LengthDisasm.Decode.Head
import LengthDisasm.Decode.Slot

/-!
# Decoding one instruction

Decoding reads the head, looks the opcode up, checks the ModRM byte if there is one, and reads the
SIB byte and the literals that then must follow. At most 15 bytes of the code are looked at.

## Main definitions

* `decode` — the instruction at the front of the code, or why there is none

## Main results

* `length_pos_of_decode`, `length_le_of_decode` — an instruction has at least one byte, and no more
  than the code that it was decoded from
-/

namespace LengthDisasm

/-- The instruction that the head alone describes. -/
def Head.start (h : Head) : Instruction where
  flags := h.flags
  length := 0
  opcode := h.opcode
  rex := h.rex
  modrm := none
  sib := none
  disp := none
  imm := none

/-- A SIB byte follows the ModRM byte. -/
def hasSib (mode : Mode) (addr16 : Bool) (form : BitVec 2) (rm : BitVec 3) : Bool :=
  form != 3 && rm == 4 && (mode.isLong || !addr16)

/-- The immediates of a form, once the ModRM byte is known: with a register field of 0 or 1 the
opcodes `F6` and `F7` of either map have an immediate. -/
def Form.immediatesWith (form : Form) (opcode : Opcode) (reg : BitVec 3) : Immediates :=
  if reg ≤ 1 then
    if opcode.byte = 0xf6 then .byte
    else if opcode.byte = 0xf7 then .operand
    else form.immediates
  else form.immediates

/-- Read the ModRM byte and all that follows it. -/
def readOperands (mode : Mode) (h : Head) (form : Form) (c : Cursor) :
    Except DecodeError (Instruction × Cursor) := do
  let (b, c) ← c.readByte
  let m : ModRM := ⟨b⟩
  h.opcode.ruling.checkOperand form.undefinedRegs h.prefixes m
  let addressing := h.opcode.ruling.addressingForm m
  let addr16 := h.prefixes.contains .addrSize
  let immediates :=
    (form.immediatesWith h.opcode m.reg).slots mode h.operand16 h.operand64
  let i := { h.start with flags := h.start.flags ||| .modrm, modrm := some m }
  if hasSib mode addr16 addressing m.rm then
    let (b, c) ← c.readByte
    let s : Sib := ⟨b⟩
    let i := { i with flags := i.flags ||| .sib, sib := some s }
    Slot.readAll (Slot.displacement addr16 addressing m.rm (some s) ++ immediates) i c
  else
    Slot.readAll (Slot.displacement addr16 addressing m.rm none ++ immediates) i c

/-- Read all that follows the head. -/
def readBody (mode : Mode) (h : Head) (c : Cursor) : Except DecodeError (Instruction × Cursor) :=
  match mode.form? h.opcode with
  | none => .error .unknownOpcode
  | some form =>
    if h.opcode.ruling.forbiddenClasses &&& h.prefixes.classes ≠ 0 then .error .unknownOpcode
    else if form.hasModRM then readOperands mode h form c
    else if h.prefixes.contains .lock then .error .invalidLock
    else Slot.readAll (form.immediates.slots mode h.operand16 h.operand64) h.start c

/-- Decode the instruction at the front of `code`. -/
def decode (mode : Mode) (code : List Byte) : Except DecodeError Instruction := do
  let (h, c) ← Head.read mode (Cursor.limit code Instruction.maxLength)
  let (i, c) ← readBody mode h c
  return { i with length := c.offset }

/-! ### Length -/

theorem advances_of_readOperands {mode : Mode} {h : Head} {form : Form} {i : Instruction}
    {c c' : Cursor} (hr : readOperands mode h form c = .ok (i, c')) : c.Advances c' := by
  simp only [readOperands, bind, Except.bind] at hr
  split at hr
  · cases hr
  · rename_i r hbyte
    split at hr
    · cases hr
    · split at hr
      · split at hr
        · cases hr
        · rename_i r' hsib
          exact ((Cursor.advances_of_readByte hbyte).trans
            (Cursor.advances_of_readByte hsib)).trans (Slot.advances_of_readAll hr)
      · exact (Cursor.advances_of_readByte hbyte).trans (Slot.advances_of_readAll hr)

theorem advances_of_readBody {mode : Mode} {h : Head} {i : Instruction} {c c' : Cursor}
    (hr : readBody mode h c = .ok (i, c')) : c.Advances c' := by
  unfold readBody at hr
  split at hr
  · cases hr
  · split at hr
    · cases hr
    · split at hr
      · exact advances_of_readOperands hr
      · split at hr
        · cases hr
        · exact Slot.advances_of_readAll hr

/-- The length of an instruction is the offset of a cursor that moved over the front of the code. -/
theorem length_of_decode {mode : Mode} {code : List Byte} {i : Instruction}
    (h : decode mode code = .ok i) :
    ∃ c : Cursor, (Cursor.limit code Instruction.maxLength).Advances c ∧
      0 < c.offset ∧ i.length = c.offset := by
  simp only [decode, bind, Except.bind] at h
  split at h
  · cases h
  · rename_i r hhead
    split at h
    · cases h
    · rename_i r' hbody
      obtain ⟨hadv, hlt⟩ := Head.advances_of_read hhead
      have hbody' := advances_of_readBody hbody
      cases h
      exact ⟨r'.2, hadv.trans hbody', Nat.lt_of_lt_of_le (Nat.zero_lt_of_lt hlt) hbody'.offset_le,
        rfl⟩

/-- An instruction has at least one byte. -/
theorem length_pos_of_decode {mode : Mode} {code : List Byte} {i : Instruction}
    (h : decode mode code = .ok i) : 0 < i.length := by
  obtain ⟨c, -, hpos, hlen⟩ := length_of_decode h
  omega

/-- An instruction is no longer than the code, and has at most 15 bytes. -/
theorem length_le_of_decode {mode : Mode} {code : List Byte} {i : Instruction}
    (h : decode mode code = .ok i) : i.length ≤ min Instruction.maxLength code.length := by
  obtain ⟨c, hadv, -, hlen⟩ := length_of_decode h
  have hsize := c.offset_le_size
  rw [Cursor.size, hadv.visible_eq] at hsize
  simpa [Cursor.limit, Cursor.ofBytes, Cursor.visible, hlen] using hsize

end LengthDisasm
