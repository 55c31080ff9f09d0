import LengthDisasm.Decode

/-!
# Readers of an instruction

All that decoding reads, it reads with a few readers of single bytes and of blocks of bytes, one
after the other. What holds of these readers and passes from two readers to one after the other
holds of all decoding.

## Main definitions

* `Cursor.IsComposed` — a reader is put together from the basic ones
* `readWhole` — the head and the body of an instruction, read one after the other
* `Head.readAfter`, `readAfter` — the same behind a run of prefixes

## Main results

* `isComposed_readWhole`, `isComposed_readAfter` — decoding is put together from the basic readers
* `Slot.readAll_map`, `readAddressed_map` — a change of the instruction that readers pass on
* `decode_eq_map_readWhole` — decoding is reading the whole instruction
-/

namespace LengthDisasm

namespace Cursor

/-- A reader is put together from the basic ones: those that read nothing, one byte, a block of
bytes, or a run of bytes with the byte that ends it. -/
inductive IsComposed : {α : Type} → (Cursor → Except DecodeError (α × Cursor)) → Prop
  | pure {α : Type} (a : α) : IsComposed fun c => .ok (a, c)
  | fail {α : Type} (e : DecodeError) : IsComposed (α := α) fun _ => .error e
  | byte : IsComposed readByte
  | block (count : Nat) : IsComposed (read count)
  | run (p : Byte → Bool) : IsComposed fun c =>
      (c.readWhile p).2.readByte >>= fun b => .ok (((c.readWhile p).1, b.1), b.2)
  | bind {α β : Type} {r : Cursor → Except DecodeError (α × Cursor)}
      {f : α → Cursor → Except DecodeError (β × Cursor)} (hr : IsComposed r)
      (hf : ∀ a, IsComposed (f a)) :
      IsComposed fun c => r c >>= fun p => f p.1 p.2

namespace IsComposed

variable {α : Type} {r : Cursor → Except DecodeError (α × Cursor)}

theorem of_eq {r' : Cursor → Except DecodeError (α × Cursor)} (hr : IsComposed r)
    (h : ∀ c, r' c = r c) : IsComposed r' :=
  (funext h : r' = r) ▸ hr

/-- A check that does not look at the cursor may stand before a reader. -/
theorem check (x : Except DecodeError Unit) (hr : IsComposed r) :
    IsComposed fun c => x >>= fun _ => r c := by
  cases x with
  | error e => exact fail e
  | ok u => exact hr

end IsComposed

theorem isComposed_readNumber (count : Nat) : IsComposed (readNumber count) :=
  (IsComposed.block count).bind fun bytes => .pure (Byte.littleEndian bytes)

end Cursor

theorem Literal.isComposed_read (width : Nat) : Cursor.IsComposed (Literal.read width) := by
  unfold Literal.read
  split
  · exact (Cursor.isComposed_readNumber (width / 8)).bind fun value =>
      .pure (⟨value, width⟩ : Literal)
  · exact .fail .badOperand

theorem Slot.isComposed_readAll (slots : List Slot) (i : Instruction) :
    Cursor.IsComposed (Slot.readAll slots i) := by
  induction slots generalizing i with
  | nil => exact .pure i
  | cons s slots ih => exact (Literal.isComposed_read s.width).bind fun l => ih (s.store l i)

/-- Literals are read alike into an instruction with a change that no slot touches. -/
theorem Slot.readAll_map {slots : List Slot} {f : Instruction → Instruction}
    (hf : ∀ s ∈ slots, ∀ l i, s.store l (f i) = f (s.store l i)) (i : Instruction) (c : Cursor) :
    readAll slots (f i) c = (readAll slots i c).map fun r => (f r.1, r.2) := by
  induction slots generalizing i c with
  | nil => rfl
  | cons s slots ih =>
    rw [List.forall_mem_cons] at hf
    simp only [readAll, bind, Except.bind]
    cases Literal.read s.width c with
    | error e => rfl
    | ok r =>
      dsimp only
      rw [hf.1, ih hf.2]

/-! ### The head -/

namespace Head

theorem isComposed_readOpcode (b : Byte) : Cursor.IsComposed (readOpcode b) := by
  unfold readOpcode
  split
  · exact Cursor.IsComposed.byte.bind fun second => .pure (Opcode.escaped second)
  · exact .pure (Opcode.primary b)

/-- The REX byte, if `b` is one, together with the byte after it. -/
def readRexPair (mode : Mode) (b : Byte) (c : Cursor) :
    Except DecodeError ((Option Rex × Byte) × Cursor) :=
  (readRex mode b c).map fun r => ((r.1, r.2.1), r.2.2)

theorem readRexPair_eq (mode : Mode) (b : Byte) (c : Cursor) :
    readRexPair mode b c =
      if mode.isLong && Rex.isRexByte b then
        c.readByte >>= fun p =>
          if Rex.isRexByte p.1 then .error .unknownOpcode else .ok ((some ⟨b⟩, p.1), p.2)
      else .ok ((none, b), c) := by
  unfold readRexPair readRex
  split
  · cases c.readByte with
    | error e => rfl
    | ok p =>
      simp only [bind, Except.bind]
      split <;> rfl
  · rfl

theorem isComposed_readRexPair (mode : Mode) (b : Byte) :
    Cursor.IsComposed (readRexPair mode b) := by
  refine Cursor.IsComposed.of_eq ?_ (readRexPair_eq mode b)
  have hnext : ∀ next : Byte, Cursor.IsComposed fun c =>
      if Rex.isRexByte next then (.error .unknownOpcode : Except DecodeError _)
      else .ok ((some (⟨b⟩ : Rex), next), c) := by
    intro next
    split
    · exact .fail .unknownOpcode
    · exact .pure _
  split
  · exact Cursor.IsComposed.byte.bind hnext
  · exact .pure (none, b)

/-- The REX byte and the opcode, of which `b` is the first byte, after prefixes that left a set. -/
def readFrom (mode : Mode) (prefixes : PrefixSet) (b : Byte) (c : Cursor) :
    Except DecodeError (Head × Cursor) :=
  readRex mode b c >>= fun r => readOpcode r.2.1 r.2.2 >>= fun o => .ok (⟨prefixes, r.1, o.1⟩, o.2)

theorem readFrom_eq (mode : Mode) (prefixes : PrefixSet) (b : Byte) (c : Cursor) :
    readFrom mode prefixes b c = readRexPair mode b c >>= fun r =>
      readOpcode r.1.2 r.2 >>= fun o => .ok (⟨prefixes, r.1.1, o.1⟩, o.2) := by
  unfold readFrom readRexPair
  cases readRex mode b c with
  | error e => rfl
  | ok r => rfl

theorem isComposed_readFrom (mode : Mode) (prefixes : PrefixSet) (b : Byte) :
    Cursor.IsComposed (readFrom mode prefixes b) := by
  have hopcode : ∀ r : Option Rex × Byte, Cursor.IsComposed fun c =>
      readOpcode r.2 c >>= fun o => .ok ((⟨prefixes, r.1, o.1⟩ : Head), o.2) :=
    fun r => (isComposed_readOpcode r.2).bind fun o => .pure (⟨prefixes, r.1, o⟩ : Head)
  exact ((isComposed_readRexPair mode b).bind hopcode).of_eq (readFrom_eq mode prefixes b)

theorem isComposed_read (mode : Mode) : Cursor.IsComposed (read mode) := by
  refine ((Cursor.IsComposed.run isPrefixByte).bind fun a =>
    isComposed_readFrom mode (PrefixSet.ofRun a.1) a.2).of_eq fun c => ?_
  simp only [read, bind, Except.bind]
  cases (c.readWhile isPrefixByte).2.readByte with
  | error e => rfl
  | ok p => rfl

/-- The head behind a run of prefixes that left a set. -/
def readAfter (mode : Mode) (prefixes : PrefixSet) (c : Cursor) :
    Except DecodeError (Head × Cursor) :=
  c.readByte >>= fun p => readFrom mode prefixes p.1 p.2

theorem read_eq (mode : Mode) (c : Cursor) :
    read mode c = readAfter mode (PrefixSet.ofRun (c.rest.takeWhile isPrefixByte))
      (c.readWhile isPrefixByte).2 := rfl

end Head

/-! ### What follows the head -/

/-- The instruction after its ModRM byte was read. -/
def Head.withModRM (h : Head) (m : ModRM) : Instruction :=
  { h.start with flags := h.start.flags ||| .modrm, modrm := some m }

/-- The instruction after its SIB byte was read. -/
def Head.withSib (h : Head) (m : ModRM) (s : Sib) : Instruction :=
  { h.withModRM m with flags := (h.withModRM m).flags ||| .sib, sib := some s }

/-- The literals that follow a ModRM byte and the SIB byte after it, if there is one. -/
def Head.operandSlots (mode : Mode) (h : Head) (form : Form) (m : ModRM) (sib : Option Sib) :
    List Slot :=
  Slot.displacement (h.prefixes.contains .addrSize) (h.opcode.ruling.addressingForm m) m.rm sib ++
    (form.immediatesWith h.opcode m.reg).slots mode h.operand16 h.operand64

/-- Read all that follows a ModRM byte that was found legal. -/
def readAddressed (mode : Mode) (h : Head) (form : Form) (m : ModRM) (c : Cursor) :
    Except DecodeError (Instruction × Cursor) :=
  if hasSib mode (h.prefixes.contains .addrSize) (h.opcode.ruling.addressingForm m) m.rm then
    c.readByte >>= fun p =>
      Slot.readAll (h.operandSlots mode form m (some ⟨p.1⟩)) (h.withSib m ⟨p.1⟩) p.2
  else Slot.readAll (h.operandSlots mode form m none) (h.withModRM m) c

theorem readOperands_eq (mode : Mode) (h : Head) (form : Form) (c : Cursor) :
    readOperands mode h form c = c.readByte >>= fun p =>
      h.opcode.ruling.checkOperand form.undefinedRegs h.prefixes ⟨p.1⟩ >>= fun _ =>
        readAddressed mode h form ⟨p.1⟩ p.2 := rfl

theorem isComposed_readAddressed (mode : Mode) (h : Head) (form : Form) (m : ModRM) :
    Cursor.IsComposed (readAddressed mode h form m) := by
  unfold readAddressed
  split
  · exact Cursor.IsComposed.byte.bind fun b =>
      Slot.isComposed_readAll (h.operandSlots mode form m (some ⟨b⟩)) (h.withSib m ⟨b⟩)
  · exact Slot.isComposed_readAll _ _

/-- What follows a ModRM byte is read alike behind two heads that ask for the same bytes. If the
heads start with instructions that differ in a change which no slot touches, so do the instructions
that are read. -/
theorem readAddressed_map (f : Instruction → Instruction) {mode : Mode} {h h' : Head}
    {form : Form} {m : ModRM}
    (hsib : hasSib mode (h'.prefixes.contains .addrSize) (h'.opcode.ruling.addressingForm m) m.rm =
      hasSib mode (h.prefixes.contains .addrSize) (h.opcode.ruling.addressingForm m) m.rm)
    (hslots : ∀ sib, h'.operandSlots mode form m sib = h.operandSlots mode form m sib)
    (hmodrm : h'.withModRM m = f (h.withModRM m)) (hwith : ∀ s, h'.withSib m s = f (h.withSib m s))
    (hf : ∀ sib, ∀ s ∈ h.operandSlots mode form m sib, ∀ l i, s.store l (f i) = f (s.store l i))
    (c : Cursor) :
    readAddressed mode h' form m c = (readAddressed mode h form m c).map fun r => (f r.1, r.2) := by
  rw [readAddressed, readAddressed, hsib]
  split
  · simp only [bind, Except.bind]
    cases c.readByte with
    | error e => rfl
    | ok r =>
      dsimp only
      rw [hslots, hwith]
      exact Slot.readAll_map (hf _) _ _
  · rw [hslots, hmodrm]
    exact Slot.readAll_map (hf _) _ _

theorem isComposed_readOperands (mode : Mode) (h : Head) (form : Form) :
    Cursor.IsComposed (readOperands mode h form) :=
  (Cursor.IsComposed.byte.bind fun b =>
    .check (h.opcode.ruling.checkOperand form.undefinedRegs h.prefixes ⟨b⟩)
      (isComposed_readAddressed mode h form ⟨b⟩)).of_eq (readOperands_eq mode h form)

theorem isComposed_readBody (mode : Mode) (h : Head) : Cursor.IsComposed (readBody mode h) := by
  unfold readBody
  split
  · exact .fail .unknownOpcode
  · split
    · exact .fail .unknownOpcode
    · split
      · exact isComposed_readOperands mode h _
      · split
        · exact .fail .invalidLock
        · exact Slot.isComposed_readAll _ _

/-! ### Whole instructions -/

/-- The head and the body of an instruction, read one after the other. -/
def readWhole (mode : Mode) (c : Cursor) : Except DecodeError (Instruction × Cursor) :=
  Head.read mode c >>= fun p => readBody mode p.1 p.2

theorem isComposed_readWhole (mode : Mode) : Cursor.IsComposed (readWhole mode) :=
  (Head.isComposed_read mode).bind (isComposed_readBody mode)

theorem decode_eq_map_readWhole (mode : Mode) (code : List Byte) :
    decode mode code = (readWhole mode ⟨[], code.take Instruction.maxLength⟩).map
      fun p => { p.1 with length := p.2.offset } := by
  simp only [decode, readWhole, Cursor.limit, Cursor.ofBytes, bind, Except.bind]
  cases Head.read mode ⟨[], code.take Instruction.maxLength⟩ with
  | error e => rfl
  | ok p =>
    cases hbody : readBody mode p.1 p.2 with
    | error e => simp [hbody, Except.map]
    | ok q => simp [hbody, Except.map, pure, Except.pure]

/-- What follows a run of prefixes that left a set, up to the end of the instruction. -/
def readAfter (mode : Mode) (prefixes : PrefixSet) (c : Cursor) :
    Except DecodeError (Instruction × Cursor) :=
  Head.readAfter mode prefixes c >>= fun p => readBody mode p.1 p.2

theorem isComposed_readAfter (mode : Mode) (prefixes : PrefixSet) :
    Cursor.IsComposed (readAfter mode prefixes) :=
  (Cursor.IsComposed.byte.bind (Head.isComposed_readFrom mode prefixes)).bind
    (isComposed_readBody mode)

end LengthDisasm
