import LengthDisasm.Opcode.Rules

/-!
# The head of an instruction

The head is all that stands up to and including the opcode: the run of legacy prefixes, the REX byte
of 64-bit mode, and the opcode with its escape byte.

## Main definitions

* `Head` — prefixes, REX byte and opcode
* `Head.read` — the head at a cursor
* `Head.operand16`, `Head.operand64` — what the head says about the width of immediates
-/

namespace LengthDisasm

/-- What an instruction starts with. -/
structure Head where
  prefixes : PrefixSet
  rex : Option Rex
  opcode : Opcode
deriving DecidableEq, Repr

namespace Head

/-- The byte is a legacy prefix. -/
def isPrefixByte (b : Byte) : Bool := (Prefix.ofByte? b).isSome

/-- Read the opcode whose first byte is `b`. -/
def readOpcode (b : Byte) (c : Cursor) : Except DecodeError (Opcode × Cursor) :=
  if b = Opcode.escape then do
    let (second, c) ← c.readByte
    return (.escaped second, c)
  else
    return (.primary b, c)

/-- Read the REX byte, if `b` is one in this mode, and give it with the byte after it. A second REX
byte cannot follow. -/
def readRex (mode : Mode) (b : Byte) (c : Cursor) :
    Except DecodeError (Option Rex × Byte × Cursor) :=
  if mode.isLong && Rex.isRexByte b then do
    let (next, c) ← c.readByte
    if Rex.isRexByte next then .error .unknownOpcode else .ok (some ⟨b⟩, next, c)
  else
    .ok (none, b, c)

/-- Read the head of an instruction. -/
def read (mode : Mode) (c : Cursor) : Except DecodeError (Head × Cursor) := do
  let (run, c) := c.readWhile isPrefixByte
  let (b, c) ← c.readByte
  let (rex, b, c) ← readRex mode b c
  let (opcode, c) ← readOpcode b c
  return (⟨PrefixSet.ofRun run, rex, opcode⟩, c)

theorem advances_of_readOpcode {b : Byte} {c c' : Cursor} {o : Opcode}
    (h : readOpcode b c = .ok (o, c')) : c.Advances c' := by
  unfold readOpcode at h
  split at h
  · simp only [bind, Except.bind] at h
    split at h
    · cases h
    · rename_i r hr
      obtain ⟨-, rfl⟩ : _ ∧ r.2 = c' := by simpa [pure, Except.pure] using h
      exact Cursor.advances_of_readByte hr
  · cases h
    exact .refl _

theorem advances_of_readRex {mode : Mode} {b b' : Byte} {c c' : Cursor} {rex : Option Rex}
    (h : readRex mode b c = .ok (rex, b', c')) : c.Advances c' := by
  unfold readRex at h
  split at h
  · simp only [bind, Except.bind] at h
    split at h
    · cases h
    · rename_i r hr
      split at h
      · cases h
      · cases h
        exact Cursor.advances_of_readByte hr
  · cases h
    exact .refl _

/-- A head has at least one byte. -/
theorem advances_of_read {mode : Mode} {c c' : Cursor} {head : Head}
    (h : read mode c = .ok (head, c')) : c.Advances c' ∧ c.offset < c'.offset := by
  simp only [read, bind, Except.bind] at h
  split at h
  · cases h
  · rename_i r hr
    split at h
    · cases h
    · rename_i r' hr'
      split at h
      · cases h
      · rename_i r'' hr''
        obtain ⟨-, rfl⟩ : _ ∧ r''.2 = c' := by simpa [pure, Except.pure] using h
        have hrun := Cursor.advances_readWhile isPrefixByte c
        have hbyte := Cursor.offset_of_readByte hr
        have hrest := (advances_of_readRex hr').trans (advances_of_readOpcode hr'')
        have hle := hrest.offset_le
        have hle' := hrun.offset_le
        exact ⟨(hrun.trans (Cursor.advances_of_readByte hr)).trans hrest, by omega⟩

/-- The flags that the head sets. -/
def flags (h : Head) : InsnFlags :=
  let written := InsnFlags.empty.withPrefixes h.prefixes
  if h.rex.isSome then written ||| .ofPrefix .rex else written

/-- Operand-sized immediates have 16 bits. The offset of an offset move is an address, so there the
address size prefix decides and the operand size prefix does not. -/
def operand16 (h : Head) : Bool :=
  if h.opcode.isOffsetMove then h.prefixes.contains .addrSize else h.prefixes.contains .opSize

/-- Operand-sized immediates have 64 bits in 64-bit mode: offset moves, and moves of an immediate to
a register under REX.W. -/
def operand64 (h : Head) : Bool :=
  h.opcode.isOffsetMove ||
    match h.rex, h.opcode with
    | some rex, .primary b => rex.w && b &&& 0xf8 == 0xb8
    | _, _ => false

end Head

end LengthDisasm
