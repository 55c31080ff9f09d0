import LengthDisasm.Bits.Field
import LengthDisasm.Cursor
import LengthDisasm.Text.Number

/-!
# Literals

A literal is a number inside an instruction together with the number of bits that it was written in.
The width decides how the number reads as a signed one.

## Main definitions

* `Literal` — value and width
* `Literal.ofValue` — the low bits of a word
* `Literal.signed` — the two's complement reading
* `Literal.signedInWord` — the same by shifts of a word
* `Literal.read` — a little-endian literal of 8, 16, 32 or 64 bits at a cursor
* `Literal.load` — read a literal over the one that is held, step by step
* `Literal.bytes` — the bytes that a literal was read from
-/

namespace LengthDisasm

/-- A number that was written in `width` bits. -/
structure Literal where
  value : Nat
  width : Nat
deriving DecidableEq, Repr

namespace Literal

/-- The low `width` bits of a word. The bit above them less one is their mask; all 64 bits need
none. -/
def lowBits (value : BitVec 64) (width : Nat) : Except Fault (BitVec 64) :=
  if 64 ≤ width then .ok value
  else do
    let bit ← Bits.shiftLeft 1 width
    return value &&& (bit - 1)

/-- The literal of the low `width` bits of `value`. A width of zero means that there is none, and
one above 64 keeps all of the value. -/
def ofValue (value : BitVec 64) (width : Nat) : Except Fault (Option Literal) :=
  if width = 0 then .ok none
  else do
    let low ← lowBits value width
    return some ⟨low.toNat, width⟩

/-- The two's complement reading of the literal. -/
def signed (l : Literal) : Int := (BitVec.ofNat l.width l.value).toInt

/-- The two's complement reading by shifts: the literal is moved to the top of a word, and back down
with copies of its top bit above it. One of 64 bits fills the word as it is, and a wider one has no
such reading. -/
def signedInWord (l : Literal) : Except Fault Int :=
  let word := BitVec.ofNat 64 l.value
  if l.width = 64 then .ok word.toInt
  else do
    let extended ← Bits.extractSigned word 0 l.width
    return extended.toInt

/-- The little-endian bytes of the literal. -/
def bytes (l : Literal) : List Byte := Byte.toLittleEndian (l.width / 8) l.value

/-- The literal as text: its width, then its value in hexadecimal and as a signed decimal. -/
def text (l : Literal) : String :=
  "i" ++ toString l.width ++ "(" ++ Text.hexMarked l.value ++ " / " ++ toString l.signed ++ ")"

/-- The text of a literal that may be absent. -/
def textOrDash : Option Literal → String
  | some l => l.text
  | none => "-"

/-- Read a literal of `width` bits; widths other than 8, 16, 32 and 64 cannot be encoded. -/
def read (width : Nat) (c : Cursor) : Except DecodeError (Literal × Cursor) :=
  if width = 8 ∨ width = 16 ∨ width = 32 ∨ width = 64 then do
    let (value, c) ← c.readNumber (width / 8)
    return (⟨value, width⟩, c)
  else
    .error .badOperand

/-! ### Reading over a literal that is held -/

/-- A literal, if there is one, and the cursor that the next one is read at. -/
structure Loader where
  held : Option Literal
  cursor : Cursor
deriving DecidableEq, Repr

/-- Steps that write to the literal and the cursor. What was written stays if a later step fails. -/
abbrev Load (α : Type) := ExceptT DecodeError (StateM Loader) α

/-- What steps give from a literal and a cursor on, with both after them. -/
def Load.outcome {α : Type} (steps : Load α) (s : Loader) : Except DecodeError α × Loader :=
  Id.run (steps.run.run s)

/-- Move the cursor over `count` bytes. -/
def takeBytes (count : Nat) : Load (List Byte) := do
  let s ← get
  if count > s.cursor.remaining then throw .insufficientLength
  let bytes := s.cursor.rest.take count
  set { s with cursor := ⟨s.cursor.consumed ++ bytes, s.cursor.rest.drop count⟩ }
  return bytes

/-- Move the cursor over a little-endian number of `count` bytes. -/
def takeNumber (count : Nat) : Load Nat := do
  let bytes ← takeBytes count
  return Byte.littleEndian bytes

/-- Move the cursor over a value of `width` bits. -/
def takeValue : (width : Nat) → Load Nat
  | 8 => takeNumber 1
  | 16 => takeNumber 2
  | 32 => takeNumber 4
  | 64 => takeNumber 8
  | _ => throw .badOperand

/-- Read a literal of `width` bits over the one that is held. -/
def load (width : Nat) : Load Unit := do
  let value ← takeValue width
  modify fun s => { s with held := some ⟨value, width⟩ }

/-- The outcome of reading a literal over the one that is held, with the literal and the cursor
after it. -/
def reload (width : Nat) (held : Option Literal) (c : Cursor) :
    Except DecodeError Unit × Option Literal × Cursor :=
  let (result, s) := (load width).outcome ⟨held, c⟩
  (result, s.held, s.cursor)

/-! ### Moving forward -/

theorem advances_of_read {width : Nat} {c c' : Cursor} {l : Literal}
    (h : read width c = .ok (l, c')) : c.Advances c' := by
  unfold read at h
  split at h
  · simp only [bind, Except.bind] at h
    split at h
    · cases h
    · rename_i r hr
      obtain ⟨-, rfl⟩ : _ ∧ r.2 = c' := by simpa [pure, Except.pure] using h
      exact Cursor.advances_of_readNumber hr
  · cases h

end Literal

end LengthDisasm
