import LengthDisasm.Cursor
import LengthDisasm.Slice

/-!
# Cursors that count

A cursor can be kept as data that stays in place and the number of bytes of it that were read.
Counts are words of 64 bits. Every difference, sum and slice is checked, so that a read that leaves
the data or the words is a `Fault`.

## Main definitions

* `IndexedCursor` — the data and how much of it was read
* `IndexedCursor.read`, `IndexedCursor.readArray`, `IndexedCursor.readNumber` — reads, with the
  cursor after them whether they failed or not
* `IndexedCursor.serve`, `IndexedCursor.serveAll` — requests, one or in order
* `IndexedCursor.ofCursor`, `IndexedCursor.toCursor` — the same position as a cursor
-/

namespace LengthDisasm

/-- A position in data, as the number of bytes before it. -/
structure IndexedCursor where
  /-- All bytes that the cursor can see. -/
  data : List Byte
  /-- How many bytes were read. -/
  offset : Nat
deriving DecidableEq, Repr

namespace IndexedCursor

/-- The cursor at the front of `data`. -/
def ofBytes (data : List Byte) : IndexedCursor := ⟨data, 0⟩

/-- The cursor at the front of the first `max` bytes of `data`, or of all if there are fewer. -/
def limit (data : List Byte) (max : Nat) : Except Fault IndexedCursor := do
  let visible ← Slice.upTo (min max data.length) data
  return ofBytes visible

/-- The position of a cursor. -/
def ofCursor (c : Cursor) : IndexedCursor := ⟨c.visible, c.offset⟩

/-- The cursor at the position. -/
def toCursor (c : IndexedCursor) : Cursor := ⟨c.data.take c.offset, c.data.drop c.offset⟩

/-- How many bytes are left. -/
def remaining (c : IndexedCursor) : Except Fault Nat := Bits.sub c.data.length c.offset

/-- The bytes that are left. -/
def tail (c : IndexedCursor) : Except Fault (List Byte) := Slice.after c.offset c.data

/-- The next byte, if there is one. -/
def peek? (c : IndexedCursor) : Option Byte := c.data[c.offset]?

/-! ### Reads -/

/-- Read `count` bytes. The count is compared with what is left before it is added to the offset. -/
def read (count : Nat) (c : IndexedCursor) :
    Except Fault (Except DecodeError (List Byte) × IndexedCursor) := do
  let left ← c.remaining
  if count > left then return (.error .insufficientLength, c)
  let stop ← Bits.add c.offset count
  let bytes ← Slice.between c.offset stop c.data
  let offset ← Bits.add c.offset count
  return (.ok bytes, ⟨c.data, offset⟩)

/-- Read a block of `count` bytes, which the bytes that are read have to fill. -/
def readArray (count : Nat) (c : IndexedCursor) :
    Except Fault (Except DecodeError (List Byte) × IndexedCursor) := do
  let (result, c) ← c.read count
  match result with
  | .ok bytes => if bytes.length = count then return (.ok bytes, c) else .error .sliceBounds
  | .error e => return (.error e, c)

/-- Read a little-endian number of `count` bytes. -/
def readNumber (count : Nat) (c : IndexedCursor) :
    Except Fault (Except DecodeError Nat × IndexedCursor) := do
  let (result, c) ← c.readArray count
  return (result.map Byte.littleEndian, c)

/-- Answer one request. -/
def serve (request : Cursor.Request) (c : IndexedCursor) :
    Except Fault (Except DecodeError Cursor.Answer × IndexedCursor) :=
  match request with
  | .bytes count => do
    let (result, c) ← c.read count
    return (result.map .bytes, c)
  | .array count => do
    let (result, c) ← c.readArray count
    return (result.map .bytes, c)
  | .number count => do
    let (result, c) ← c.readNumber count
    return (result.map .number, c)

/-- Answer the requests in order, each from where the one before left the cursor. -/
def serveAll : List Cursor.Request → IndexedCursor →
    Except Fault (List (Except DecodeError Cursor.Answer) × IndexedCursor)
  | [], c => .ok ([], c)
  | request :: requests, c => do
    let (answer, c) ← c.serve request
    let (answers, c) ← serveAll requests c
    return (answer :: answers, c)

end IndexedCursor

end LengthDisasm
