import LengthDisasm.Byte
import LengthDisasm.DecodeError

/-!
# Cursors over bytes

A cursor stands between the bytes that were read and the bytes that are left. It only moves forward,
and a read that asks for more than is left fails and moves nothing.

## Main definitions

* `Cursor` — the bytes read so far and the bytes left
* `Cursor.read`, `Cursor.readByte`, `Cursor.readNumber` — reads that return the moved cursor
* `Cursor.serve` — one read request, answered with the cursor after it whether it failed or not
* `Cursor.Advances` — one cursor is another one moved forward

## Main results

* `Cursor.Advances.visible_eq` — moving forward changes neither the bytes nor their order
* `Cursor.advances_of_read`, `Cursor.advances_of_readByte` — reads move forward
-/

namespace LengthDisasm

/-- A position in a list of bytes. -/
structure Cursor where
  /-- The bytes before the position. -/
  consumed : List Byte
  /-- The bytes after the position. -/
  rest : List Byte
deriving DecidableEq, Repr

namespace Cursor

/-- The cursor at the front of `data`. -/
def ofBytes (data : List Byte) : Cursor := ⟨[], data⟩

/-- The cursor at the front of the first `max` bytes of `data`. -/
def limit (data : List Byte) (max : Nat) : Cursor := ofBytes (data.take max)

/-- All bytes that the cursor can see, on both sides of its position. -/
def visible (c : Cursor) : List Byte := c.consumed ++ c.rest

/-- How many bytes the cursor can see. -/
def size (c : Cursor) : Nat := c.visible.length

/-- How many bytes were read. -/
def offset (c : Cursor) : Nat := c.consumed.length

/-- How many bytes are left. -/
def remaining (c : Cursor) : Nat := c.rest.length

/-- The next byte, if there is one. -/
def peek? (c : Cursor) : Option Byte := c.rest.head?

/-- Read `count` bytes. -/
def read (count : Nat) (c : Cursor) : Except DecodeError (List Byte × Cursor) :=
  if count ≤ c.remaining then
    .ok (c.rest.take count, ⟨c.consumed ++ c.rest.take count, c.rest.drop count⟩)
  else
    .error .insufficientLength

/-- Read one byte. -/
def readByte (c : Cursor) : Except DecodeError (Byte × Cursor) :=
  match c.rest with
  | [] => .error .insufficientLength
  | b :: rest => .ok (b, ⟨c.consumed ++ [b], rest⟩)

/-- Read a little-endian number of `count` bytes. -/
def readNumber (count : Nat) (c : Cursor) : Except DecodeError (Nat × Cursor) := do
  let (bytes, c) ← c.read count
  return (Byte.littleEndian bytes, c)

/-- Read the longest run of bytes that satisfy `p`; this never fails. -/
def readWhile (p : Byte → Bool) (c : Cursor) : List Byte × Cursor :=
  let run := c.rest.takeWhile p
  (run, ⟨c.consumed ++ run, c.rest.dropWhile p⟩)

/-! ### Requests -/

/-- What a caller can ask a cursor for. -/
inductive Request where
  /-- So many bytes as they stand. -/
  | bytes (count : Nat)
  /-- A block of so many bytes. -/
  | array (count : Nat)
  /-- A little-endian number of so many bytes. -/
  | number (count : Nat)
deriving DecidableEq, Repr

/-- The answer to a request that succeeds. -/
inductive Answer where
  | bytes (data : List Byte)
  | number (value : Nat)
deriving DecidableEq, Repr

/-- The number of bytes that a request reads. -/
def Request.count : Request → Nat
  | .bytes count => count
  | .array count => count
  | .number count => count

/-- Answer one request; a failed read leaves the cursor where it was. -/
def serve (request : Request) (c : Cursor) : Except DecodeError Answer × Cursor :=
  match request with
  | .bytes count | .array count =>
    match c.read count with
    | .ok (data, c') => (.ok (.bytes data), c')
    | .error e => (.error e, c)
  | .number count =>
    match c.readNumber count with
    | .ok (value, c') => (.ok (.number value), c')
    | .error e => (.error e, c)

/-- Answer the requests in order, each from where the one before left the cursor. -/
def serveAll : List Request → Cursor → List (Except DecodeError Answer) × Cursor
  | [], c => ([], c)
  | request :: requests, c =>
    let (answer, c) := c.serve request
    let (answers, c) := serveAll requests c
    (answer :: answers, c)

/-! ### Moving forward -/

/-- `c'` is `c` moved forward over some bytes. -/
def Advances (c c' : Cursor) : Prop :=
  ∃ taken, c'.consumed = c.consumed ++ taken ∧ c.rest = taken ++ c'.rest

variable {c c' c'' : Cursor}

@[refl] theorem Advances.refl (c : Cursor) : c.Advances c := ⟨[], by simp⟩

theorem Advances.trans (h : c.Advances c') (h' : c'.Advances c'') : c.Advances c'' := by
  obtain ⟨t, hc, hr⟩ := h
  obtain ⟨t', hc', hr'⟩ := h'
  exact ⟨t ++ t', by simp [hc', hc], by simp [hr, hr']⟩

/-- Moving forward changes neither the bytes nor their order. -/
theorem Advances.visible_eq (h : c.Advances c') : c'.visible = c.visible := by
  obtain ⟨t, hc, hr⟩ := h
  simp [visible, hc, hr]

theorem Advances.offset_le (h : c.Advances c') : c.offset ≤ c'.offset := by
  obtain ⟨t, hc, -⟩ := h
  simp [offset, hc]

theorem offset_le_size (c : Cursor) : c.offset ≤ c.size := by simp [offset, size, visible]

theorem advances_of_read {count : Nat} {bytes : List Byte}
    (h : c.read count = .ok (bytes, c')) : c.Advances c' := by
  unfold read at h
  split at h
  · obtain ⟨rfl, rfl⟩ : c.rest.take count = bytes ∧ _ = c' := by simpa using h
    exact ⟨c.rest.take count, rfl, by simp⟩
  · cases h

theorem advances_of_readNumber {count value : Nat}
    (h : c.readNumber count = .ok (value, c')) : c.Advances c' := by
  simp only [readNumber, bind, Except.bind] at h
  split at h
  · cases h
  · rename_i r hr
    obtain ⟨-, rfl⟩ : _ ∧ r.2 = c' := by simpa [pure, Except.pure] using h
    exact advances_of_read hr

theorem advances_of_readByte {b : Byte} (h : c.readByte = .ok (b, c')) : c.Advances c' := by
  unfold readByte at h
  split at h
  · cases h
  · rename_i b' rest hrest
    cases h
    exact ⟨[b], rfl, by simp [hrest]⟩

theorem offset_of_readByte {b : Byte} (h : c.readByte = .ok (b, c')) :
    c'.offset = c.offset + 1 := by
  unfold readByte at h
  split at h
  · cases h
  · cases h
    simp [offset]

theorem advances_readWhile (p : Byte → Bool) (c : Cursor) : c.Advances (c.readWhile p).2 :=
  ⟨c.rest.takeWhile p, rfl, by simp [readWhile]⟩

end Cursor

end LengthDisasm
