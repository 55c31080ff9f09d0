import LengthDisasm.Listing

/-!
# Blocks

Large data is cut into blocks that can be listed one by one. A block ends where no instruction and
no zero run crosses its end. A search for such an end that starts with a fixed size can fail to end:
an instruction that would need more than 15 bytes is never settled.

## Main definitions

* `Block` — a piece of the data and its offset
* `Blocks.lengthWithin` — the length of the block at the front of data, within some rounds of search
* `Blocks.length?` — the length of the block at the front of data, if the search ends
* `Blocks.cut` — all blocks of the data
* `Blocks.text` — the listings of all blocks one after the other
* `Blocks.counted` — the blocks that can be listed, since addresses tell how long they are

## Main results

* `Blocks.lengthWithin_add` — after two rounds a search has ended or never ends
* `Blocks.counted_cut` — all blocks can be listed if the data ends before the last address
-/

namespace LengthDisasm

/-- A piece of data. -/
structure Block where
  /-- Where the piece stands in the data. -/
  offset : Nat
  bytes : List Byte
deriving DecidableEq, Repr

namespace Block

/-- Where the data goes on after the block. -/
def stop (b : Block) : Nat := b.offset + b.bytes.length

/-- The length of a block of data at `address` is the difference of the addresses after and before
it. A block that reaches the end of the address space has address zero after it, or one near it, and
so there is no such difference. -/
def isCounted (address : Address) (b : Block) : Bool :=
  decide (address.toNat + b.stop < UInt64.size)

end Block

namespace Blocks

/-- The length of the block at the front of `data`, searched for with `size` bytes first and then
with `blockSize` bytes more than the zero run at the front. The search is given up after some
rounds. -/
def lengthWithin (d : Decoder) (blockSize : Nat) (data : List Byte) :
    (rounds : Nat) → (size : Nat) → Option Nat
  | 0, _ => none
  | rounds + 1, size =>
    if ZeroRun.fewerThan size data then some data.length
    else
      let settled := d.settledLength (data.take size)
      if settled ≠ 0 then some settled
      else lengthWithin d blockSize data rounds (ZeroRun.length data + blockSize)

/-- The length of the block at the front of `data`; `none` if the search for it never ends. -/
def length? (d : Decoder) (blockSize : Nat) (data : List Byte) : Option Nat :=
  lengthWithin d blockSize data 2 blockSize

/-- The second round and those after it search alike, so that two rounds decide. -/
theorem lengthWithin_add (d : Decoder) (blockSize : Nat) (data : List Byte) (rounds size : Nat) :
    lengthWithin d blockSize data (2 + rounds) size = lengthWithin d blockSize data 2 size := by
  induction rounds generalizing size with
  | zero => rfl
  | succ rounds ih =>
    have hstep : ∀ n, lengthWithin d blockSize data (n + 1) size =
        if ZeroRun.fewerThan size data then some data.length
        else if d.settledLength (data.take size) ≠ 0 then
          some (d.settledLength (data.take size))
        else lengthWithin d blockSize data n (ZeroRun.length data + blockSize) := fun _ => rfl
    rw [show 2 + (rounds + 1) = (2 + rounds) + 1 by omega, hstep (2 + rounds), hstep 1, ih]
    split
    · rfl
    · split
      · rfl
      · simp only [lengthWithin]
        split
        · rfl
        · split
          · rfl
          · simp_all

theorem lengthWithin_pos {d : Decoder} {blockSize : Nat} {data : List Byte} (hne : data ≠ [])
    {rounds size n : Nat} (h : lengthWithin d blockSize data rounds size = some n) : 0 < n := by
  induction rounds generalizing size with
  | zero => cases h
  | succ rounds ih =>
    simp only [lengthWithin] at h
    split at h
    · cases h
      exact List.length_pos_iff.mpr hne
    · split at h
      · cases h
        omega
      · exact ih h

/-- The blocks of some data. -/
structure Cut where
  blocks : List Block
  /-- The blocks are all blocks; otherwise the search for the one after them never ends. -/
  complete : Bool
deriving DecidableEq, Repr

/-- The blocks of data that stands at an offset. -/
def cutFrom (d : Decoder) (blockSize offset : Nat) (data : List Byte) : Cut :=
  if _hne : data = [] then ⟨[], true⟩
  else
    match _h : length? d blockSize data with
    | none => ⟨[], false⟩
    | some n =>
      let others := cutFrom d blockSize (offset + n) (data.drop n)
      { others with blocks := ⟨offset, data.take n⟩ :: others.blocks }
termination_by data.length
decreasing_by
  have hpos := lengthWithin_pos _hne _h
  have hlen := List.length_pos_iff.mpr _hne
  simp only [List.length_drop]
  omega

/-- The blocks of the data. -/
def cut (d : Decoder) (blockSize : Nat) (data : List Byte) : Cut := cutFrom d blockSize 0 data

/-- The listing of one block of data that starts at the address of `l`. -/
def blockText (l : Listing) (b : Block) : String :=
  ((l.moveTo (l.decoder.address + BitVec.ofNat 64 b.offset)).print (b.offset == 0) b.bytes).1

/-- The listings of the blocks one after the other. -/
def text (l : Listing) (blocks : List Block) : String := String.join (blocks.map (blockText l))

/-- The blocks of data at `address` before the first one whose length addresses do not tell. -/
def counted (address : Address) (blocks : List Block) : List Block :=
  blocks.takeWhile (·.isCounted address)

theorem cutFrom_nil (d : Decoder) (blockSize offset : Nat) :
    cutFrom d blockSize offset [] = ⟨[], true⟩ := by
  rw [cutFrom]
  simp

theorem cutFrom_of_none {d : Decoder} {blockSize offset : Nat} {data : List Byte} (hne : data ≠ [])
    (h : length? d blockSize data = none) : cutFrom d blockSize offset data = ⟨[], false⟩ := by
  rw [cutFrom, dif_neg hne]
  split <;> simp_all

theorem cutFrom_of_some {d : Decoder} {blockSize offset n : Nat} {data : List Byte}
    (hne : data ≠ []) (h : length? d blockSize data = some n) : cutFrom d blockSize offset data =
      { cutFrom d blockSize (offset + n) (data.drop n) with
        blocks := ⟨offset, data.take n⟩ ::
          (cutFrom d blockSize (offset + n) (data.drop n)).blocks } := by
  rw [cutFrom, dif_neg hne]
  split <;> simp_all

theorem stop_le_of_mem_cutFrom {d : Decoder} {blockSize offset : Nat} {data : List Byte} {b : Block}
    (h : b ∈ (cutFrom d blockSize offset data).blocks) : b.stop ≤ offset + data.length := by
  fun_induction cutFrom d blockSize offset data with
  | case1 offset => simp at h
  | case2 offset data hne hlen => simp at h
  | case3 offset data hne n hlen others ih =>
    rcases List.mem_cons.mp h with rfl | h
    · simp only [Block.stop, List.length_take]
      omega
    · have hstop := ih h
      by_cases hn : n ≤ data.length
      · simp only [List.length_drop] at hstop
        omega
      · have hnil : data.drop n = [] := List.drop_eq_nil_of_le (by omega)
        simp only [others, hnil, cutFrom_nil] at h
        cases h

theorem counted_cut {d : Decoder} {blockSize : Nat} {data : List Byte} {address : Address}
    (h : address.toNat + data.length < UInt64.size) :
    counted address (cut d blockSize data).blocks = (cut d blockSize data).blocks := by
  have hall : ∀ b ∈ (cut d blockSize data).blocks, b.isCounted address = true := by
    intro b hb
    have hstop := stop_le_of_mem_cutFrom hb
    simp only [Block.isCounted, decide_eq_true_eq]
    omega
  rw [counted, ← List.append_nil (cut d blockSize data).blocks, List.takeWhile_append_of_pos]
  · rfl
  · exact hall

end Blocks

end LengthDisasm
