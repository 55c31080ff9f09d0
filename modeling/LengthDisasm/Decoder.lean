import LengthDisasm.Summary
import LengthDisasm.ZeroRun

/-!
# Decoders

A decoder knows the mode and the address of the code in front of it, and moves on as it decodes.

## Main definitions

* `DecodeOptions` — how code is treated and shown
* `Decoder` — mode, address and options
* `Decoder.decode`, `Decoder.skip` — decode or skip, and move the address
* `Decoder.settledLength` — how much of the data is decoded in the same way whatever follows it
-/

namespace LengthDisasm

/-- How code is treated and shown. -/
structure DecodeOptions where
  /-- Decode runs of zero bytes instead of skipping them. -/
  decodeZeroes : Bool
  /-- Show the bytes of each instruction. -/
  showRaw : Bool
deriving DecidableEq, Repr

namespace DecodeOptions

/-- Zero runs are skipped and bytes are shown. -/
def default : DecodeOptions := ⟨false, true⟩

end DecodeOptions

/-- A decoder at an address. -/
structure Decoder where
  mode : Mode
  address : Address
  options : DecodeOptions
deriving DecidableEq, Repr

namespace Decoder

/-- Move over so many bytes without decoding them. -/
def skip (d : Decoder) (size : Nat) : Decoder :=
  { d with address := d.address + BitVec.ofNat 64 size }

/-- Decode an instruction and move past it; a failed decode does not move. -/
def decode (d : Decoder) (code : List Byte) : Except DecodeError Instruction × Decoder :=
  let result := LengthDisasm.decode d.mode code
  match result with
  | .ok i => (result, d.skip i.length)
  | .error _ => (result, d)

/-- The walk through data that lies at the address of the decoder. -/
def walk (d : Decoder) (data : List Byte) : Walk := ⟨d.mode, d.address, data⟩

/-- The number of bytes at the front of the data that are settled together: a zero run to skip, an
instruction, or a byte that starts none. Zero means that more data could change the decision. -/
def settledFront (mode : Mode) (decodeZeroes : Bool) (data : List Byte) : Nat :=
  let decoded := match LengthDisasm.decode mode data with
    | .ok i => i.length
    | .error .insufficientLength => 0
    | .error _ => 1
  if data.isEmpty then 0
  else if decodeZeroes then decoded
  else if ZeroRun.fewerThan ZeroRun.blockSize data then 0
  else
    let run := ZeroRun.length data
    if run < ZeroRun.blockSize then decoded
    else if ZeroRun.isAll data then 0
    else if run < ZeroRun.longRun then decoded
    else ZeroRun.wholeBlocks run

/-- The number of settled bytes, counted on from `done`. -/
def settledOnto (mode : Mode) (decodeZeroes : Bool) (done : Nat) (data : List Byte) : Nat :=
  let front := settledFront mode decodeZeroes data
  if _h : front = 0 ∨ data = [] then done
  else settledOnto mode decodeZeroes (done + front) (data.drop front)
termination_by data.length
decreasing_by
  have hlen : 0 < data.length := List.length_pos_iff.mpr fun hd => _h (.inr hd)
  have hfront : 0 < settledFront mode decodeZeroes data := by omega
  simp only [List.length_drop]
  omega

/-- The number of bytes at the front of the data that form whole instructions, zero runs to skip, or
bytes that start no instruction; it ends before an instruction that the data does not hold in
full. -/
def settledLength (d : Decoder) (data : List Byte) : Nat :=
  settledOnto d.mode d.options.decodeZeroes 0 data

end Decoder

end LengthDisasm
