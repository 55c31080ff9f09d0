import LengthDisasm.Instruction.Basic

/-!
# Compact records

A compact record stores an instruction in fields of fixed size, absent parts as zero, with a flag
word in which each prefix has a bit and all segment overrides share one.

## Main definitions

* `CompactFlags` — the flag word and the segment override byte
* `CompactRecord` — the record of an instruction
-/

namespace LengthDisasm

/-- The flag word of a compact record, with the segment override byte or zero. -/
structure CompactFlags where
  word : BitVec 32
  segment : Byte
deriving DecidableEq, Repr

namespace CompactFlags

/-- The bits that mean the same in both flag words. -/
def structureMask : BitVec 32 := 0x3ff

/-- The bit of each prefix that is not a segment override. -/
def prefixBits : List (Prefix × BitVec 32) :=
  [ (.unprefixed, 0x00800000), (.repNZ, 0x01000000), (.rep, 0x02000000), (.opSize, 0x04000000),
    (.addrSize, 0x08000000), (.lock, 0x10000000), (.rex, 0x40000000) ]

/-- The bit that says that there is a segment override. -/
def segmentBit : BitVec 32 := 0x20000000

/-- The compact form of the flags of an instruction. -/
def ofFlags (f : InsnFlags) : CompactFlags :=
  let present := prefixBits.filter fun entry => f.contains (.ofPrefix entry.1)
  let word := present.foldl (fun word entry => word ||| entry.2) (f.bits &&& structureMask)
  match f.segment? with
  | some s => ⟨word ||| segmentBit, s.byte⟩
  | none => ⟨word, 0⟩

end CompactFlags

/-- The fixed-size record of an instruction. -/
structure CompactRecord where
  length : Nat
  repeatByte : Byte
  lockByte : Byte
  segmentByte : Byte
  opSizeByte : Byte
  addrSizeByte : Byte
  rex : Byte
  opcode : Byte
  opcode2 : Byte
  modrm : Byte
  sib : Byte
  imm : Nat
  disp : Nat
  flags : BitVec 32
deriving DecidableEq, Repr

/-- The compact record of an instruction. -/
def Instruction.record (i : Instruction) : CompactRecord :=
  let flags := CompactFlags.ofFlags i.flags
  { length := i.length
    repeatByte := i.repeatByte?.getD 0
    lockByte := i.lockByte?.getD 0
    segmentByte := flags.segment
    opSizeByte := i.opSizeByte?.getD 0
    addrSizeByte := i.addrSizeByte?.getD 0
    rex := (i.rex.map Rex.byte).getD 0
    opcode := i.opcode.first
    opcode2 := i.opcode.second
    modrm := (i.modrm.map ModRM.byte).getD 0
    sib := (i.sib.map Sib.byte).getD 0
    imm := (i.imm.map Literal.value).getD 0
    disp := (i.disp.map Literal.value).getD 0
    flags := flags.word }

end LengthDisasm
