import LengthDisasm.Bits.FlagWord
import LengthDisasm.Bits.Names
import LengthDisasm.Instruction.Prefix

/-!
# Instruction flags

The flags of an instruction say which of its parts are present and, in a field of 13 bits, with
which prefixes it was written.

## Main definitions

* `InsnFlags` — the flag word of an instruction
* `InsnFlags.prefixes`, `InsnFlags.withPrefixes`, `InsnFlags.addPrefixes` — its prefix field
* `InsnFlags.text` — the names of the flags that are set
-/

namespace LengthDisasm

/-- The flag word of an instruction. -/
structure InsnFlags where
  bits : BitVec 32
deriving DecidableEq, Repr

namespace InsnFlags

/-- No flag is set. -/
def empty : InsnFlags := ⟨0⟩

/-! ### Structure -/

/-- A ModRM byte is present. -/
def modrm : InsnFlags := ⟨0x001⟩
/-- A SIB byte is present. -/
def sib : InsnFlags := ⟨0x002⟩
/-- An 8-bit immediate is present. -/
def imm8 : InsnFlags := ⟨0x004⟩
/-- A 16-bit immediate is present. -/
def imm16 : InsnFlags := ⟨0x008⟩
/-- A 32-bit immediate is present. -/
def imm32 : InsnFlags := ⟨0x010⟩
/-- A 64-bit immediate is present. -/
def imm64 : InsnFlags := ⟨0x020⟩
/-- Two 16-bit immediates are present; only in 32-bit mode, where `imm64` cannot occur. -/
def twoImm16 : InsnFlags := imm64
/-- An 8-bit displacement is present. -/
def disp8 : InsnFlags := ⟨0x040⟩
/-- A 16-bit displacement is present. -/
def disp16 : InsnFlags := ⟨0x080⟩
/-- A 32-bit displacement is present. -/
def disp32 : InsnFlags := ⟨0x100⟩
/-- The immediate is relative to the end of the instruction. -/
def relative : InsnFlags := ⟨0x200⟩

/-! ### Prefix field -/

/-- The bits that hold the prefix set. -/
def prefixField : BitField := ⟨10, 13⟩

/-- The flag that says that a prefix is present. -/
def ofPrefix (p : Prefix) : InsnFlags := ⟨p.bit.setWidth 32 <<< prefixField.start⟩

/-! ### Operations -/

/-- All flags of both words. -/
def union (f g : InsnFlags) : InsnFlags := ⟨f.bits ||| g.bits⟩

instance : OrOp InsnFlags := ⟨union⟩

/-- Every flag of `g` is set in `f`. -/
def contains (f g : InsnFlags) : Bool := f.bits &&& g.bits == g.bits

/-- Some flag of `g` is set in `f`. -/
def intersects (f g : InsnFlags) : Bool := f.bits &&& g.bits != 0

/-- The prefix set that the flags hold. -/
def prefixes (f : InsnFlags) : PrefixSet :=
  ⟨(f.bits.extractLsb' prefixField.start prefixField.size).setWidth 16⟩

/-- The flags with the prefix set replaced. -/
def withPrefixes (f : InsnFlags) (s : PrefixSet) : InsnFlags :=
  ⟨(f.bits &&& ~~~prefixField.mask) |||
    ((s.bits.setWidth 32 <<< prefixField.start) &&& prefixField.mask)⟩

/-- The flags with more prefixes put into the prefix set as they are. -/
def addPrefixes (f : InsnFlags) (s : PrefixSet) : InsnFlags :=
  f.withPrefixes ⟨f.prefixes.bits ||| s.bits⟩

/-- The segment override of the prefix set. -/
def segment? (f : InsnFlags) : Option Segment := f.prefixes.segment?

/-- The immediate is relative to the end of the instruction. -/
def isRelative (f : InsnFlags) : Bool := f.contains relative

/-! ### Text -/

/-- The names of the flags; the absence of prefixes is not shown. -/
def names : BitNames where
  typeName := "Flag"
  entries :=
    [(modrm, "ModRM"), (sib, "SIB"), (imm8, "Imm8"), (imm16, "Imm16"), (imm32, "Imm32"),
      (imm64, "Imm64"), (disp8, "Disp8"), (disp16, "Disp16"), (disp32, "Disp32"),
      (relative, "Relative")].map (fun entry => (entry.1.bits, entry.2)) ++
    Prefix.all.map fun p => ((ofPrefix p).bits, if p = .unprefixed then "" else p.name)

/-- The names of the set flags. -/
def text (f : InsnFlags) : String := names.describe f.bits

end InsnFlags

end LengthDisasm
