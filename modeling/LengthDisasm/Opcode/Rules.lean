import LengthDisasm.Opcode.Map

/-!
# Legality rules

Beyond the opcode maps, an instruction can be refused for its prefixes, for its register field, or
for being written with a register where only memory is allowed and the other way round. The rules
hold in both modes.

## Main definitions

* `PrefixClasses` — prefix sets as the rules see them, with one class for all segment overrides
* `Opcode.ruling` — the opcode whose rules apply
* `Opcode.forbiddenClasses` — the prefixes that an escaped opcode refuses
* `Opcode.checkOperand` — the rules for an opcode with a ModRM byte, in the order of their errors
-/

namespace LengthDisasm

/-- Classes of prefixes, as bits: none (0), REPNZ (1), REP (2), operand size (3), address size (4),
LOCK (5), any segment override (6). -/
abbrev PrefixClasses := BitVec 8

/-- The classes of the prefixes of a set. -/
def PrefixSet.classes (s : PrefixSet) : PrefixClasses :=
  (s.bits &&& 0x3f).setWidth 8 ||| (if s.bits &&& segmentMask = 0 then 0 else 0x40)

namespace Opcode

/-- The opcode whose rules apply: `0F 00` has none of its own and takes those of `00`. -/
def ruling : Opcode → Opcode
  | escaped 0 => primary 0
  | o => o

/-! ### Prefixes -/

/-- Escaped opcodes that refuse prefixes, by the classes refused. -/
def refusals : List (PrefixClasses × List Byte) :=
  [ (0x01, [0xd6, 0xe6]),
    (0x02, [0x16, 0x5b, 0x6f, 0x7e, 0x7f]),
    (0x04, [0xba, 0xbb, 0xbc, 0xbd, 0xbe, 0xbf]),
    (0x05, [0x7c, 0x7d, 0xd0]),
    (0x06, [0x13, 0x14, 0x15, 0x17, 0x28, 0x29, 0x2b, 0x2e, 0x2f, 0x50, 0x54, 0x55, 0x56, 0x57,
      0x68, 0x69, 0x6a, 0x6b, 0x6e, 0x71, 0x72, 0x73, 0x74, 0x75, 0x76, 0xc4, 0xc5, 0xc6,
      0xd1, 0xd2, 0xd3, 0xd4, 0xd5, 0xd7, 0xe0, 0xe1, 0xe2, 0xe3, 0xe4, 0xe5, 0xe7,
      0xf1, 0xf2, 0xf3, 0xf4, 0xf5, 0xf6, 0xf7]),
    (0x07, [0x6c, 0x6d]),
    (0x0a, [0x52, 0x53]),
    (0x0d, [0xf0]),
    (0x0e, [0x77, 0xc3]) ]

/-- The prefix classes that an opcode refuses. -/
def forbiddenClasses : Opcode → PrefixClasses
  | primary _ => 0
  | escaped b =>
    match refusals.find? fun entry => entry.2.contains b with
    | some entry => entry.1
    | none => 0

/-! ### Register fields -/

/-- Register fields of `D9` to `DF` that are undefined with a memory operand. -/
def undefinedX87Memory : List RegSet :=
  [⟨0x40⟩, ⟨0x00⟩, ⟨0x0a⟩, ⟨0x00⟩, ⟨0x04⟩, ⟨0x00⟩, ⟨0x00⟩]

/-- For `D9` to `DF` and each register field, the second operands that are undefined. -/
def undefinedX87Register : List (List RegSet) :=
  [ [⟨0x00⟩, ⟨0x00⟩, ⟨0x7f⟩, ⟨0x00⟩, ⟨0x33⟩, ⟨0x01⟩, ⟨0x00⟩, ⟨0x00⟩],
    [⟨0x00⟩, ⟨0x00⟩, ⟨0x00⟩, ⟨0x00⟩, ⟨0xff⟩, ⟨0xbf⟩, ⟨0xff⟩, ⟨0xff⟩],
    [⟨0x00⟩, ⟨0x00⟩, ⟨0x00⟩, ⟨0x00⟩, ⟨0x07⟩, ⟨0x00⟩, ⟨0x00⟩, ⟨0xff⟩],
    [⟨0x00⟩, ⟨0x00⟩, ⟨0x00⟩, ⟨0x00⟩, ⟨0x00⟩, ⟨0x00⟩, ⟨0x00⟩, ⟨0x00⟩],
    [⟨0x00⟩, ⟨0x00⟩, ⟨0x00⟩, ⟨0x00⟩, ⟨0x00⟩, ⟨0x00⟩, ⟨0xff⟩, ⟨0xff⟩],
    [⟨0x00⟩, ⟨0x00⟩, ⟨0x00⟩, ⟨0xbf⟩, ⟨0x00⟩, ⟨0x00⟩, ⟨0x00⟩, ⟨0x00⟩],
    [⟨0x00⟩, ⟨0x00⟩, ⟨0x00⟩, ⟨0x00⟩, ⟨0x7f⟩, ⟨0x00⟩, ⟨0x00⟩, ⟨0xff⟩] ]

/-- An x87 opcode whose ModRM byte selects no instruction. -/
def isUndefinedX87 (o : Opcode) (m : ModRM) : Bool :=
  match o with
  | primary b =>
    if 0xd9 ≤ b ∧ b ≤ 0xdf then
      let row := b.toNat - 0xd9
      if m.isRegister then
        (((undefinedX87Register.getD row []).getD m.reg.toNat .empty)).contains m.rm
      else
        (undefinedX87Memory.getD row .empty).contains m.reg
    else false
  | escaped _ => false

/-- One-byte opcodes that can be locked, without their lowest bit, and the register fields that
cannot. -/
def lockablePrimary : List (Byte × RegSet) :=
  [ (0x00, ⟨0x00⟩), (0x08, ⟨0x00⟩), (0x10, ⟨0x00⟩), (0x18, ⟨0x00⟩), (0x20, ⟨0x00⟩), (0x28, ⟨0x00⟩),
    (0x30, ⟨0x00⟩), (0x80, ⟨0x01⟩), (0x82, ⟨0x01⟩), (0x86, ⟨0x00⟩), (0xf6, ⟨0xcf⟩), (0xfe, ⟨0x3f⟩) ]

/-- Escaped opcodes that can be locked, and the register fields that cannot. -/
def lockableEscaped : List (Byte × RegSet) :=
  [ (0xab, ⟨0x00⟩), (0xb0, ⟨0x00⟩), (0xb1, ⟨0x00⟩), (0xb3, ⟨0x00⟩), (0xba, ⟨0xf8⟩), (0xbb, ⟨0x00⟩),
    (0xc0, ⟨0x00⟩), (0xc1, ⟨0x00⟩), (0xc7, ⟨0xbf⟩) ]

/-- The opcode with this register field can be locked. -/
def isLockable (o : Opcode) (reg : BitVec 3) : Bool :=
  let entry := match o with
    | primary b => lockablePrimary.lookup (b &&& 0xfe)
    | escaped b => lockableEscaped.lookup b
  match entry with
  | some refused => !refused.contains reg
  | none => false

/-- The opcode moves to or from a control register. -/
def isControlMove : Opcode → Bool
  | escaped b => b == 0x20 || b == 0x22
  | primary _ => false

/-- The opcode moves to or from a debug register. -/
def isDebugMove : Opcode → Bool
  | escaped b => b == 0x21 || b == 0x23
  | primary _ => false

/-- The register field names a control, debug or segment register that does not exist or that cannot
be loaded. -/
def isMissingRegister (o : Opcode) (reg : BitVec 3) : Bool :=
  if o.isControlMove then decide (4 < reg) || reg == 1
  else if o.isDebugMove then reg == 4 || reg == 5
  else if o = primary 0x8c then decide (5 < reg)
  else if o = primary 0x8e then reg == 1 || decide (5 < reg)
  else false

/-! ### Register and memory forms -/

/-- The addressing form as the processor sees it: moves of control and debug registers always take a
register. -/
def addressingForm (o : Opcode) (m : ModRM) : BitVec 2 :=
  if o.isControlMove || o.isDebugMove then 3 else m.mod

/-- An opcode that takes memory only, under some prefixes and apart from some register fields. -/
structure MemoryOnly where
  byte : Byte
  /-- The rule applies under a prefix of these classes. -/
  classes : PrefixClasses
  /-- The register fields that may stand with a register all the same. -/
  allowed : RegSet
deriving DecidableEq, Repr

/-- The one-byte opcodes that take memory only. -/
def memoryOnlyPrimary : List MemoryOnly :=
  [ ⟨0x62, 0xff, ⟨0x00⟩⟩, ⟨0x8d, 0xff, ⟨0x00⟩⟩, ⟨0xc4, 0xff, ⟨0x00⟩⟩, ⟨0xc5, 0xff, ⟨0x00⟩⟩,
    ⟨0xff, 0xff, ⟨0xeb⟩⟩ ]

/-- The escaped opcodes that take memory only. -/
def memoryOnlyEscaped : List MemoryOnly :=
  [ ⟨0x01, 0xff, ⟨0x0e⟩⟩, ⟨0x12, 0x08, ⟨0x00⟩⟩, ⟨0x13, 0x09, ⟨0x00⟩⟩, ⟨0x16, 0x08, ⟨0x00⟩⟩,
    ⟨0x17, 0x09, ⟨0x00⟩⟩, ⟨0x2b, 0x09, ⟨0x00⟩⟩, ⟨0xae, 0xff, ⟨0x07⟩⟩, ⟨0xb2, 0xff, ⟨0x00⟩⟩,
    ⟨0xb4, 0xff, ⟨0x00⟩⟩, ⟨0xb5, 0xff, ⟨0x00⟩⟩, ⟨0xc3, 0x01, ⟨0x00⟩⟩, ⟨0xc7, 0xff, ⟨0xbf⟩⟩,
    ⟨0xe7, 0x08, ⟨0x00⟩⟩, ⟨0xf0, 0x02, ⟨0x00⟩⟩ ]

/-- The opcode under these prefixes cannot take a register. -/
def refusesRegister (o : Opcode) (classes : PrefixClasses) (reg : BitVec 3) : Bool :=
  let rules := match o with
    | primary _ => memoryOnlyPrimary
    | escaped _ => memoryOnlyEscaped
  match rules.find? (·.byte == o.byte) with
  | some rule => rule.classes &&& classes != 0 && !rule.allowed.contains reg
  | none => false

/-- The opcode under these prefixes cannot take memory. -/
def refusesMemory (o : Opcode) (classes : PrefixClasses) : Bool :=
  match o with
  | primary _ => false
  | escaped b =>
    if b = 0x50 ∨ b = 0xd7 ∨ b = 0xf7 then classes &&& 0x09 != 0
    else if b = 0xd6 then classes &&& 0x06 != 0
    else b == 0xc5

/-- Check the ModRM byte of an opcode against all rules; the first one broken gives the error. -/
def checkOperand (o : Opcode) (undefinedRegs : RegSet) (prefixes : PrefixSet) (m : ModRM) :
    Except DecodeError Unit :=
  if undefinedRegs.contains m.reg then .error .unknownOpcode
  else if o.isUndefinedX87 m then .error .unknownOpcode
  else if prefixes.contains .lock && (m.isRegister || !o.isLockable m.reg) then
    .error .invalidLock
  else if o.isMissingRegister m.reg then .error .badOperand
  else if o.addressingForm m == 3 then
    if o.refusesRegister prefixes.classes m.reg then .error .badOperand else .ok ()
  else
    if o.refusesMemory prefixes.classes then .error .badOperand else .ok ()

end Opcode

end LengthDisasm
