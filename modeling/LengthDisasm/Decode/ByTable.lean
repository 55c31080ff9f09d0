import LengthDisasm.Decode
import LengthDisasm.Opcode.Tables

/-!
# Decoding by the packed tables

A decoder can go through an instruction in steps that write to what it holds: the cursor, the parts
that were read, the prefixes and whether operand-sized immediates have 64 bits. What follows the
opcode is told by its shape, a byte of the packed tables whose bits are rewritten on the way. Some
steps leave marks for later ones. A move between the accumulator and a memory offset puts the
operand size prefix into the set or takes it out, since its offset is an address; and whether a
second 16-bit immediate is the selector of a far pointer is read off the flags that were set before.

## Main definitions

* `DecoderState`, `Steps` — what a decoder holds, and the steps that write to it
* `Steps.readHead` — prefixes, REX byte and opcode
* `Steps.checkModRM`, `Steps.readAddressing` — the ModRM byte, and what follows it
* `Steps.readImmediates` — the immediates of a shape
* `decodeByTable` — the instruction at the front of the code, or why there is none
-/

namespace LengthDisasm

/-- An instruction of which nothing was read. -/
def Instruction.blank : Instruction where
  flags := .empty
  length := 0
  opcode := .primary 0
  rex := none
  modrm := none
  sib := none
  disp := none
  imm := none

/-- What a decoder holds between its steps. -/
structure DecoderState where
  cursor : Cursor
  /-- The parts that were read. -/
  insn : Instruction
  /-- The prefixes that count for the steps to come. -/
  prefixes : PrefixSet
  /-- Operand-sized immediates have 64 bits in 64-bit mode. -/
  force64 : Bool
deriving DecidableEq, Repr

namespace DecoderState

/-- A decoder in front of code, of which it sees no more than an instruction can have. -/
def initial (code : List Byte) : DecoderState :=
  ⟨Cursor.limit code Instruction.maxLength, .blank, .empty, false⟩

end DecoderState

/-- Steps that write to what a decoder holds, and fail if the code is no instruction. A place
outside the tables would be a `Fault`. -/
abbrev Steps (α : Type) := StateT DecoderState (ExceptT DecodeError (Except Fault)) α

namespace Steps

/-- What steps give, with what the decoder holds after them. -/
def outcome {α : Type} (steps : Steps α) (s : DecoderState) :
    Except Fault (Except DecodeError (α × DecoderState)) :=
  (steps.run s).run

/-! ### Single steps -/

/-- Stop with an error if the condition holds. -/
def refuseIf (condition : Bool) (e : DecodeError) : Steps Unit :=
  if condition then throw e else pure ()

/-- Read one byte. -/
def readByte : Steps Byte := do
  let s ← get
  match s.cursor.readByte with
  | .ok (b, c) =>
    set { s with cursor := c }
    return b
  | .error e => throw e

/-- Read a literal. -/
def readLiteral (width : Nat) : Steps Literal := do
  let s ← get
  match Literal.read width s.cursor with
  | .ok (l, c) =>
    set { s with cursor := c }
    return l
  | .error e => throw e

/-- Write to the parts of the instruction. -/
def modifyInsn (f : Instruction → Instruction) : Steps Unit :=
  modify fun s => { s with insn := f s.insn }

/-- Set flags of the instruction. -/
def setFlags (flags : InsnFlags) : Steps Unit :=
  modifyInsn fun i => { i with flags := i.flags ||| flags }

/-- Read an immediate. -/
def readImm (flags : InsnFlags) (width : Nat) : Steps Unit := do
  setFlags flags
  let l ← readLiteral width
  modifyInsn fun i => { i with imm := some l }

/-- Read a displacement. -/
def readDisp (flags : InsnFlags) (width : Nat) : Steps Unit := do
  setFlags flags
  let l ← readLiteral width
  modifyInsn fun i => { i with disp := some l }

/-! ### The head -/

/-- How many bytes are looked at for prefixes. -/
def maxPrefixes : Nat := 16

/-- Read prefixes up to a byte that is none, in at most so many rounds, and give the last byte. -/
def readPrefixes : (rounds : Nat) → (last : Byte) → Steps Byte
  | 0, last => return last
  | rounds + 1, _ => do
    let b ← readByte
    match Prefix.ofByte? b with
    | some p =>
      modify fun s => { s with prefixes := s.prefixes.insert p }
      readPrefixes rounds b
    | none => return b

/-- Mark the absence of prefixes, and write the prefixes to the flags. -/
def closePrefixes : Steps Unit := do
  if (← get).prefixes.isEmpty then
    modify fun s => { s with prefixes := s.prefixes.insert .unprefixed }
  let prefixes := (← get).prefixes
  modifyInsn fun i => { i with flags := InsnFlags.empty.withPrefixes prefixes }

/-- Read on if `b` is a REX byte in this mode, and give the byte after it. The byte after it also
tells, before it is read, whether an immediate is forced to 64 bits. -/
def readRex (mode : Mode) (b : Byte) : Steps Byte := do
  if mode.isLong && Rex.isRexByte b then
    let rex : Rex := ⟨b⟩
    setFlags (.ofPrefix .rex)
    modifyInsn fun i => { i with rex := some rex }
    if rex.w && (← get).cursor.peek?.any fun next => next &&& 0xf8 == 0xb8 then
      modify fun s => { s with force64 := true }
    let next ← readByte
    refuseIf (Rex.isRexByte next) .unknownOpcode
    return next
  else
    return b

/-- Read the opcode whose first byte is `b`. The offset of an offset move is an address: it is
forced to 64 bits, and the address size prefix takes the place of the operand size prefix. -/
def readOpcode (b : Byte) : Steps Opcode := do
  if b = Opcode.escape then
    let second ← readByte
    modifyInsn fun i => { i with opcode := .escaped second }
    return .escaped second
  else
    modifyInsn fun i => { i with opcode := .primary b }
    if 0xa0 ≤ b ∧ b ≤ 0xa3 then
      modify fun s => { s with force64 := true }
      if (← get).prefixes.contains .addrSize then
        modify fun s => { s with prefixes := s.prefixes.insert .opSize }
      else
        modify fun s => { s with prefixes := s.prefixes.erase .opSize }
    return .primary b

/-- Read all that stands up to and including the opcode. -/
def readHead (mode : Mode) : Steps Opcode := do
  let b ← readPrefixes maxPrefixes 0
  closePrefixes
  let b ← readRex mode b
  readOpcode b

/-! ### Shapes and rules -/

/-- The shape of an opcode, and the mask of the register fields that are undefined for it. -/
def resolve (mode : Mode) (o : Opcode) : Steps (Byte × Byte) := do
  match ← mode.tables.entry? o.isEscaped o.byte with
  | some entry => return entry
  | none => throw .unknownOpcode

/-- The rules ask whether an opcode has a second byte other than zero: `0F 00` goes by the rules of
one-byte opcodes. -/
def hasSecond : Steps Bool := return (← get).insn.opcode.second != 0

/-- Refuse the prefixes that do not go with an escaped opcode. -/
def checkPrefixes (mode : Mode) (twoByte : Bool) (opcode : Byte) : Steps Unit := do
  if twoByte then
    let refused ← mode.tables.refusedPrefixes opcode
    refuseIf (refused &&& (← get).prefixes.classes != 0) .unknownOpcode

/-- Refuse x87 opcodes whose ModRM byte selects no instruction. -/
def checkX87 (mode : Mode) (twoByte : Bool) (opcode : Byte) (m : ModRM) : Steps Unit := do
  if !twoByte && decide (0xd9 ≤ opcode ∧ opcode ≤ 0xdf) then
    let index := (opcode - 0xd9).toNat
    if m.mod = 3 then
      let mask ← mode.tables.x87Mask index (some m.reg)
      refuseIf (OpcodeTables.isMasked mask m.rm) .unknownOpcode
    else
      let mask ← mode.tables.x87Mask index none
      refuseIf (OpcodeTables.isMasked mask m.reg) .unknownOpcode

/-- Refuse the LOCK prefix with a register, and where it is not allowed. -/
def checkLock (mode : Mode) (twoByte : Bool) (opcode : Byte) (m : ModRM) : Steps Unit := do
  if (← get).prefixes.contains .lock then
    refuseIf (m.mod == 3) .invalidLock
    let allowed ← mode.tables.allowsLock twoByte opcode m.reg
    refuseIf (!allowed) .invalidLock

/-- Refuse moves to and from control, debug and segment registers that do not exist, and give the
addressing form that counts: that of a register for the first two kinds of moves. -/
def checkSystemMove (twoByte : Bool) (opcode : Byte) (m : ModRM) : Steps (BitVec 2) := do
  if twoByte && (opcode == 0x20 || opcode == 0x22) then
    refuseIf (decide (4 < m.reg) || m.reg == 1) .badOperand
    return 3
  else if twoByte && (opcode == 0x21 || opcode == 0x23) then
    refuseIf (m.reg == 4 || m.reg == 5) .badOperand
    return 3
  else if !twoByte && opcode == 0x8c then
    refuseIf (decide (5 < m.reg)) .badOperand
    return m.mod
  else if !twoByte && opcode == 0x8e then
    refuseIf (m.reg == 1 || decide (5 < m.reg)) .badOperand
    return m.mod
  else
    return m.mod

/-- Refuse a register where only memory goes, and memory where only a register goes. -/
def checkForm (mode : Mode) (twoByte : Bool) (opcode : Byte) (form : BitVec 2) (reg : BitVec 3) :
    Steps Unit := do
  let prefixes := (← get).prefixes.classes
  if form = 3 then
    let denied ← mode.tables.deniesRegister twoByte opcode prefixes reg
    refuseIf denied .badOperand
  else if twoByte then
    let denied :=
      if opcode = 0x50 ∨ opcode = 0xd7 ∨ opcode = 0xf7 then prefixes &&& (0x01 ||| 0x08) != 0
      else if opcode = 0xd6 then prefixes &&& (0x02 ||| 0x04) != 0
      else opcode == 0xc5
    refuseIf denied .badOperand

/-- Check the ModRM byte against all rules, and give the addressing form that counts. -/
def checkModRM (mode : Mode) (twoByte : Bool) (opcode mask : Byte) (m : ModRM) :
    Steps (BitVec 2) := do
  refuseIf (mask != 0 && OpcodeTables.isMasked mask m.reg) .unknownOpcode
  checkX87 mode twoByte opcode m
  checkLock mode twoByte opcode m
  let form ← checkSystemMove twoByte opcode m
  checkForm mode twoByte opcode form m.reg
  return form

/-! ### Addressing bytes -/

/-- The shape with the immediates that a register field of 0 or 1 adds. -/
def promote (shape opcode : Byte) (reg : BitVec 3) : Byte :=
  if reg ≤ 1 then
    if opcode = 0xf6 then shape ||| Shape.byte
    else if opcode = 0xf7 then shape ||| Shape.operand
    else shape
  else shape

/-- How many bytes of displacement an addressing form has, if no SIB byte changes it. -/
def displacementSize (addr16 : Bool) (form : BitVec 2) (rm : BitVec 3) : Nat :=
  if form = 0 ∧ addr16 = true ∧ rm = 6 then 2
  else if form = 0 ∧ addr16 = false ∧ rm = 5 then 4
  else if form = 1 then 1
  else if form = 2 ∧ addr16 = true then 2
  else if form = 2 then 4
  else 0

/-- Read a displacement of so many bytes. -/
def readDisplacement : (size : Nat) → Steps Unit
  | 1 => readDisp .disp8 8
  | 2 => readDisp .disp16 16
  | 4 => readDisp .disp32 32
  | _ => pure ()

/-- Read the SIB byte and the displacement that an addressing form asks for. -/
def readMemory (mode : Mode) (form : BitVec 2) (rm : BitVec 3) : Steps Unit := do
  let addr16 := (← get).prefixes.contains .addrSize
  let mut size := displacementSize addr16 form rm
  if form != 3 && rm == 4 && (mode.isLong || !addr16) then
    let sib : Sib := ⟨← readByte⟩
    setFlags .sib
    modifyInsn fun i => { i with sib := some sib }
    if sib.base == 5 && form &&& 1 == 0 then
      size := 4
  readDisplacement size

/-- Check the ModRM byte and read what it asks for. The shape is given back with the immediates that
are still to be read. -/
def readAddressing (mode : Mode) (twoByte : Bool) (opcode shape mask : Byte) (m : ModRM) :
    Steps Byte := do
  let form ← checkModRM mode twoByte opcode mask m
  readMemory mode form m.rm
  return promote shape opcode m.reg

/-! ### Immediates -/

/-- Read a 16-bit immediate. In 32-bit mode it is the selector of a far pointer if an immediate of
32 or of 16 bits was read before it. -/
def readWord (mode : Mode) : Steps Unit := do
  let flags := (← get).insn.flags
  if mode.isLong then
    readImm .imm16 16
  else if flags.contains .imm32 then
    readDisp .imm16 16
  else if flags.contains .imm16 then
    readDisp .twoImm16 16
  else
    readImm .imm16 16

/-- Read the immediates of a shape. An operand-sized immediate can leave a 16-bit one to be read
after it, and a near branch reads nothing but its distance. -/
def readImmediates (mode : Mode) (shape : Byte) : Steps Unit := do
  let mut shape := shape
  let opSize := (← get).prefixes.contains .opSize
  if Shape.has shape Shape.operand then
    if Shape.has shape Shape.near then
      if opSize then
        return ← readImm (.relative ||| .imm16) 16
      shape := shape &&& ~~~(Shape.word ||| Shape.byte)
    else if mode.isLong then
      if (← get).force64 then
        readImm .imm64 64
      else if !opSize then
        readImm .imm32 32
      else
        shape := shape ||| Shape.word
    else if opSize then
      readImm .imm16 16
    else
      readImm .imm32 32
  if Shape.has shape Shape.word then
    readWord mode
  if Shape.has shape Shape.byte then
    readImm .imm8 8
  if Shape.has shape Shape.near then
    readImm (.relative ||| .imm32) 32
  else if Shape.has shape Shape.short then
    readImm (.relative ||| .imm8) 8

/-! ### All steps -/

/-- Read the ModRM byte and what follows it up to the immediates, if the shape has one, and give the
shape of the immediates. -/
def readOperand (mode : Mode) (twoByte : Bool) (opcode shape mask : Byte) : Steps Byte := do
  if Shape.has shape Shape.modrm then
    let m : ModRM := ⟨← readByte⟩
    setFlags .modrm
    modifyInsn fun i => { i with modrm := some m }
    readAddressing mode twoByte opcode shape mask m
  else
    refuseIf ((← get).prefixes.contains .lock) .invalidLock
    return shape

/-- Read all that follows an opcode. -/
def readBody (mode : Mode) (o : Opcode) : Steps Unit := do
  let (shape, mask) ← resolve mode o
  let twoByte ← hasSecond
  checkPrefixes mode twoByte o.byte
  let shape ← readOperand mode twoByte o.byte shape mask
  readImmediates mode shape

/-- Read an instruction; its length is kept in a byte. -/
def readInstruction (mode : Mode) : Steps Instruction := do
  let o ← readHead mode
  readBody mode o
  let s ← get
  return { s.insn with length := (BitVec.ofNat 8 s.cursor.offset).toNat }

end Steps

/-- Decode the instruction at the front of `code` by the packed tables of the mode. -/
def decodeByTable (mode : Mode) (code : List Byte) :
    Except Fault (Except DecodeError Instruction) := do
  let result ← (Steps.readInstruction mode).outcome (.initial code)
  return result.map Prod.fst

end LengthDisasm
