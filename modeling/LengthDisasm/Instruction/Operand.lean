import LengthDisasm.Byte

/-!
# Operand bytes

The three bytes that spell out operands are divided into bit fields.

## Main definitions

* `ModRM` — addressing form, register and register-or-memory field
* `Sib` — scale, index and base of a memory operand
* `Rex` — the prefix of 64-bit mode that widens operands and register numbers
-/

namespace LengthDisasm

/-- A ModRM byte. -/
structure ModRM where
  byte : Byte
deriving DecidableEq, Repr

namespace ModRM

/-- The addressing form: 3 is a register, the others are memory. -/
def mod (m : ModRM) : BitVec 2 := m.byte.extractLsb' 6 2

/-- The register field, which also extends some opcodes. -/
def reg (m : ModRM) : BitVec 3 := m.byte.extractLsb' 3 3

/-- The register or memory field. -/
def rm (m : ModRM) : BitVec 3 := m.byte.extractLsb' 0 3

/-- The operand is a register. -/
def isRegister (m : ModRM) : Bool := m.mod == 3

/-- The fields as text. -/
def text (m : ModRM) : String :=
  "ModRM \x7b mod: " ++ toString m.mod.toNat ++ ", reg: " ++ toString m.reg.toNat ++
    ", rm: " ++ toString m.rm.toNat ++ " \x7d"

end ModRM

/-- A SIB byte. -/
structure Sib where
  byte : Byte
deriving DecidableEq, Repr

namespace Sib

/-- The power of two that scales the index. -/
def scale (s : Sib) : BitVec 2 := s.byte.extractLsb' 6 2

/-- The index register. -/
def index (s : Sib) : BitVec 3 := s.byte.extractLsb' 3 3

/-- The base register. -/
def base (s : Sib) : BitVec 3 := s.byte.extractLsb' 0 3

/-- The fields as text. -/
def text (s : Sib) : String :=
  "Sib \x7b scale: " ++ toString s.scale.toNat ++ ", index: " ++ toString s.index.toNat ++
    ", base: " ++ toString s.base.toNat ++ " \x7d"

end Sib

/-- A REX byte. -/
structure Rex where
  byte : Byte
deriving DecidableEq, Repr

namespace Rex

/-- The bytes that are REX bytes in 64-bit mode. -/
def isRexByte (b : Byte) : Bool := b &&& 0xf0 == 0x40

/-- Operands are 64 bits wide. -/
def w (r : Rex) : Bool := r.byte.getLsbD 3

/-- Extends the register field of ModRM. -/
def r (r : Rex) : Bool := r.byte.getLsbD 2

/-- Extends the index field of SIB. -/
def x (r : Rex) : Bool := r.byte.getLsbD 1

/-- Extends the register or memory field of ModRM, or the base of SIB. -/
def b (r : Rex) : Bool := r.byte.getLsbD 0

/-- The fields as text. -/
def text (rex : Rex) : String :=
  "Rex \x7b w: " ++ toString rex.w ++ ", r: " ++ toString rex.r ++ ", x: " ++ toString rex.x ++
    ", b: " ++ toString rex.b ++ " \x7d"

end Rex

end LengthDisasm
