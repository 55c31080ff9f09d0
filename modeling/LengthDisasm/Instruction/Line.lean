import LengthDisasm.Instruction.Basic
import LengthDisasm.Style

/-!
# Instructions as lines of text

An instruction is written as `name=value` fields in a fixed order, and a failed decode as its error.

## Main definitions

* `Instruction.line` — the fields of an instruction
* `DecodeError.line` — the text of a failed decode
* `decodedLine` — the text of a decode result
-/

namespace LengthDisasm

namespace Instruction

/-- A field that holds a byte, with a space before it. -/
def byteField (theme : Theme) (style : Style) (name : String) (b : Byte) : String :=
  " " ++ theme.wrap .fieldName name ++ theme.wrap style (Text.hexByte b)

/-- A field that holds a literal, with a space before it. -/
def literalField (theme : Theme) (style : Style) (name : String) (l : Literal) : String :=
  " " ++ theme.wrap .fieldName name ++ theme.wrap style l.text

/-- The text of a part that may be absent. -/
def optional {α : Type} (text : α → String) : Option α → String
  | some a => text a
  | none => ""

/-- The fields of an instruction on one line. -/
def line (theme : Theme) (i : Instruction) : String :=
  theme.wrap .fieldName "op=" ++ theme.wrap .opcode (Text.hexByte i.opcode.first) ++
    (if i.opcode.isEscaped then byteField theme .opcode "op2=" i.opcode.second else "") ++
    optional (fun rex => byteField theme .field "rex=" rex.byte) i.rex ++
    optional (fun modrm => byteField theme .field "modrm=" modrm.byte) i.modrm ++
    optional (fun sib => byteField theme .field "sib=" sib.byte) i.sib ++
    optional (literalField theme .displacement "disp=") i.disp ++
    optional (literalField theme .immediate "imm=") i.imm ++
    " " ++ theme.wrap .fieldName "flags=" ++ theme.wrap .flags i.flags.text

end Instruction

/-- The text of a failed decode. -/
def DecodeError.line (theme : Theme) (e : DecodeError) : String :=
  theme.wrap .error ("error: " ++ e.message)

/-- The unmarked text of a decode result. -/
def decodedLine : Except DecodeError Instruction → String
  | .ok i => i.line .plain
  | .error e => e.line .plain

end LengthDisasm
