import LengthDisasm.Instruction.Line
import LengthDisasm.Listing.Item

/-!
# The text of a listing

## Main definitions

* `Presentation` — theme, symbols and spelling of names
* `Presentation.label` — the line that names an address
* `Presentation.target` — the comment after a branch that says where it goes
* `Presentation.item` — all lines of an item
-/

namespace LengthDisasm

/-- How a listing is shown. -/
structure Presentation where
  theme : Theme
  symbols : SymbolLookup
  /-- How the name of a symbol is spelled. -/
  spell : String → String

namespace Presentation

/-- The bytes shown on one line. -/
def bytesPerLine : Nat := 7

/-- The name of a symbol, spelled and marked. -/
def symbol (p : Presentation) (name : String) : String := p.theme.wrap .symbol (p.spell name)

/-- The line that names an address, after an empty line. -/
def label (p : Presentation) (mode : Mode) (address : Address) (label : Label) : String :=
  let distance := if label.distance = 0 then "" else "-" ++ Text.hexMarked label.distance
  "\n" ++ Text.padLeft (mode.width / 4) '0' (Text.hex address.toNat) ++ " <" ++
    p.symbol label.name ++ distance ++ ">:\n"

/-- The address that a branch at `address` goes to: the distance counts from its end. -/
def branchTarget (address : Address) (length : Nat) (distance : Int) : Address :=
  address + BitVec.ofNat 64 length + BitVec.ofInt 64 distance

/-- The comment that says where a branch goes, with the symbol that this falls into. -/
def target (p : Presentation) (target : Address) : String :=
  let place := match p.symbols.find? target with
    | some s =>
      let offset := if target = s.address then "" else
        "+" ++ Text.hexMarked (target - s.address).toNat
      " <" ++ p.symbol s.name ++ offset ++ ">"
    | none => ""
  p.theme.wrap .comment
    ("\t# " ++ p.theme.wrap .address (Text.hex target.toNat) ++ place)

/-- A decode result, with the target of a branch. -/
def decoded (p : Presentation) (address : Address) : Except DecodeError Instruction → String
  | .ok i =>
    let comment := if i.flags.isRelative then
        match i.imm with
        | some distance => p.target (branchTarget address i.length distance.signed)
        | none => ""
      else ""
    i.line p.theme ++ comment
  | .error e => e.line p.theme

/-- The start of a line: the address, filled with spaces to a width that depends on where the item
is. -/
def margin (item address : Address) : String :=
  Text.padLeft (if 0x1000 ≤ item.toNat then 8 else 4) ' ' (Text.hex address.toNat) ++ ":\t"

/-- Bytes as they are shown in a line, each with a space after it. -/
def rawBytes (bytes : List Byte) : String :=
  String.join (bytes.map fun b => Text.hexByte b ++ " ")

/-- The lines that show the bytes of an item after those of its first line. -/
def moreBytes (item address : Address) (bytes : List Byte) : String :=
  if bytes = [] then ""
  else
    margin item address ++ rawBytes (bytes.take bytesPerLine) ++ "\n" ++
      moreBytes item (address + BitVec.ofNat 64 bytesPerLine) (bytes.drop bytesPerLine)
termination_by bytes.length
decreasing_by
  rename_i hne
  have hlen : 0 < bytes.length := List.length_pos_iff.mpr hne
  simp only [List.length_drop, bytesPerLine]
  omega

/-- The lines of an item without its label. -/
def body (p : Presentation) (showRaw : Bool) (address : Address) : ItemBody → String
  | .elided _ => "\t...\n"
  | .decoded bytes result =>
    let text := p.decoded address result
    if showRaw then
      let front := bytes.take bytesPerLine
      margin address address ++ rawBytes front ++
        Text.spaces ((bytesPerLine - front.length) * 3) ++ "\t" ++ text ++ "\n" ++
        moreBytes address (address + BitVec.ofNat 64 bytesPerLine) (bytes.drop bytesPerLine)
    else
      margin address address ++ text ++ "\n"

/-- All lines of an item. -/
def item (p : Presentation) (mode : Mode) (showRaw : Bool) (item : Item) : String :=
  let heading := match item.label with
    | some label => p.label mode item.address label
    | none => ""
  heading ++ p.body showRaw item.address item.body

end Presentation

end LengthDisasm
