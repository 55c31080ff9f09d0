/-!
# Styles

The pieces of a printed line have styles, and a theme says how a styled piece is marked. Pieces
nest: a comment can contain an address and a symbol.

## Main definitions

* `Style` — the kinds of pieces
* `Theme` — how a piece of each style is wrapped
* `Theme.plain`, `Theme.tagged`, `Theme.colored` — no marks, style names in brackets, terminal
  colours
-/

namespace LengthDisasm

/-- The kind of a printed piece. -/
inductive Style where
  | address
  | fieldName
  | opcode
  | field
  | immediate
  | displacement
  | flags
  | symbol
  | error
  | comment
deriving DecidableEq, Repr

namespace Style

/-- The name of a style. -/
def name : Style → String
  | address => "Address"
  | fieldName => "FieldName"
  | opcode => "Opcode"
  | field => "Field"
  | immediate => "Immediate"
  | displacement => "Displacement"
  | flags => "Flags"
  | symbol => "Symbol"
  | error => "Error"
  | comment => "Comment"

/-- The terminal's number for the foreground colour of a style, if it has one. -/
def color? : Style → Option Nat
  | opcode => some 33
  | field => some 34
  | immediate => some 35
  | displacement => some 36
  | address => some 35
  | symbol => some 32
  | error => some 31
  | _ => none

end Style

/-- How the pieces of a line are marked: what stands before and after a piece of each style. -/
structure Theme where
  before : Style → String
  after : Style → String

namespace Theme

/-- Mark a piece. -/
def wrap (theme : Theme) (style : Style) (piece : String) : String :=
  theme.before style ++ piece ++ theme.after style

/-- No marks. -/
def plain : Theme := ⟨fun _ => "", fun _ => ""⟩

/-- Each piece in brackets, after the name of its style. -/
def tagged : Theme := ⟨fun style => "[" ++ style.name ++ ":", fun _ => "]"⟩

/-- Terminal colours; the default foreground colour is set again after each coloured piece. -/
def colored : Theme where
  before style := match style.color? with
    | some n => "\x1b[" ++ toString n ++ "m"
    | none => ""
  after style := match style.color? with
    | some _ => "\x1b[39m"
    | none => ""

end Theme

end LengthDisasm
