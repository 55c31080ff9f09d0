import LengthDisasm.Demangle.Signature

/-!
# Readable symbol names

## Main definitions

* `DemangleStyle` — which kinds of mangled names are made readable
* `DemangleStyle.ofName?` — the style of a name on the command line
* `DemangleStyle.spell` — a symbol name in its readable form
-/

namespace LengthDisasm

/-- Which mangled names are made readable. -/
inductive DemangleStyle where
  /-- None. -/
  | off
  /-- Paths, and other names with a signature. -/
  | auto
  /-- Names with a signature. -/
  | signatures
  /-- Paths. -/
  | paths
deriving DecidableEq, Repr

namespace DemangleStyle

/-- The style that a name stands for. -/
def ofName? : String → Option DemangleStyle
  | "none" => some off
  | "auto" => some auto
  | "gnu-v3" => some signatures
  | "rust" => some paths
  | _ => none

/-- A symbol name in its readable form, or as it is if it has none. -/
def spell (style : DemangleStyle) (name : String) : String :=
  let readable := match style with
    | off => none
    | auto => (Mangled.readPath? name).or (Mangled.readSignature? name)
    | signatures => Mangled.readSignature? name
    | paths => Mangled.readPath? name
  readable.getD name

end DemangleStyle

end LengthDisasm
