import LengthDisasm.Demangle.Path

/-!
# Function signatures in symbol names

Compilers also write the types of the parameters of a function after its name: `_Z`, a name or a
path, and a letter or a longer code for each type. Names, paths, built-in types, classes that are
named in full, pointers, references and `const` are read; names that use anything else are left
alone.

## Main definitions

* `Mangled.name?` — a name or a path
* `Mangled.type?` — a type
* `Mangled.readSignature?` — the readable form of a symbol name with a signature
-/

namespace LengthDisasm.Mangled

/-- The built-in type of a letter. -/
def builtin? : Char → Option String
  | 'v' => some "void"
  | 'w' => some "wchar_t"
  | 'b' => some "bool"
  | 'c' => some "char"
  | 'a' => some "signed char"
  | 'h' => some "unsigned char"
  | 's' => some "short"
  | 't' => some "unsigned short"
  | 'i' => some "int"
  | 'j' => some "unsigned int"
  | 'l' => some "long"
  | 'm' => some "unsigned long"
  | 'x' => some "long long"
  | 'y' => some "unsigned long long"
  | 'n' => some "__int128"
  | 'o' => some "unsigned __int128"
  | 'f' => some "float"
  | 'd' => some "double"
  | 'e' => some "long double"
  | 'g' => some "__float128"
  | 'z' => some "..."
  | _ => none

/-- The character can stand in a name. -/
def isNameChar (c : Char) : Bool := c.isAlphanum || c == '_' || c == '$' || c == '.'

/-- A single name after its length. -/
def simpleName? (text : List Char) : Option (List Char × List Char) := do
  let (name, rest) ← counted? text
  if name.isEmpty || !name.all isNameChar then none else some (name, rest)

/-- A name or a path, and what follows it. -/
def name? (text : List Char) : Option (List Char × List Char) :=
  match text with
  | 'N' :: rest => do
    let (names, rest) ← path? rest
    if names.isEmpty || !names.all (fun name => !name.isEmpty && name.all isNameChar) then none
    else some (joinPath names, rest)
  | 'S' :: 't' :: rest => do
    let (name, rest) ← simpleName? rest
    return ("std::".toList ++ name, rest)
  | text => simpleName? text

/-- A type, and what follows it. Each layer of a type takes a character, so that `fuel` bounds
them. -/
def typeWithin? : (fuel : Nat) → List Char → Option (List Char × List Char)
  | 0, _ => none
  | fuel + 1, text =>
    match text with
    | 'P' :: rest => do
      let (inner, rest) ← typeWithin? fuel rest
      return (inner ++ ['*'], rest)
    | 'R' :: rest => do
      let (inner, rest) ← typeWithin? fuel rest
      return (inner ++ ['&'], rest)
    | 'O' :: rest => do
      let (inner, rest) ← typeWithin? fuel rest
      return (inner ++ ['&', '&'], rest)
    | 'K' :: rest => do
      let (inner, rest) ← typeWithin? fuel rest
      return (inner ++ " const".toList, rest)
    | c :: rest =>
      match builtin? c with
      | some name => some (name.toList, rest)
      | none => name? text
    | [] => none

/-- All types to the end of a text. -/
def typesWithin? : (fuel : Nat) → List Char → Option (List (List Char))
  | _, [] => some []
  | 0, _ => none
  | fuel + 1, text => do
    let (type, rest) ← typeWithin? (text.length + 1) text
    let types ← typesWithin? fuel rest
    return type :: types

/-- The readable form of the parameters of a function: none if the only type is `void`, and nothing
at all if there are no types. -/
def parameters? (text : List Char) : Option (List Char) :=
  if text.isEmpty then some []
  else if text = ['v'] then some ['(', ')']
  else do
    let types ← typesWithin? text.length text
    return ['('] ++ [',', ' '].intercalate types ++ [')']

/-- The text after the opening of a signature. -/
def afterSignatureOpening? (name : List Char) : Option (List Char) :=
  match name with
  | '_' :: 'Z' :: rest => some rest
  | '_' :: '_' :: 'Z' :: rest => some rest
  | _ => none

/-- The readable form of a symbol name with a signature. -/
def readSignature? (name : String) : Option String := do
  let rest ← afterSignatureOpening? name.toList
  let (function, rest) ← name? rest
  let parameters ← parameters? rest
  return String.ofList (function ++ parameters)

end LengthDisasm.Mangled
