import LengthDisasm.Text.Digits

/-!
# Paths in symbol names

Compilers write a path of names into one symbol name: `_ZN`, each name after its length, and `E`.
Names can hold escapes between dollar signs, and two dots for a path separator inside of a name.

## Main definitions

* `Mangled.counted?` — a text after its length
* `Mangled.path?` — the names of a path, and the text after it
* `Mangled.unescape` — a name without escapes
* `Mangled.readPath?` — the readable form of a symbol name that is a path
-/

namespace LengthDisasm.Mangled

/-- A decimal number at the start of a text, and what follows it. -/
def decimal? (text : List Char) : Option (Nat × List Char) := do
  let digits := text.takeWhile Char.isDigit
  let value ← Text.ofDigits? 10 UInt64.size digits
  return (value, text.dropWhile Char.isDigit)

/-- A text that stands after its length, and what follows it. -/
def counted? (text : List Char) : Option (List Char × List Char) := do
  let (length, rest) ← decimal? text
  if length ≤ rest.length then some (rest.take length, rest.drop length) else none

/-- The names of a path up to its closing `E`, and the text after it. Each name takes at least one
character, so that `fuel` bounds their number. -/
def namesWithin? : (fuel : Nat) → List Char → Option (List (List Char) × List Char)
  | 0, _ => none
  | fuel + 1, text =>
    match text with
    | 'E' :: rest => some ([], rest)
    | text => do
      let (name, rest) ← counted? text
      let (names, rest) ← namesWithin? fuel rest
      return (name :: names, rest)

/-- The names of a path up to its closing `E`, and the text after it. -/
def path? (text : List Char) : Option (List (List Char) × List Char) :=
  namesWithin? (text.length + 1) text

/-- The character that an escape stands for, without its dollar signs. -/
def escaped? (escape : List Char) : Option (List Char) :=
  match String.ofList escape with
  | "SP" => some ['@']
  | "BP" => some ['*']
  | "RF" => some ['&']
  | "LT" => some ['<']
  | "GT" => some ['>']
  | "LP" => some ['(']
  | "RP" => some [')']
  | "C" => some [',']
  | _ =>
    match escape with
    | 'u' :: digits => do
      if digits.any Char.isUpper then none
      let code ← Text.ofDigits? 16 0x110000 digits
      if code.isValidChar && 0x20 ≤ code && !(0x7f ≤ code && code ≤ 0x9f) then
        some [Char.ofNat code]
      else none
    | _ => none

/-- A name without escapes; what follows an escape that means nothing is left as it is. Each round
takes at least one character, so that `fuel` bounds their number. -/
def unescapeWithin : (fuel : Nat) → List Char → List Char
  | 0, text => text
  | fuel + 1, text =>
    match text with
    | [] => []
    | '.' :: '.' :: rest => ':' :: ':' :: unescapeWithin fuel rest
    | '$' :: rest =>
      match rest.dropWhile (· != '$') with
      | _ :: after =>
        match escaped? (rest.takeWhile (· != '$')) with
        | some cs => cs ++ unescapeWithin fuel after
        | none => text
      | [] => text
    | c :: rest => c :: unescapeWithin fuel rest

/-- A name without escapes. An underscore before a leading escape only keeps the name
well-formed. -/
def unescape (name : List Char) : List Char :=
  let name := match name with
    | '_' :: '$' :: rest => '$' :: rest
    | name => name
  unescapeWithin name.length name

/-- The texts with a path separator between them. -/
def joinPath (names : List (List Char)) : List Char := [':', ':'].intercalate names

/-- The character can stand in the part of a name that tools add. -/
def isSuffixChar (c : Char) : Bool := decide (0x21 ≤ c.toNat ∧ c.toNat ≤ 0x7e)

/-- The name without the mark that link-time optimization adds. -/
def dropLinkMark (name : List Char) : List Char :=
  let mark := ".llvm.".toList
  let starts := (List.range name.length).find? fun n => mark.isPrefixOf (name.drop n)
  match starts with
  | some n =>
    let hash := name.drop (n + mark.length)
    if hash.all fun c => c.isDigit || decide ('A' ≤ c ∧ c ≤ 'F') || c == '@' then name.take n
    else name
  | none => name

/-- The text after the opening of a path. -/
def afterOpening? (name : List Char) : Option (List Char) :=
  match name with
  | '_' :: 'Z' :: 'N' :: rest => some rest
  | 'Z' :: 'N' :: rest => some rest
  | '_' :: '_' :: 'Z' :: 'N' :: rest => some rest
  | _ => none

/-- The readable form of a symbol name that is a path. What follows the path has to start with a dot
and is kept. -/
def readPath? (name : String) : Option String := do
  let rest ← afterOpening? (dropLinkMark name.toList)
  if rest.any (fun c => decide (0x80 ≤ c.toNat)) then none
  let (names, suffix) ← path? rest
  match suffix with
  | [] => return String.ofList (joinPath (names.map unescape))
  | '.' :: _ =>
    if suffix.all isSuffixChar then
      return String.ofList (joinPath (names.map unescape) ++ suffix)
    else none
  | _ => none

end LengthDisasm.Mangled
