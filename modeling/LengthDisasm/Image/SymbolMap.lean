import LengthDisasm.Image.Elf
import LengthDisasm.Symbols

/-!
# Symbols of an ELF file

Of the entries of a symbol table those that name a place in code or data are kept, and of several at
one address the best one.

## Main definitions

* `SymbolEntry.isPlace` — the entry defines a place in code or data
* `Candidate` — an entry with what decides between entries of one address
* `Elf.symbolMap` — the symbols of a file, one for each address
-/

namespace LengthDisasm

namespace SymbolEntry

/-- Indices from here on do not name a section. -/
def reservedSections : Nat := 0xff00

/-- The type of the entry is a function or an object. -/
def isTyped (e : SymbolEntry) : Bool := e.type == 1 || e.type == 2

/-- The entry belongs to a section, and is a function, an object, or without a type but with a
size. -/
def isPlace (e : SymbolEntry) : Bool :=
  e.sectionIndex != 0 && decide (e.sectionIndex < reservedSections) &&
    (e.isTyped || (e.type == 0 && e.size != 0))

/-- How far the entry can be seen: 0 from everywhere, 1 from other files of the program, 2 from its
own file only, 3 if its binding does not say. -/
def scope (e : SymbolEntry) : Nat :=
  if e.binding = 0 then 2
  else if e.binding = 1 ∨ e.binding = 2 then (if e.visibility = 2 then 1 else 0)
  else 3

/-- How an entry ranks among those of its address, the best first. A missing type counts as much as
being seen from the own file only, so that a local function and an untyped global entry rank the
same. -/
def rank (e : SymbolEntry) : Nat := (if e.isTyped then 0 else 2) + e.scope

end SymbolEntry

/-- A symbol and what decides between symbols of one address. -/
structure Candidate where
  symbol : Symbol
  rank : Nat
  /-- The place in the symbol table. -/
  index : Nat
deriving DecidableEq, Repr

namespace Candidate

/-- The candidates by address; at one address those of the better rank first, and of one rank later
entries before earlier ones. -/
def le (c d : Candidate) : Bool :=
  if c.symbol.address ≠ d.symbol.address then decide (c.symbol.address < d.symbol.address)
  else if c.rank ≠ d.rank then decide (c.rank < d.rank)
  else decide (d.index ≤ c.index)

/-- The candidate of a table entry, if the entry names a place. -/
def ofEntry? (index : Nat) (e : SymbolEntry) (name : Option String) : Option Candidate := do
  let name ← name
  if e.isPlace && !name.isEmpty then
    return {
      symbol := ⟨BitVec.ofNat 64 e.value, name⟩
      rank := e.rank
      index := index }
  else none

/-- The candidates of the entries of a table, counted from `index` on. -/
def ofEntries (index : Nat) : List (SymbolEntry × Option String) → List Candidate
  | [] => []
  | (e, name) :: entries =>
    let others := ofEntries (index + 1) entries
    match ofEntry? index e name with
    | some c => c :: others
    | none => others

/-- The first symbol of each run of one address. A run at the address `previous` is left out. -/
def firstOfRuns (previous : Address) : List Candidate → List Symbol
  | [] => []
  | c :: cs =>
    if c.symbol.address = previous then firstOfRuns previous cs
    else c.symbol :: firstOfRuns c.symbol.address cs

end Candidate

/-- The symbols of a file by ascending address, one for each address. The highest address of all
does not count unless there are symbols below it. -/
def Elf.symbolMap (e : Elf) : Array Symbol :=
  let candidates := (Candidate.ofEntries 0 e.symbols).mergeSort Candidate.le
  (Candidate.firstOfRuns (BitVec.allOnes 64) candidates).toArray

end LengthDisasm
