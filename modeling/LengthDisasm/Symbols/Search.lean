import LengthDisasm.Symbols

/-!
# Binary search for symbols

Large tables are searched by halving. The search tells where an address stands, and the questions of
a listing are answered from there.

## Main definitions

* `SearchResult` — a symbol of that address, or the place where one would stand
* `SymbolSearch.search` — find an address in a sorted array
* `SearchResult.find?`, `SearchResult.after?` — the answers that a search result leads to
-/

namespace LengthDisasm

/-- Where an address stands in a sorted array of symbols. -/
inductive SearchResult where
  /-- The symbol at this index has the address. -/
  | found (index : Nat)
  /-- No symbol has the address; those before this index are below it and the others above. -/
  | vacant (index : Nat)
deriving DecidableEq, Repr

namespace SearchResult

/-- The symbol at or below the address. -/
def find? (symbols : Array Symbol) : SearchResult → Option Symbol
  | found index => symbols[index]?
  | vacant 0 => none
  | vacant (index + 1) => symbols[index]?

/-- The first symbol above the address `a`: symbols that share the address found are passed over. -/
def after? (symbols : Array Symbol) (a : Address) : SearchResult → Option Symbol
  | found index => (symbols.toList.drop index).find? fun s => decide (s.address ≠ a)
  | vacant index => symbols[index]?

end SearchResult

namespace SymbolSearch

/-- Search the symbols from `lo` to before `hi`. -/
def searchIn (symbols : Array Symbol) (a : Address) (lo hi : Nat) : SearchResult :=
  if lo < hi then
    let mid := (lo + hi) / 2
    match symbols[mid]? with
    | none => .vacant lo
    | some s =>
      if s.address = a then .found mid
      else if s.address < a then searchIn symbols a (mid + 1) hi
      else searchIn symbols a lo mid
  else .vacant lo
termination_by hi - lo

/-- Search all symbols of a sorted array. -/
def search (symbols : Array Symbol) (a : Address) : SearchResult :=
  searchIn symbols a 0 symbols.size

/-- A sorted array as a listing uses it. -/
def lookup (symbols : Array Symbol) : SymbolLookup where
  find? a := (search symbols a).find? symbols
  after? a := (search symbols a).after? symbols a

end SymbolSearch

end LengthDisasm
