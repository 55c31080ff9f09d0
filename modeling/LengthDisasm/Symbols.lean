import LengthDisasm.Byte

/-!
# Symbols

A symbol table maps addresses to names. Listings ask it for the symbol that an address falls into
and for the next symbol above an address.

## Main definitions

* `Symbol`, `SymbolTable` — named addresses, kept in the order in which they were pushed
* `SymbolTable.sorted` — by address, equal addresses in the order of pushing
* `SymbolTable.find?` — the symbol at or below an address
* `SymbolTable.after?` — the first symbol above an address
* `SymbolLookup` — the two questions that a listing asks
-/

namespace LengthDisasm

/-- A named address. -/
structure Symbol where
  address : Address
  name : String
deriving DecidableEq, Repr

/-- What a listing asks about symbols. -/
structure SymbolLookup where
  /-- A symbol with the greatest address that is not above the one given. -/
  find? : Address → Option Symbol
  /-- The first symbol whose address is above the one given. -/
  after? : Address → Option Symbol

/-- There are no symbols. -/
def SymbolLookup.empty : SymbolLookup := ⟨fun _ => none, fun _ => none⟩

/-- Symbols in ascending order of address. -/
abbrev SymbolIndex := List Symbol

namespace SymbolIndex

/-- The last symbol whose address is not above `a`. -/
def find? (index : SymbolIndex) (a : Address) : Option Symbol :=
  (index.takeWhile fun s => decide (s.address ≤ a)).getLast?

/-- The first symbol whose address is above `a`. -/
def after? (index : SymbolIndex) (a : Address) : Option Symbol :=
  (index.dropWhile fun s => decide (s.address ≤ a)).head?

/-- The index as a listing uses it. -/
def lookup (index : SymbolIndex) : SymbolLookup := ⟨index.find?, index.after?⟩

end SymbolIndex

/-- A table of symbols, in the order in which they were pushed. -/
structure SymbolTable where
  pushed : List Symbol
deriving DecidableEq, Repr

namespace SymbolTable

/-- The table without symbols. -/
def empty : SymbolTable := ⟨[]⟩

/-- Add a symbol. -/
def push (t : SymbolTable) (s : Symbol) : SymbolTable := ⟨t.pushed ++ [s]⟩

/-- The number of symbols. -/
def size (t : SymbolTable) : Nat := t.pushed.length

/-- The least address of a symbol. -/
def firstAddress? (t : SymbolTable) : Option Address :=
  t.pushed.foldl
    (fun least s => match least with
      | none => some s.address
      | some a => some (if s.address < a then s.address else a))
    none

/-- The symbols by ascending address; symbols of one address stay in the order of pushing. -/
def sorted (t : SymbolTable) : SymbolIndex :=
  t.pushed.mergeSort fun s s' => decide (s.address ≤ s'.address)

/-- The last symbol at or below an address. -/
def find? (t : SymbolTable) (a : Address) : Option Symbol := t.sorted.find? a

/-- The first symbol above an address. -/
def after? (t : SymbolTable) (a : Address) : Option Symbol := t.sorted.after? a

end SymbolTable

end LengthDisasm
