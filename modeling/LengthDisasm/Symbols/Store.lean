import LengthDisasm.Symbols.Search

/-!
# Symbol stores

A store takes symbols in any order and puts them in the order of their addresses when it is asked
about one. It remembers that it did, so that it sorts again only if another symbol came in between.

## Main definitions

* `SymbolStore` — the symbols as they stand, and whether they stand in order
* `SymbolStore.push` — add a symbol
* `SymbolStore.settle` — put the symbols in order
* `SymbolStore.find?`, `SymbolStore.after?` — answers, with the store after the question
* `SymbolStore.run` — a store with a history of pushes and questions
-/

namespace LengthDisasm

/-- Symbols that are put in order when one is asked for. -/
structure SymbolStore where
  /-- The symbols as they stand. -/
  symbols : List Symbol
  /-- The symbols were put in order, and none came after that. -/
  isSettled : Bool
deriving DecidableEq, Repr

namespace SymbolStore

/-- The store without symbols. -/
def empty : SymbolStore := ⟨[], false⟩

/-- Add a symbol. -/
def push (t : SymbolStore) (s : Symbol) : SymbolStore := ⟨t.symbols ++ [s], false⟩

/-- The store with the symbols of a list. -/
def ofList (symbols : List Symbol) : SymbolStore := symbols.foldl push empty

/-- The number of symbols. -/
def size (t : SymbolStore) : Nat := t.symbols.length

/-- The least address of a symbol. -/
def firstAddress? (t : SymbolStore) : Option Address := (SymbolTable.mk t.symbols).firstAddress?

/-- Put the symbols in the order of their addresses, unless that was done. -/
def settle (t : SymbolStore) : SymbolStore :=
  if t.isSettled then t else ⟨(SymbolTable.mk t.symbols).sorted, true⟩

/-- A symbol at or below an address, found by binary search, and the store after the question. -/
def find? (t : SymbolStore) (a : Address) : Option Symbol × SymbolStore :=
  let t := t.settle
  ((SymbolSearch.search t.symbols.toArray a).find? t.symbols.toArray, t)

/-- The first symbol above an address, and the store after the question. -/
def after? (t : SymbolStore) (a : Address) : Option Symbol × SymbolStore :=
  let t := t.settle
  (SymbolIndex.after? t.symbols a, t)

/-! ### Histories -/

/-- What is done with a store. -/
inductive Action where
  | push (s : Symbol)
  | find (a : Address)
  | after (a : Address)
deriving DecidableEq, Repr

/-- The symbol that an action pushes. -/
def Action.symbol? : Action → Option Symbol
  | push s => some s
  | find _ => none
  | after _ => none

/-- The store after an action. -/
def act (t : SymbolStore) : Action → SymbolStore
  | .push s => t.push s
  | .find a => (t.find? a).2
  | .after a => (t.after? a).2

/-- The store after a history of actions. -/
def run (history : List Action) : SymbolStore := history.foldl act empty

/-- The symbols that a history pushed, in order. -/
def pushed (history : List Action) : List Symbol := history.filterMap Action.symbol?

end SymbolStore

end LengthDisasm
