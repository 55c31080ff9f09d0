import LengthDisasm.Proofs.SymbolOrder

/-!
# Searches for the next symbol agree

There are two ways to the first symbol above an address. Binary search finds the address or the
place where it would stand, and symbols that share the address are passed over from there. Or the
symbols are divided at the first one above the address. In a sorted array both lead to the same
symbol, whichever of the symbols that share the address the search finds.

## Main definitions

* `SymbolIndex.DividesAt` — a place between the symbols that are above an address and the others

## Main results

* `SymbolIndex.after?_eq_find?` — a scan finds the first symbol above an address
* `SymbolIndex.DividesAt.getElem?_eq`, `SymbolIndex.exists_dividesAt` — it stands at the place that
  divides the symbols
* `symbol_searches_agree` — both ways lead to the first symbol above an address
-/

namespace LengthDisasm

namespace SymbolIndex

variable {index : SymbolIndex} {a : Address}

/-- The symbols before a place are not above `a`, and those from the place on are. -/
structure DividesAt (index : SymbolIndex) (a : Address) (place : Nat) : Prop where
  le_length : place ≤ index.length
  before : ∀ s ∈ index.take place, s.address ≤ a
  behind : ∀ s ∈ index.drop place, a < s.address

theorem after?_eq_find? (index : SymbolIndex) (a : Address) :
    index.after? a = List.find? (fun s => decide (a < s.address)) index := by
  rw [after?_eq_head?_filter, List.head?_filter]

/-- The first symbol above an address stands at the place that divides the symbols. -/
theorem DividesAt.getElem?_eq {place : Nat} (h : index.DividesAt a place) :
    index[place]? = List.find? (fun s => decide (a < s.address)) index := by
  have hbefore : (index.take place).find? (fun s => decide (a < s.address)) = none := by
    rw [List.find?_eq_none]
    intro s hs
    simpa using h.before s hs
  have hbehind : (index.drop place).find? (fun s => decide (a < s.address)) =
      (index.drop place).head? := by
    rw [← List.head?_filter, List.filter_eq_self.mpr fun s hs => decide_eq_true (h.behind s hs)]
  calc index[place]?
    _ = (index.drop place).head? := List.head?_drop.symm
    _ = ((index.take place).find? fun s => decide (a < s.address)).or
          ((index.drop place).find? fun s => decide (a < s.address)) := by
        rw [hbefore, hbehind, Option.none_or]
    _ = List.find? (fun s => decide (a < s.address)) index := by
        rw [← List.find?_append, List.take_append_drop]

/-- Sorted symbols are divided at the first one above the address. -/
theorem exists_dividesAt (hsorted : index.Pairwise fun s t => s.address ≤ t.address) (a : Address) :
    ∃ place, index.DividesAt a place := by
  induction index with
  | nil => exact ⟨0, Nat.le_refl 0, nofun, nofun⟩
  | cons s index ih =>
    rw [List.pairwise_cons] at hsorted
    by_cases habove : a < s.address
    · -- all symbols are above the address
      refine ⟨0, Nat.zero_le _, nofun, fun t ht => ?_⟩
      rcases List.mem_cons.mp ht with rfl | ht
      · exact habove
      · have hle := hsorted.1 t ht
        bv_omega
    · obtain ⟨place, hplace⟩ := ih hsorted.2
      refine ⟨place + 1, Nat.succ_le_succ hplace.le_length, fun t ht => ?_, hplace.behind⟩
      rcases List.mem_cons.mp ht with rfl | ht
      · exact BitVec.not_lt.mp habove
      · exact hplace.before t ht

end SymbolIndex

/-- In every sorted array of symbols both ways of searching lead to the first symbol above the
address, or to none if there is none: binary search with any result that it may have, and the place
that divides the symbols. There is such a result and such a place. -/
theorem symbol_searches_agree (symbols : Array Symbol) (a : Address)
    (hsorted : symbols.toList.Pairwise fun s t => s.address ≤ t.address) :
    (∀ r : SearchResult, r.Locates symbols a →
      r.after? symbols a = symbols.toList.find? fun s => decide (a < s.address)) ∧
    (SymbolSearch.search symbols a).Locates symbols a ∧
    (SymbolSearch.lookup symbols).after? a =
      symbols.toList.find? (fun s => decide (a < s.address)) ∧
    (∀ place, SymbolIndex.DividesAt symbols.toList a place →
      symbols[place]? = symbols.toList.find? fun s => decide (a < s.address)) ∧
    (∃ place, SymbolIndex.DividesAt symbols.toList a place) ∧
    SymbolIndex.after? symbols.toList a =
      symbols.toList.find? (fun s => decide (a < s.address)) := by
  have hscan := SymbolIndex.after?_eq_find? symbols.toList a
  refine ⟨fun r hr => ?_, SymbolSearch.locates_search hsorted a, ?_, fun place hplace => ?_,
    SymbolIndex.exists_dividesAt hsorted a, hscan⟩
  · rw [SymbolSearch.after?_of_locates hsorted hr, hscan]
  · rw [SymbolSearch.after?_lookup hsorted, hscan]
  · rw [← hplace.getElem?_eq, Array.getElem?_toList]

/-- Symbols of which two share an address. -/
def twinSymbols : Array Symbol :=
  #[⟨0x1000, "start"⟩, ⟨0x2000, "main"⟩, ⟨0x2000, "alias"⟩, ⟨0x3000, "end"⟩]

/-- Binary search may find either of the symbols that share an address. -/
theorem symbol_searches_agree_shared :
    (twinSymbols.toList.Pairwise fun s t => s.address ≤ t.address) ∧
      (SearchResult.found 1).Locates twinSymbols 0x2000 ∧
      (SearchResult.found 1).after? twinSymbols 0x2000 = some ⟨0x3000, "end"⟩ ∧
      (SearchResult.found 2).Locates twinSymbols 0x2000 ∧
      (SearchResult.found 2).after? twinSymbols 0x2000 = some ⟨0x3000, "end"⟩ ∧
      SymbolIndex.DividesAt twinSymbols.toList 0x2000 3 := by
  have hsorted : twinSymbols.toList.Pairwise fun s t => s.address ≤ t.address := by decide
  have hfound (i : Nat) (name : String) (h : twinSymbols[i]? = some ⟨0x2000, name⟩) :
      (SearchResult.found i).Locates twinSymbols 0x2000 := ⟨_, h, rfl⟩
  obtain ⟨hany, -⟩ := symbol_searches_agree twinSymbols 0x2000 hsorted
  exact ⟨hsorted, hfound 1 "main" rfl, hany _ (hfound 1 "main" rfl), hfound 2 "alias" rfl,
    hany _ (hfound 2 "alias" rfl), by decide, by decide, by decide⟩

end LengthDisasm
