import Mathlib.Data.List.Induction
import LengthDisasm.Proofs.SymbolOrder
import LengthDisasm.Symbols.Store

/-!
# Symbol stores with a history

A store sorts its symbols when it is asked, and symbols that come later are put behind those that
are sorted already. No trace of this can be seen. Sorting keeps the symbols of each address in their
order, so the symbols of each address always stand in the order of pushing, and a list that is
sorted by address is told by them. Whenever a store is settled, it therefore holds the symbols as a
table of all that were pushed holds them.

## Main definitions

* `Symbol.sharing` — the symbols of one address
* `FindsBelow`, `FindsFirstAbove`, `IsLeastAddress` — the right answers to the questions about
  symbols
* `SymbolStore.Keeps` — a store holds these symbols, those of each address in this order

## Main results

* `SymbolTable.sharing_sorted` — sorting keeps the order of symbols that share an address
* `SymbolStore.keeps_run` — a store holds what its history pushed
* `SymbolStore.Keeps.symbols_settle` — a settled store is a sorted table
* `symbol_store_answers` — all questions are answered from the symbols pushed
-/

namespace LengthDisasm

/-! ### Symbols that share an address -/

/-- The symbols of one address, in their order. -/
def Symbol.sharing (a : Address) (symbols : List Symbol) : List Symbol :=
  symbols.filter fun s => decide (s.address = a)

open LengthDisasm.Symbol (sharing)

theorem mem_sharing {a : Address} {symbols : List Symbol} {s : Symbol} :
    s ∈ sharing a symbols ↔ s ∈ symbols ∧ s.address = a := by
  rw [sharing, List.mem_filter, decide_eq_true_iff]

theorem sharing_append (a : Address) (symbols more : List Symbol) :
    sharing a (symbols ++ more) = sharing a symbols ++ sharing a more :=
  List.filter_append ..

/-- The first symbol of an address is found from the front. -/
theorem head?_sharing (a : Address) (symbols : List Symbol) :
    (sharing a symbols).head? = symbols.find? fun s => decide (s.address = a) :=
  List.head?_filter

theorem mem_of_sharing_eq {symbols symbols' : List Symbol}
    (h : ∀ a, sharing a symbols = sharing a symbols')
    {s : Symbol} (hs : s ∈ symbols) : s ∈ symbols' := by
  have hmem : s ∈ sharing s.address symbols := mem_sharing.mpr ⟨hs, rfl⟩
  rw [h] at hmem
  exact (mem_sharing.mp hmem).1

/-- Lists with the same symbols at each address have the same symbols, and each as often. -/
theorem perm_of_sharing_eq {symbols symbols' : List Symbol}
    (h : ∀ a, sharing a symbols = sharing a symbols') :
    symbols.Perm symbols' := by
  rw [List.perm_iff_count]
  intro s
  -- a symbol occurs only among those of its address
  have hcount (l : List Symbol) : (sharing s.address l).count s = l.count s :=
    List.count_filter (decide_eq_true rfl)
  rw [← hcount, h, hcount]

/-- A list that is sorted by address is told by the symbols of each address. -/
theorem SymbolIndex.eq_of_sharing_eq {index index' : SymbolIndex}
    (hsorted : index.Pairwise fun s t => s.address ≤ t.address)
    (hsorted' : index'.Pairwise fun s t => s.address ≤ t.address)
    (h : ∀ a, sharing a index = sharing a index') : index = index' := by
  induction index generalizing index' with
  | nil =>
    cases index' with
    | nil => rfl
    | cons t index' =>
      exact absurd (mem_of_sharing_eq (fun a => (h a).symm) List.mem_cons_self) List.not_mem_nil
  | cons s index ih =>
    cases index' with
    | nil => exact absurd (mem_of_sharing_eq h List.mem_cons_self) List.not_mem_nil
    | cons t index' =>
      rw [List.pairwise_cons] at hsorted hsorted'
      -- both lists start with their least address, and it is the same
      have hle : s.address ≤ t.address := by
        rcases List.mem_cons.mp
          (mem_of_sharing_eq (fun a => (h a).symm) List.mem_cons_self) with rfl | hmem
        · exact BitVec.le_refl _
        · exact hsorted.1 t hmem
      have hge : t.address ≤ s.address := by
        rcases List.mem_cons.mp (mem_of_sharing_eq h List.mem_cons_self) with rfl | hmem
        · exact BitVec.le_refl _
        · exact hsorted'.1 s hmem
      have haddress : t.address = s.address := BitVec.le_antisymm hge hle
      -- of the symbols with this address the first ones are the same
      have hfirst := h s.address
      simp only [sharing, List.filter_cons, haddress, decide_true, if_true,
        List.cons.injEq] at hfirst
      obtain ⟨rfl, -⟩ := hfirst
      congr 1
      refine ih hsorted.2 hsorted'.2 fun a => ?_
      have hrest := h a
      simp only [sharing, List.filter_cons] at hrest ⊢
      split at hrest
      · exact (List.cons.inj hrest).2
      · exact hrest

namespace SymbolTable

/-- Sorting keeps the order of symbols that share an address. -/
theorem sharing_sorted (t : SymbolTable) (a : Address) :
    sharing a t.sorted = sharing a t.pushed := by
  have hsame : (sharing a t.pushed).Pairwise fun s s' => decide (s.address ≤ s'.address) =
      true := by
    refine List.pairwise_iff_forall_sublist.mpr fun {s s'} hsub => ?_
    have hs := (mem_sharing.mp (hsub.subset (by simp : s ∈ [s, s']))).2
    have hs' := (mem_sharing.mp (hsub.subset (by simp : s' ∈ [s, s']))).2
    exact decide_eq_true (by rw [hs, hs']; exact BitVec.le_refl a)
  -- symbols that stand in order already stay a part of the sorted list
  have hkept : (sharing a t.pushed).Sublist t.sorted :=
    List.sublist_mergeSort decide_address_le_trans decide_address_le_total hsame List.filter_sublist
  have hsub : (sharing a t.pushed).Sublist (sharing a t.sorted) := by
    have hfilter := hkept.filter fun s => decide (s.address = a)
    simpa only [sharing, List.filter_filter, Bool.and_self] using hfilter
  have hperm : (sharing a t.sorted).Perm (sharing a t.pushed) := (List.mergeSort_perm _ _).filter _
  exact (hsub.eq_of_length hperm.length_eq.symm).symm

end SymbolTable

/-! ### Right answers -/

/-- The answer is a symbol with the greatest address that is not above `a`, or none if all symbols
are above it. -/
structure FindsBelow (symbols : List Symbol) (a : Address) (answer : Option Symbol) : Prop where
  greatest : ∀ s ∈ answer, s ∈ symbols ∧ s.address ≤ a ∧ ∀ u ∈ symbols, u.address ≤ a →
    u.address ≤ s.address
  none_iff : answer = none ↔ ∀ u ∈ symbols, a < u.address

/-- The answer has the least address above `a`, and of the symbols with this address it is the first
one. There is none if no symbol is above `a`. -/
structure FindsFirstAbove (symbols : List Symbol) (a : Address) (answer : Option Symbol) :
    Prop where
  least : ∀ s ∈ answer, s ∈ symbols ∧ a < s.address ∧ ∀ u ∈ symbols, a < u.address →
    s.address ≤ u.address
  first : ∀ s ∈ answer, symbols.find? (fun u => decide (u.address = s.address)) = some s
  none_iff : answer = none ↔ ∀ u ∈ symbols, u.address ≤ a

/-- The answer is the least address of a symbol, or none if there are no symbols. -/
structure IsLeastAddress (symbols : List Symbol) (answer : Option Address) : Prop where
  least : ∀ m ∈ answer, (∃ s ∈ symbols, s.address = m) ∧ ∀ s ∈ symbols, m ≤ s.address
  none_iff : answer = none ↔ symbols = []

theorem FindsBelow.congr {symbols symbols' : List Symbol} {a : Address} {answer : Option Symbol}
    (h : FindsBelow symbols a answer) (hperm : symbols.Perm symbols') :
    FindsBelow symbols' a answer where
  greatest s hs := by
    obtain ⟨hmem, hle, hgreatest⟩ := h.greatest s hs
    exact ⟨hperm.mem_iff.mp hmem, hle, fun u hu => hgreatest u (hperm.mem_iff.mpr hu)⟩
  none_iff := h.none_iff.trans (forall_congr' fun _ => imp_congr_left hperm.mem_iff)

theorem IsLeastAddress.congr {symbols symbols' : List Symbol} {answer : Option Address}
    (h : IsLeastAddress symbols answer) (hperm : symbols.Perm symbols') :
    IsLeastAddress symbols' answer where
  least m hm := by
    obtain ⟨⟨s, hs, haddress⟩, hleast⟩ := h.least m hm
    exact ⟨⟨s, hperm.mem_iff.mp hs, haddress⟩, fun u hu => hleast u (hperm.mem_iff.mpr hu)⟩
  none_iff := by
    rw [h.none_iff]
    exact ⟨fun hnil => List.perm_nil.mp (hnil ▸ hperm.symm),
      fun hnil => List.perm_nil.mp (hnil ▸ hperm)⟩

/-- Wherever a search says that an address stands, it leads to a right answer. If several symbols
have the address it may find any of them. -/
theorem SearchResult.Locates.findsBelow {symbols : Array Symbol} {a : Address} {r : SearchResult}
    (hsorted : symbols.toList.Pairwise fun s t => s.address ≤ t.address) (h : r.Locates symbols a) :
    FindsBelow symbols.toList a (r.find? symbols) := by
  cases r with
  | found i =>
    obtain ⟨s, hs, rfl⟩ := h
    have hmem := SymbolSearch.mem_of_getElem? hs
    rw [find?, hs]
    refine ⟨?_, by simp, fun habove => absurd (habove s hmem) (BitVec.lt_irrefl _)⟩
    rintro u ⟨⟩
    exact ⟨hmem, BitVec.le_refl _, fun _ _ hle => hle⟩
  | vacant i =>
    obtain ⟨hsize, hbelow, habove⟩ := h
    cases i with
    | zero =>
      -- all symbols are above the address
      refine ⟨by rintro s ⟨⟩, fun _ u hu => ?_, fun _ => rfl⟩
      obtain ⟨j, hj⟩ := List.mem_iff_getElem?.mp hu
      exact habove j u (Nat.zero_le j) (by rwa [Array.getElem?_toList] at hj)
    | succ i =>
      -- the symbol before the vacant place is below the address, and those from the place on are
      -- above it
      obtain ⟨s, hs⟩ : ∃ s, symbols[i]? = some s := ⟨_, Array.getElem?_eq_getElem hsize⟩
      have hmem := SymbolSearch.mem_of_getElem? hs
      have hlt := hbelow i s (Nat.lt_succ_self i) hs
      rw [find?, hs]
      refine ⟨?_, by simp,
        fun hall => absurd (hall s hmem) (BitVec.not_lt.mpr (BitVec.le_of_lt hlt))⟩
      rintro u ⟨⟩
      refine ⟨hmem, BitVec.le_of_lt hlt, fun u hu hle => ?_⟩
      obtain ⟨j, hj⟩ := List.mem_iff_getElem?.mp hu
      rw [Array.getElem?_toList] at hj
      have hji : j ≤ i := by
        by_contra hij
        exact absurd (habove j u (by omega) hj) (BitVec.not_lt.mpr hle)
      exact SymbolSearch.address_le_of_getElem? hsorted hji hj hs

namespace SymbolTable

/-- Of the symbols with the least address above `a`, the first one that was pushed is found. -/
theorem findsFirstAbove_after? (t : SymbolTable) (a : Address) :
    FindsFirstAbove t.pushed a (t.after? a) where
  least _ hs := t.findsNext_lookup.after_some hs
  first s hs := by
    have hfind : List.find? (fun u => decide (a < u.address)) t.sorted = some s := by
      rw [← List.head?_filter, ← SymbolIndex.after?_eq_head?_filter]
      exact hs
    obtain ⟨habove, front, back, hsplit, hfront⟩ := List.find?_eq_some_iff_append.mp hfind
    -- the symbols in front of it are not above `a`, so they have other addresses
    have hsorted : List.find? (fun u => decide (u.address = s.address)) t.sorted = some s := by
      refine List.find?_eq_some_iff_append.mpr ⟨decide_eq_true rfl, front, back, hsplit,
        fun u hu => ?_⟩
      have hnot := hfront u hu
      simp only [Bool.not_eq_true', decide_eq_false_iff_not] at hnot ⊢
      intro heq
      exact hnot (heq ▸ of_decide_eq_true habove)
    rwa [← head?_sharing, t.sharing_sorted, head?_sharing] at hsorted
  none_iff := by
    refine ⟨t.findsNext_lookup.after_none, fun hnone => ?_⟩
    by_contra hsome
    obtain ⟨s, hs⟩ := Option.ne_none_iff_exists'.mp hsome
    obtain ⟨hmem, hlt, -⟩ := t.findsNext_lookup.after_some hs
    exact absurd (hnone s hmem) (BitVec.not_le.mpr hlt)

theorem firstAddress?_push (t : SymbolTable) (s : Symbol) :
    (t.push s).firstAddress? = match t.firstAddress? with
      | none => some s.address
      | some a => some (if s.address < a then s.address else a) := by
  rw [firstAddress?, push, List.foldl_append]
  rfl

theorem isLeastAddress_firstAddress? (t : SymbolTable) :
    IsLeastAddress t.pushed t.firstAddress? := by
  obtain ⟨symbols⟩ := t
  induction symbols using List.reverseRecOn with
  | nil => exact ⟨by rintro m ⟨⟩, fun _ => rfl, fun _ => rfl⟩
  | append_singleton symbols s ih =>
    have hpush := firstAddress?_push ⟨symbols⟩ s
    rw [push] at hpush
    rw [hpush]
    cases hfirst : firstAddress? ⟨symbols⟩ with
    | none =>
      obtain rfl : symbols = [] := ih.none_iff.mp hfirst
      refine ⟨?_, by simp, by simp⟩
      rintro m ⟨⟩
      exact ⟨⟨s, by simp, rfl⟩, by simp⟩
    | some a =>
      obtain ⟨⟨u, hu, haddress⟩, hleast⟩ := ih.least a hfirst
      refine ⟨?_, by simp, by simp⟩
      rintro m ⟨⟩
      dsimp only
      split
      · -- the symbol that is pushed is below all others
        rename_i hlt
        refine ⟨⟨s, by simp, rfl⟩, fun v hv => ?_⟩
        rcases List.mem_append.mp hv with hold | hnew
        · exact BitVec.le_trans (BitVec.le_of_lt hlt) (hleast v hold)
        · rw [List.mem_singleton.mp hnew]
          exact BitVec.le_refl _
      · rename_i hge
        refine ⟨⟨u, List.mem_append_left _ hu, haddress⟩, fun v hv => ?_⟩
        rcases List.mem_append.mp hv with hold | hnew
        · exact hleast v hold
        · rw [List.mem_singleton.mp hnew]
          exact BitVec.not_lt.mp hge

end SymbolTable

/-! ### Histories -/

namespace SymbolStore

/-- The store holds these symbols, and those of each address stand in this order. What it remembers
is right: if it was settled, its symbols are sorted. -/
structure Keeps (t : SymbolStore) (symbols : List Symbol) : Prop where
  sharing_eq : ∀ a, sharing a t.symbols = sharing a symbols
  sorted : t.isSettled = true → t.symbols.Pairwise fun s s' => s.address ≤ s'.address

variable {t : SymbolStore} {symbols : List Symbol}

theorem keeps_empty : empty.Keeps [] := ⟨fun _ => rfl, nofun⟩

theorem Keeps.push (h : t.Keeps symbols) (s : Symbol) : (t.push s).Keeps (symbols ++ [s]) where
  sharing_eq a := by rw [SymbolStore.push, sharing_append, h.sharing_eq, sharing_append]
  sorted := nofun

theorem Keeps.settle (h : t.Keeps symbols) : t.settle.Keeps symbols := by
  unfold SymbolStore.settle
  split
  · exact h
  · refine ⟨fun a => ?_, fun _ => SymbolTable.pairwise_sorted _⟩
    rw [SymbolTable.sharing_sorted, h.sharing_eq]

/-- A question settles the store, and a push puts its symbol behind the others. -/
theorem Keeps.act (h : t.Keeps symbols) (action : Action) :
    (t.act action).Keeps (symbols ++ action.symbol?.toList) := by
  cases action with
  | push s => exact h.push s
  | find a =>
    rw [Action.symbol?, Option.toList_none, List.append_nil]
    exact h.settle
  | after a =>
    rw [Action.symbol?, Option.toList_none, List.append_nil]
    exact h.settle

theorem run_concat (history : List Action) (action : Action) :
    run (history ++ [action]) = (run history).act action := by
  rw [run, List.foldl_append]
  rfl

theorem pushed_concat (history : List Action) (action : Action) :
    pushed (history ++ [action]) = pushed history ++ action.symbol?.toList := by
  rw [pushed, List.filterMap_append, List.filterMap_cons, List.filterMap_nil]
  cases action.symbol? <;> rfl

/-- A store holds what its history pushed. -/
theorem keeps_run (history : List Action) : (run history).Keeps (pushed history) := by
  induction history using List.reverseRecOn with
  | nil => exact keeps_empty
  | append_singleton history action ih =>
    rw [run_concat, pushed_concat]
    exact ih.act action

theorem Keeps.perm (h : t.Keeps symbols) : t.symbols.Perm symbols := perm_of_sharing_eq h.sharing_eq

theorem isSettled_settle (t : SymbolStore) : t.settle.isSettled = true := by
  unfold settle
  split
  · assumption
  · rfl

/-- A settled store has its symbols in the order in which a table of them has them when it is
sorted. -/
theorem Keeps.symbols_settle (h : t.Keeps symbols) :
    t.settle.symbols = (SymbolTable.mk symbols).sorted := by
  refine SymbolIndex.eq_of_sharing_eq (h.settle.sorted t.isSettled_settle)
    (SymbolTable.pairwise_sorted _) fun a => ?_
  rw [h.settle.sharing_eq, SymbolTable.sharing_sorted]

/-- Every search that meets its contract finds a right answer in a settled store. -/
theorem Keeps.findsBelow (h : t.Keeps symbols) {a : Address} {r : SearchResult}
    (hr : r.Locates t.settle.symbols.toArray a) :
    FindsBelow symbols a (r.find? t.settle.symbols.toArray) :=
  (hr.findsBelow (h.settle.sorted t.isSettled_settle)).congr h.settle.perm

theorem Keeps.locates (h : t.Keeps symbols) (a : Address) :
    (SymbolSearch.search t.settle.symbols.toArray a).Locates t.settle.symbols.toArray a :=
  SymbolSearch.locates_search (h.settle.sorted t.isSettled_settle) a

end SymbolStore

/-- Whatever was pushed and asked before, in any order and with any addresses twice, a store answers
from all symbols that were pushed. Binary search may find any symbol of an address that several
share. No question changes which symbols there are or how often. -/
theorem symbol_store_answers (history : List SymbolStore.Action) (a : Address) :
    FindsBelow (SymbolStore.pushed history) a ((SymbolStore.run history).find? a).1 ∧
      (∀ r : SearchResult, r.Locates (SymbolStore.run history).settle.symbols.toArray a →
        FindsBelow (SymbolStore.pushed history) a
          (r.find? (SymbolStore.run history).settle.symbols.toArray)) ∧
      FindsFirstAbove (SymbolStore.pushed history) a ((SymbolStore.run history).after? a).1 ∧
      IsLeastAddress (SymbolStore.pushed history) (SymbolStore.run history).firstAddress? ∧
      (SymbolStore.run history).symbols.Perm (SymbolStore.pushed history) ∧
      ((SymbolStore.run history).find? a).2.symbols.Perm (SymbolStore.run history).symbols ∧
      ((SymbolStore.run history).after? a).2.symbols.Perm (SymbolStore.run history).symbols := by
  have hkeeps := SymbolStore.keeps_run history
  have hquestion :
      (SymbolStore.run history).settle.symbols.Perm (SymbolStore.run history).symbols :=
    hkeeps.settle.perm.trans hkeeps.perm.symm
  refine ⟨hkeeps.findsBelow (hkeeps.locates a), fun r hr => hkeeps.findsBelow hr, ?_, ?_,
    hkeeps.perm, hquestion, hquestion⟩
  · rw [SymbolStore.after?, hkeeps.symbols_settle]
    exact SymbolTable.findsFirstAbove_after? ⟨SymbolStore.pushed history⟩ a
  · exact (SymbolTable.isLeastAddress_firstAddress? _).congr hkeeps.perm

/-- Two symbols of one address, the second one pushed after the first was sorted, and one below them
that came last. -/
def aliasedHistory : List SymbolStore.Action :=
  [.push ⟨0x2000, "main"⟩, .find 0x2000, .push ⟨0x2000, "alias"⟩, .after 0, .push ⟨0x1000, "start"⟩]

theorem symbol_store_answers_aliased :
    ((SymbolStore.run aliasedHistory).after? 0x1fff).1 = some ⟨0x2000, "main"⟩ ∧
      ((SymbolStore.run aliasedHistory).find? 0x1fff).1 = some ⟨0x1000, "start"⟩ ∧
      (SearchResult.found 2).Locates (SymbolStore.run aliasedHistory).settle.symbols.toArray
        0x2000 ∧
      FindsBelow (SymbolStore.pushed aliasedHistory) 0x2000 (some ⟨0x2000, "alias"⟩) := by
  have hsettled : (SymbolStore.run aliasedHistory).settle.symbols =
      [⟨0x1000, "start"⟩, ⟨0x2000, "main"⟩, ⟨0x2000, "alias"⟩] := by
    have hpushed : SymbolStore.pushed aliasedHistory =
        [⟨0x2000, "main"⟩, ⟨0x2000, "alias"⟩, ⟨0x1000, "start"⟩] := rfl
    rw [(SymbolStore.keeps_run aliasedHistory).symbols_settle, hpushed]
    simp [SymbolTable.sorted, List.mergeSort]
  have hlocates :
      (SearchResult.found 2).Locates (SymbolStore.run aliasedHistory).settle.symbols.toArray
        0x2000 := by
    rw [hsettled]
    exact ⟨⟨0x2000, "alias"⟩, rfl, rfl⟩
  have hanswer := (symbol_store_answers aliasedHistory 0x2000).2.1 (.found 2) hlocates
  refine ⟨?_, ?_, hlocates, ?_⟩
  · rw [SymbolStore.after?, hsettled]
    decide
  · rw [SymbolStore.find?, hsettled]
    decide +kernel
  · rwa [hsettled] at hanswer

end LengthDisasm
