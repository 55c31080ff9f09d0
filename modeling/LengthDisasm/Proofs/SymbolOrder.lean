import Mathlib.Data.List.TakeWhile
import LengthDisasm.Symbols.Search

/-!
# Symbols in the order of their addresses

A listing asks for the symbol at an address and for the first symbol above it. Where no two symbols
share an address there is only one right answer to either question, and tables and searched arrays
both give it.

## Main definitions

* `SymbolLookup.Answers` — the questions of a listing are answered from given symbols
* `SymbolLookup.FindsNext` — the next symbol is the lowest one above an address
* `SymbolLookup.Stops` — no symbol is passed over

## Main results

* `SymbolIndex.answers_lookup`, `SymbolTable.answers_lookup` — an index answers from its symbols,
  and a table from those that were pushed
* `SymbolSearch.answers_lookup` — so does binary search
* `SymbolTable.findsNext_lookup`, `SymbolSearch.findsNext_lookup` — they find the next symbol, even
  if several share an address
-/

namespace LengthDisasm

/-- The questions of a listing are answered from `symbols`, of which no two share an address. -/
structure SymbolLookup.Answers (lookup : SymbolLookup) (symbols : List Symbol) : Prop where
  find_address : ∀ s ∈ symbols, lookup.find? s.address = some s
  mem_of_find : ∀ {a s}, lookup.find? a = some s → s ∈ symbols
  after_some : ∀ {a s}, lookup.after? a = some s →
    s ∈ symbols ∧ a < s.address ∧ ∀ t ∈ symbols, a < t.address → s.address ≤ t.address
  after_none : ∀ {a}, lookup.after? a = none → ∀ t ∈ symbols, t.address ≤ a

theorem SymbolLookup.Answers.eq_of_address_eq {lookup : SymbolLookup} {symbols : List Symbol}
    (h : lookup.Answers symbols) {s t : Symbol} (hs : s ∈ symbols) (ht : t ∈ symbols)
    (heq : s.address = t.address) : s = t := by
  have hfind := h.find_address s hs
  rw [heq, h.find_address t ht] at hfind
  exact (Option.some.inj hfind).symm

/-- The next symbol above an address is the lowest one of `symbols` there. Several can share an
address. -/
structure SymbolLookup.FindsNext (lookup : SymbolLookup) (symbols : List Symbol) : Prop where
  after_some : ∀ {a s}, lookup.after? a = some s →
    s ∈ symbols ∧ a < s.address ∧ ∀ t ∈ symbols, a < t.address → s.address ≤ t.address
  after_none : ∀ {a}, lookup.after? a = none → ∀ t ∈ symbols, t.address ≤ a

theorem SymbolLookup.Answers.findsNext {lookup : SymbolLookup} {symbols : List Symbol}
    (h : lookup.Answers symbols) : lookup.FindsNext symbols :=
  ⟨h.after_some, h.after_none⟩

/-- No symbol is passed over: the next symbol above an address is not above any other symbol that
is. -/
def SymbolLookup.Stops (lookup : SymbolLookup) (symbols : List Symbol) : Prop :=
  ∀ a, ∀ s ∈ symbols, a < s.address → ∃ t, lookup.after? a = some t ∧ a < t.address ∧
    t.address ≤ s.address

theorem SymbolLookup.FindsNext.stops {lookup : SymbolLookup} {symbols : List Symbol}
    (h : lookup.FindsNext symbols) : lookup.Stops symbols := by
  intro a s hs hlt
  cases hnext : lookup.after? a with
  | none => exact absurd (h.after_none hnext s hs) (BitVec.not_le.mpr hlt)
  | some t =>
    obtain ⟨-, hat, hleast⟩ := h.after_some hnext
    exact ⟨t, rfl, hat, hleast s hs hlt⟩

theorem SymbolLookup.Answers.stops {lookup : SymbolLookup} {symbols : List Symbol}
    (h : lookup.Answers symbols) : lookup.Stops symbols :=
  h.findsNext.stops

namespace SymbolIndex

/-- The symbols stand by ascending address and no two share one. -/
def IsStrict (index : SymbolIndex) : Prop := index.Pairwise fun s t => s.address < t.address

variable {index : SymbolIndex} {a : Address} {s : Symbol}

theorem find?_cons (s : Symbol) (index : SymbolIndex) (a : Address) :
    find? (s :: index) a = if s.address ≤ a then (find? index a).or (some s) else none := by
  by_cases h : s.address ≤ a
  · simp only [find?, List.takeWhile_cons, h, decide_true, if_true, List.getLast?_cons]
    cases (List.takeWhile (fun s => decide (s.address ≤ a)) index).getLast? <;> rfl
  · simp [find?, h]

theorem mem_of_find? (h : index.find? a = some s) : s ∈ index :=
  List.takeWhile_subset _ (List.mem_of_getLast? h)

theorem find?_address (hstrict : index.IsStrict) (hs : s ∈ index) :
    index.find? s.address = some s := by
  induction index with
  | nil => cases hs
  | cons t index ih =>
    obtain ⟨hfirst, hstrict'⟩ := List.pairwise_cons.mp hstrict
    rw [find?_cons]
    rcases List.mem_cons.mp hs with rfl | hs
    · -- the symbols after it are all above it
      have hnone : find? index s.address = none := by
        cases index with
        | nil => rfl
        | cons u index =>
          rw [find?_cons, if_neg]
          exact BitVec.not_le.mpr (hfirst u List.mem_cons_self)
      simp [hnone]
    · rw [if_pos (BitVec.le_of_lt (hfirst s hs)), ih hstrict' hs]
      rfl

/-- The first symbol above an address is the first one of the filtered index. -/
theorem after?_eq_head?_filter (index : SymbolIndex) (a : Address) :
    index.after? a = (index.filter fun s => decide (a < s.address)).head? := by
  rw [after?, ← List.find?_not_eq_head?_dropWhile, List.head?_filter]
  congr 1
  funext s
  by_cases h : s.address ≤ a
  · simp [h, BitVec.not_lt.mpr h]
  · simp [h, BitVec.not_le.mp h]

theorem after?_some (hsorted : index.Pairwise fun s t => s.address ≤ t.address)
    (h : index.after? a = some s) :
    s ∈ index ∧ a < s.address ∧ ∀ t ∈ index, a < t.address → s.address ≤ t.address := by
  rw [after?_eq_head?_filter] at h
  obtain ⟨above, habove⟩ := List.head?_eq_some_iff.mp h
  have hs : s ∈ index.filter fun t => decide (a < t.address) := by simp [habove]
  rw [List.mem_filter, decide_eq_true_eq] at hs
  refine ⟨hs.1, hs.2, fun t ht hat => ?_⟩
  have hmem : t ∈ index.filter fun t => decide (a < t.address) :=
    List.mem_filter.mpr ⟨ht, decide_eq_true hat⟩
  have hfiltered := hsorted.filter fun t => decide (a < t.address)
  rw [habove] at hmem hfiltered
  rcases List.mem_cons.mp hmem with rfl | hmem
  · exact BitVec.le_refl _
  · exact (List.pairwise_cons.mp hfiltered).1 t hmem

theorem after?_none (h : index.after? a = none) : ∀ t ∈ index, t.address ≤ a := by
  rw [after?_eq_head?_filter, List.head?_eq_none_iff, List.filter_eq_nil_iff] at h
  intro t ht
  simpa using h t ht

theorem answers_lookup (hstrict : index.IsStrict) : index.lookup.Answers index where
  find_address _ hs := find?_address hstrict hs
  mem_of_find := mem_of_find?
  after_some h := after?_some (hstrict.imp BitVec.le_of_lt) h
  after_none := after?_none

theorem findsNext_lookup (hsorted : index.Pairwise fun s t => s.address ≤ t.address) :
    index.lookup.FindsNext index :=
  ⟨after?_some hsorted, after?_none⟩

end SymbolIndex

namespace SymbolTable

theorem mem_sorted (t : SymbolTable) (s : Symbol) : s ∈ t.sorted ↔ s ∈ t.pushed :=
  List.mem_mergeSort

theorem decide_address_le_trans (s s' s'' : Symbol) (h : decide (s.address ≤ s'.address) = true)
    (h' : decide (s'.address ≤ s''.address) = true) : decide (s.address ≤ s''.address) = true :=
  decide_eq_true (BitVec.le_trans (of_decide_eq_true h) (of_decide_eq_true h'))

theorem decide_address_le_total (s s' : Symbol) :
    (decide (s.address ≤ s'.address) || decide (s'.address ≤ s.address)) = true := by
  simpa using BitVec.le_total s.address s'.address

theorem pairwise_sorted (t : SymbolTable) :
    t.sorted.Pairwise fun s s' => s.address ≤ s'.address :=
  (List.pairwise_mergeSort decide_address_le_trans decide_address_le_total t.pushed).imp
    of_decide_eq_true

theorem isStrict_sorted {t : SymbolTable} (h : (t.pushed.map Symbol.address).Nodup) :
    t.sorted.IsStrict := by
  have hperm : t.sorted.Perm t.pushed := List.mergeSort_perm _ _
  have hnodup : t.sorted.Pairwise fun s s' => s.address ≠ s'.address :=
    List.pairwise_map.mp ((hperm.map Symbol.address).nodup_iff.mpr h)
  exact (t.pairwise_sorted.and hnodup).imp fun ⟨hle, hne⟩ => BitVec.lt_of_le_ne hle hne

theorem findsNext_lookup (t : SymbolTable) : t.sorted.lookup.FindsNext t.pushed := by
  have hsorted := SymbolIndex.findsNext_lookup t.pairwise_sorted
  refine ⟨fun hnext => ?_, fun hnone u hu => hsorted.after_none hnone u ((t.mem_sorted u).mpr hu)⟩
  obtain ⟨hs, hlt, hleast⟩ := hsorted.after_some hnext
  exact ⟨(t.mem_sorted _).mp hs, hlt, fun u hu => hleast u ((t.mem_sorted u).mpr hu)⟩

/-- A table whose symbols have different addresses answers from the symbols that were pushed. -/
theorem answers_lookup {t : SymbolTable} (h : (t.pushed.map Symbol.address).Nodup) :
    t.sorted.lookup.Answers t.pushed := by
  have hsorted := SymbolIndex.answers_lookup (isStrict_sorted h)
  exact ⟨fun s hs => hsorted.find_address s ((t.mem_sorted s).mpr hs),
    fun h => (t.mem_sorted _).mp (hsorted.mem_of_find h), t.findsNext_lookup.after_some,
    t.findsNext_lookup.after_none⟩

end SymbolTable

/-! ### Binary search -/

/-- The result says where the address stands: at a symbol found, or between those below and above
it. -/
def SearchResult.Locates (symbols : Array Symbol) (a : Address) : SearchResult → Prop
  | found index => ∃ s, symbols[index]? = some s ∧ s.address = a
  | vacant index =>
    index ≤ symbols.size ∧ (∀ j s, j < index → symbols[j]? = some s → s.address < a) ∧
      ∀ j s, index ≤ j → symbols[j]? = some s → a < s.address

namespace SymbolSearch

variable {symbols : Array Symbol} {a : Address}

/-- Later symbols of a sorted array have no smaller address. -/
theorem address_le_of_getElem? (hsorted : symbols.toList.Pairwise fun s t => s.address ≤ t.address)
    {i j : Nat} (hij : i ≤ j) {s t : Symbol} (hs : symbols[i]? = some s)
    (ht : symbols[j]? = some t) : s.address ≤ t.address := by
  rcases Nat.eq_or_lt_of_le hij with rfl | hlt
  · rw [hs] at ht
    cases ht
    exact BitVec.le_refl _
  · obtain ⟨hi, rfl⟩ := Array.getElem?_eq_some_iff.mp hs
    obtain ⟨hj, rfl⟩ := Array.getElem?_eq_some_iff.mp ht
    exact List.pairwise_iff_getElem.mp hsorted i j hi hj hlt

/-- The search keeps the address between the symbols below `lo` and those from `hi` on. -/
theorem locates_searchIn (hsorted : symbols.toList.Pairwise fun s t => s.address ≤ t.address)
    (lo hi : Nat) (hlo : ∀ j s, j < lo → symbols[j]? = some s → s.address < a)
    (hhi : ∀ j s, hi ≤ j → symbols[j]? = some s → a < s.address) (hle : lo ≤ hi)
    (hsize : hi ≤ symbols.size) :
    (searchIn symbols a lo hi).Locates symbols a := by
  fun_induction searchIn symbols a lo hi with
  | case1 lo hi hlt mid hnone =>
    have hmid : mid < symbols.size := by omega
    simp [hmid] at hnone
  | case2 lo hi hlt mid s hs heq => exact ⟨s, hs, heq⟩
  | case3 lo hi hlt mid s hs hne hless ih =>
    -- all symbols up to the middle one are below the address
    refine ih (fun j t hj ht => ?_) hhi (by omega) hsize
    have hle := address_le_of_getElem? hsorted (by omega) ht hs
    bv_omega
  | case4 lo hi hlt mid s hs hne hless ih =>
    -- all symbols from the middle one on are above the address
    have habove : a < s.address := BitVec.lt_of_le_ne (BitVec.not_lt.mp hless) (Ne.symm hne)
    refine ih hlo (fun j t hj ht => ?_) (by omega) (by omega)
    have hle := address_le_of_getElem? hsorted hj hs ht
    bv_omega
  | case5 lo hi hlt => exact ⟨by omega, hlo, fun j s hj hs => hhi j s (by omega) hs⟩

theorem locates_search (hsorted : symbols.toList.Pairwise fun s t => s.address ≤ t.address)
    (a : Address) : (search symbols a).Locates symbols a := by
  refine locates_searchIn hsorted 0 symbols.size (fun j s hj => absurd hj (Nat.not_lt_zero j)) ?_
    (Nat.zero_le _) le_rfl
  intro j s hj hs
  rw [Array.getElem?_eq_none hj] at hs
  cases hs

theorem mem_of_getElem? {i : Nat} {s : Symbol} (h : symbols[i]? = some s) : s ∈ symbols.toList := by
  obtain ⟨hi, rfl⟩ := Array.getElem?_eq_some_iff.mp h
  exact List.getElem_mem (l := symbols.toList) hi

theorem getElem?_add_of_mem_drop {i : Nat} {s : Symbol} (hs : s ∈ symbols.toList.drop i) :
    ∃ j, i ≤ j ∧ symbols[j]? = some s := by
  obtain ⟨k, hk⟩ := List.mem_iff_getElem?.mp hs
  rw [List.getElem?_drop, Array.getElem?_toList] at hk
  exact ⟨i + k, Nat.le_add_right i k, hk⟩

/-- Symbols that are not above `a` can be left out before a search for the first one that is. -/
theorem after?_eq_drop {i : Nat} (h : ∀ j s, j < i → symbols[j]? = some s → s.address ≤ a) :
    SymbolIndex.after? symbols.toList a =
      ((symbols.toList.drop i).filter fun s => decide (a < s.address)).head? := by
  have hnone : (symbols.toList.take i).filter (fun s => decide (a < s.address)) = [] := by
    rw [List.filter_eq_nil_iff]
    intro s hs
    obtain ⟨j, hj⟩ := List.mem_iff_getElem?.mp hs
    rw [List.getElem?_take] at hj
    split at hj
    · rename_i hlt
      rw [Array.getElem?_toList] at hj
      simpa using h j s hlt hj
    · cases hj
  have hsplit : symbols.toList.filter (fun s => decide (a < s.address)) =
      (symbols.toList.take i).filter (fun s => decide (a < s.address)) ++
        (symbols.toList.drop i).filter fun s => decide (a < s.address) := by
    rw [← List.filter_append, List.take_append_drop]
  rw [SymbolIndex.after?_eq_head?_filter, hsplit, hnone, List.nil_append]

/-- Wherever a search says that an address stands, the next symbol is the one that a scan from the
front finds. If several symbols have the address, the search may find any of them. -/
theorem after?_of_locates (hsorted : symbols.toList.Pairwise fun s t => s.address ≤ t.address)
    {r : SearchResult}
    (h : r.Locates symbols a) : r.after? symbols a = SymbolIndex.after? symbols.toList a := by
  cases r with
  | found i =>
    obtain ⟨s, hs, rfl⟩ := h
    rw [after?_eq_drop (i := i) fun j t hj ht => address_le_of_getElem? hsorted (by omega) ht hs,
      SearchResult.after?, ← List.head?_filter]
    -- from the symbol found on, an address that is not its own is above its own
    congr 1
    refine List.filter_congr fun t ht => ?_
    obtain ⟨j, hij, hj⟩ := getElem?_add_of_mem_drop ht
    have hle := address_le_of_getElem? hsorted hij hs hj
    rw [decide_eq_decide]
    constructor
    · intro hne
      exact BitVec.lt_of_le_ne hle (Ne.symm hne)
    · intro hlt heq
      rw [heq] at hlt
      exact BitVec.lt_irrefl _ hlt
  | vacant i =>
    obtain ⟨-, hbelow, habove⟩ := h
    rw [after?_eq_drop (i := i) fun j t hj ht => BitVec.le_of_lt (hbelow j t hj ht),
      SearchResult.after?, List.filter_eq_self.mpr, List.head?_drop, Array.getElem?_toList]
    intro t ht
    obtain ⟨j, hij, hj⟩ := getElem?_add_of_mem_drop ht
    exact decide_eq_true (habove j t hij hj)

/-- On a sorted array binary search finds the same next symbol as a scan from the front. -/
theorem after?_lookup (hsorted : symbols.toList.Pairwise fun s t => s.address ≤ t.address)
    (a : Address) : (lookup symbols).after? a = SymbolIndex.after? symbols.toList a :=
  after?_of_locates hsorted (locates_search hsorted a)

/-- A sorted array finds the next symbol. -/
theorem findsNext_lookup (hsorted : symbols.toList.Pairwise fun s t => s.address ≤ t.address) :
    (lookup symbols).FindsNext symbols.toList where
  after_some h := by
    rw [after?_lookup hsorted] at h
    exact SymbolIndex.after?_some hsorted h
  after_none h := by
    rw [after?_lookup hsorted] at h
    exact SymbolIndex.after?_none h

/-- An array without two symbols of one address answers from its symbols. -/
theorem answers_lookup (hstrict : SymbolIndex.IsStrict symbols.toList) :
    (lookup symbols).Answers symbols.toList where
  find_address := by
    intro s hs
    have hsorted := hstrict.imp BitVec.le_of_lt
    have hlocates := locates_search hsorted s.address
    obtain ⟨k, hk⟩ := List.mem_iff_getElem?.mp hs
    rw [Array.getElem?_toList] at hk
    simp only [lookup]
    cases hsearch : search symbols s.address with
    | found i =>
      rw [hsearch] at hlocates
      obtain ⟨t, ht, haddress⟩ := hlocates
      have heq :=
        (SymbolIndex.answers_lookup hstrict).eq_of_address_eq (mem_of_getElem? ht) hs haddress
      rw [SearchResult.find?, ht, heq]
    | vacant i =>
      rw [hsearch] at hlocates
      rcases Nat.lt_or_ge k i with hki | hik
      · exact absurd (hlocates.2.1 k s hki hk) (BitVec.lt_irrefl _)
      · exact absurd (hlocates.2.2 k s hik hk) (BitVec.lt_irrefl _)
  mem_of_find := by
    intro a s h
    simp only [lookup] at h
    cases hsearch : search symbols a with
    | found i =>
      rw [hsearch] at h
      exact mem_of_getElem? h
    | vacant i =>
      rw [hsearch] at h
      cases i with
      | zero => cases h
      | succ i => exact mem_of_getElem? h
  after_some := (findsNext_lookup (hstrict.imp BitVec.le_of_lt)).after_some
  after_none := (findsNext_lookup (hstrict.imp BitVec.le_of_lt)).after_none

end SymbolSearch

end LengthDisasm
