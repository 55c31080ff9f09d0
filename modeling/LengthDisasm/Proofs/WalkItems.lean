import LengthDisasm.Proofs.Boundary

/-!
# Listings and walks

A listing and a walk go through data on their own, and a listing skips runs of zero bytes that a
walk decodes. Still they stop at the same places: two zero bytes are an instruction, and runs are
skipped in blocks of eight. With the instructions of its skipped runs filled in, a listing shows the
steps of the walk, and its items cover the data from the first byte to the last.

## Main definitions

* `ItemBody.bytes`, `Item.steps` — the bytes that an item covers, and the steps that it stands for
* `Divides` — items are what stands in data, one behind the other
* `SymbolSource` — where the symbols of a listing come from

## Main results

* `divides_scan` — a scan divides its data
* `Divides.flatten_bytes`, `Divides.flatMap_steps` — the items cover the data, and stand for the
  steps of its walk
* `Divides.ne_address_of_elided` — no symbol lies inside a skipped run
* `print_items_walk` — listing and walk agree
-/

namespace LengthDisasm

/-- The bytes of the data that an item covers. -/
def ItemBody.bytes : ItemBody → List Byte
  | elided count => List.replicate count 0
  | decoded bytes _ => bytes

/-- The steps of a walk that an item stands for: a skipped run is as many instructions of two zero
bytes as it has room for. -/
def Item.steps (mode : Mode) (item : Item) : List Step :=
  match item.body with
  | .elided count =>
    (List.range (count / 2)).map fun k =>
      ⟨item.address + BitVec.ofNat 64 (2 * k), 2, decode mode [0, 0]⟩
  | .decoded _ result => [⟨item.address, decodedLength result, result⟩]

theorem Item.steps_elided (mode : Mode) (a : Address) (label : Option Label) (count : Nat) :
    Item.steps mode ⟨a, label, .elided count⟩ =
      (List.range (count / 2)).map fun k => ⟨a + BitVec.ofNat 64 (2 * k), 2, decode mode [0, 0]⟩ :=
  rfl

/-! ### Walks over zero bytes -/

namespace Walk

variable {mode : Mode} {a : Address} {data : List Byte}

theorem steps_nil (mode : Mode) (a : Address) : (Walk.mk mode a []).steps = [] := by
  rw [steps_eq]
  rfl

theorem steps_of_ne (hne : data ≠ []) :
    (Walk.mk mode a data).steps =
      ⟨a, decodedLength (decode mode data), decode mode data⟩ ::
        (Walk.mk mode (a + BitVec.ofNat 64 (decodedLength (decode mode data)))
          (data.drop (decodedLength (decode mode data)))).steps := by
  have hnext : (Walk.mk mode a data).next? =
      some ((Walk.mk mode a data).current,
        (Walk.mk mode a data).advance (Walk.mk mode a data).current.length) := by
    simp [next?, hne]
  rw [steps_eq, hnext]
  rfl

/-- A walk makes one step for every two zero bytes. -/
theorem steps_replicate (mode : Mode) (a : Address) (k : Nat) (rest : List Byte) :
    (Walk.mk mode a (List.replicate (2 * k) 0 ++ rest)).steps =
      (List.range k).map (fun j => ⟨a + BitVec.ofNat 64 (2 * j), 2, decode mode [0, 0]⟩) ++
        (Walk.mk mode (a + BitVec.ofNat 64 (2 * k)) rest).steps := by
  induction k generalizing a with
  | zero => simp
  | succ k ih =>
    -- the first two bytes are a step, and the steps behind it stand two bytes further on
    have hzeroes : List.replicate (2 * (k + 1)) (0 : Byte) ++ rest =
        0 :: 0 :: (List.replicate (2 * k) 0 ++ rest) := rfl
    have hdecode := decode_zero_zero_append mode (List.replicate (2 * k) 0 ++ rest)
    have hlength : decodedLength (decode mode [0, 0]) = 2 := by cases mode <;> rfl
    have haddress : ∀ j, a + BitVec.ofNat 64 2 + BitVec.ofNat 64 (2 * j) =
        a + BitVec.ofNat 64 (2 * (j + 1)) := by
      intro j
      rw [BitVec.add_assoc, ← BitVec.ofNat_add, Nat.add_comm, Nat.mul_succ]
    rw [hzeroes, steps_of_ne (List.cons_ne_nil _ _), hdecode, hlength, List.drop_succ_cons,
      List.drop_succ_cons, List.drop_zero, ih, haddress, List.range_succ_eq_map, List.map_cons,
      List.map_map, List.cons_append]
    congr 2
    · rw [Nat.mul_zero, BitVec.add_zero]
    · congr 1
      funext j
      rw [Function.comp_apply, haddress]

end Walk

/-! ### What stands at the front -/

namespace ScanSettings

variable {settings : ScanSettings} {a : Address} {data : List Byte} {count : Nat}

/-- A skipped run is some blocks of zero bytes. -/
theorem exists_blocks_of_elided (h : settings.bodyAt a data = .elided count) :
    ∃ k, 0 < k ∧ count = 8 * k ∧ data.take count = List.replicate count 0 := by
  obtain ⟨hblock, -, rfl⟩ := ZeroRun.elided?_eq_some_iff.mp (elided?_of_bodyAt h).2
  refine ⟨ZeroRun.within (settings.limit a) data / 8, ?_, Nat.mul_comm _ _, ?_⟩
  · exact Nat.div_pos hblock (by decide)
  · exact ZeroRun.take_eq_replicate
      ((ZeroRun.wholeBlocks_le _).trans (ZeroRun.within_le_length (settings.limit a) data))

/-- What stands at the front covers the bytes there. -/
theorem bytes_bodyAt (settings : ScanSettings) (a : Address) (data : List Byte) :
    (settings.bodyAt a data).bytes = data.take (settings.bodyAt a data).size := by
  cases hbody : settings.bodyAt a data with
  | elided count =>
    obtain ⟨k, -, -, htake⟩ := exists_blocks_of_elided hbody
    exact htake.symm
  | decoded bytes result => exact (decode_of_bodyAt hbody).2.symm

/-- A walk begins with the steps of what stands at the front. -/
theorem steps_bodyAt (settings : ScanSettings) (a : Address) (hne : data ≠ [])
    (label : Option Label) :
    (Walk.mk settings.mode a data).steps =
      Item.steps settings.mode ⟨a, label, settings.bodyAt a data⟩ ++
        (Walk.mk settings.mode (a + BitVec.ofNat 64 (settings.bodyAt a data).size)
          (data.drop (settings.bodyAt a data).size)).steps := by
  cases hbody : settings.bodyAt a data with
  | elided count =>
    -- the walk makes four steps in each block
    obtain ⟨k, -, rfl, htake⟩ := exists_blocks_of_elided hbody
    have heven : 8 * k = 2 * (4 * k) := by omega
    have hsteps := Walk.steps_replicate settings.mode a (4 * k) (data.drop (8 * k))
    rw [← heven, ← htake, List.take_append_drop] at hsteps
    have hhalf : 8 * k / 2 = 4 * k := by omega
    rw [hsteps, Item.steps_elided, hhalf, ItemBody.size]
  | decoded bytes result =>
    obtain ⟨rfl, -⟩ := decode_of_bodyAt hbody
    exact Walk.steps_of_ne hne

end ScanSettings

/-! ### Dividing data into items -/

/-- Items divide the data that lies from one address to another: each is what stands at the front of
the data behind the items before it. -/
inductive Divides (settings : ScanSettings) : Address → List Byte → List Item → Address → Prop where
  | nil (a : Address) : Divides settings a [] [] a
  | cons {a b : Address} {data : List Byte} {items : List Item} (label : Option Label)
      (hne : data ≠ [])
      (h : Divides settings (a + BitVec.ofNat 64 (settings.bodyAt a data).size)
        (data.drop (settings.bodyAt a data).size) items b) :
      Divides settings a data (⟨a, label, settings.bodyAt a data⟩ :: items) b

/-- A scan of data that nothing follows divides all of it. -/
theorem divides_scan {settings : ScanSettings} (hmore : settings.hasMore = false) (labels : Labels)
    (a : Address) (data : List Byte) :
    Divides settings a data (scan settings labels a data).items
      (scan settings labels a data).address := by
  induction labels, a, data using scan_induction settings with
  | nil labels a =>
    rw [scan_nil]
    exact .nil a
  | wait labels a data needed hne hfront =>
    -- nothing waits, since nothing follows
    rw [ScanSettings.front_of_not_hasMore settings hmore] at hfront
    cases hfront
  | item labels a data body hne hfront ih =>
    rw [scan_item hne hfront]
    obtain rfl := ScanSettings.bodyAt_of_front hfront
    exact .cons _ hne ih

namespace Divides

variable {settings : ScanSettings} {a b : Address} {data : List Byte} {items : List Item}
    {item : Item}

theorem flatten_bytes (h : Divides settings a data items b) :
    (items.map fun item => item.body.bytes).flatten = data := by
  induction h with
  | nil a => rfl
  | cons label hne h ih =>
    rw [List.map_cons, List.flatten_cons, ih, ScanSettings.bytes_bodyAt, List.take_append_drop]

theorem flatMap_steps (h : Divides settings a data items b) :
    items.flatMap (Item.steps settings.mode) = (Walk.mk settings.mode a data).steps := by
  induction h with
  | nil a => exact (Walk.steps_nil settings.mode a).symm
  | cons label hne h ih => rw [List.flatMap_cons, ih, settings.steps_bodyAt _ hne label]

/-- The last address is that behind the data, modulo the size of the address space. -/
theorem end_eq (h : Divides settings a data items b) : b = a + BitVec.ofNat 64 data.length := by
  induction h with
  | nil a => simp
  | @cons a b data items label hne h ih =>
    have hle := settings.size_bodyAt_le a hne
    rw [ih, BitVec.add_assoc, ← BitVec.ofNat_add, List.length_drop, Nat.add_sub_cancel' hle]

/-- Each item is what stands at the front of some of the data. Addresses do not wrap around if those
of the data do not. -/
theorem exists_bodyAt (h : Divides settings a data items b) (hitem : item ∈ items) :
    ∃ rest : List Byte, rest ≠ [] ∧ settings.bodyAt item.address rest = item.body ∧
      (a.toNat + data.length ≤ 2 ^ 64 → item.address.toNat + rest.length ≤ 2 ^ 64) := by
  induction h with
  | nil a => cases hitem
  | @cons a b data items label hne h ih =>
    rcases List.mem_cons.mp hitem with rfl | hitem
    · exact ⟨data, hne, rfl, id⟩
    · obtain ⟨rest, hrest, hbody, hend⟩ := ih hitem
      refine ⟨rest, hrest, hbody, fun hfits => hend ?_⟩
      have hle := settings.size_bodyAt_le a hne
      -- the sum of the address and a size can only wrap around to zero
      rw [BitVec.toNat_add, BitVec.toNat_ofNat, List.length_drop]
      omega

theorem length_bytes (h : Divides settings a data items b) (hitem : item ∈ items) :
    item.body.bytes.length = item.body.size := by
  obtain ⟨rest, hne, hbody, -⟩ := h.exists_bodyAt hitem
  have hle := settings.size_bodyAt_le item.address hne
  have hbytes := settings.bytes_bodyAt item.address rest
  rw [hbody] at hle hbytes
  rw [hbytes, List.length_take, Nat.min_eq_left hle]

/-- No symbol lies inside a skipped run. -/
theorem ne_address_of_elided (h : Divides settings a data items b) (hitem : item ∈ items)
    {count : Nat}
    (hcount : item.body = .elided count) {symbols : List Symbol}
    (hstops : settings.symbols.Stops symbols)
    (hend : a.toNat + data.length ≤ 2 ^ 64) {s : Symbol} (hs : s ∈ symbols) {n : Nat} (hpos : 0 < n)
    (hlt : n < count) : s.address ≠ item.address + BitVec.ofNat 64 n := by
  obtain ⟨rest, hne, hbody, hfits⟩ := h.exists_bodyAt hitem
  have hle := settings.size_bodyAt_le item.address hne
  have hitemEnd := hfits hend
  rw [hcount] at hbody
  rw [hbody, ItemBody.size] at hle
  have haddress : (item.address + BitVec.ofNat 64 n).toNat = item.address.toNat + n :=
    toNat_add_ofNat (by omega)
  -- a symbol inside the run would be above its start, and the run stops before it
  intro heq
  have habove : item.address < s.address := by
    rw [heq, BitVec.lt_def, haddress]
    omega
  have hstop := ScanSettings.le_address_of_stops hstops hbody hs habove
  rw [heq, haddress] at hstop
  omega

end Divides

/-! ### Listings -/

/-- Where the symbols of a listing come from. -/
inductive SymbolSource where
  /-- There are none. -/
  | nowhere
  /-- A table. -/
  | table (t : SymbolTable)
  /-- An array by ascending address. -/
  | image (symbols : Array Symbol)
      (sorted : symbols.toList.Pairwise fun s t => s.address ≤ t.address)

namespace SymbolSource

def symbols : SymbolSource → List Symbol
  | nowhere => []
  | table t => t.pushed
  | image symbols _ => symbols.toList

def lookup : SymbolSource → SymbolLookup
  | nowhere => .empty
  | table t => t.sorted.lookup
  | image symbols _ => SymbolSearch.lookup symbols

theorem findsNext_lookup (source : SymbolSource) : source.lookup.FindsNext source.symbols := by
  cases source with
  | nowhere =>
    constructor
    · intro a s hnext
      cases hnext
    · intro a _ t ht
      cases ht
  | table t => exact t.findsNext_lookup
  | image symbols sorted => exact SymbolSearch.findsNext_lookup sorted

theorem stops_lookup (source : SymbolSource) : source.lookup.Stops source.symbols :=
  source.findsNext_lookup.stops

end SymbolSource

/-- A listing moves over the data that it prints. -/
theorem Listing.print_snd (l : Listing) (first : Bool) (data : List Byte) :
    (l.print first data).2 = l.skip data.length := by
  have hdivides : Divides (l.settings false) l.decoder.address data (l.scan first false data).items
      (l.scan first false data).address := divides_scan rfl _ _ _
  change l.moveTo (l.scan first false data).address = _
  rw [hdivides.end_eq, skip]

/-- Listing and walk agree. Whatever the options and the symbols, what is printed is the text of
items that cover the data one behind the other; an item that is skipped is blocks of eight zero
bytes, and no symbol lies behind its first byte, unless addresses wrap around; with the instructions
of the skipped items filled in the items are the steps of the walk; and the listing has moved over
the data. -/
theorem print_items_walk {l : Listing} {source : SymbolSource}
    (h : l.presentation.symbols = source.lookup) (first : Bool) (data : List Byte) :
    let items := (l.scan first false data).items
    (l.print first data).1 = l.text items ∧
      (items.map fun item => item.body.bytes).flatten = data ∧
      (∀ item ∈ items, item.body.bytes.length = item.body.size) ∧
      (∀ item ∈ items, ∀ count, item.body = .elided count →
        (∃ k, 0 < k ∧ count = 8 * k) ∧
          (l.decoder.address.toNat + data.length ≤ 2 ^ 64 → ∀ s ∈ source.symbols, ∀ n,
            0 < n → n < count → s.address ≠ item.address + BitVec.ofNat 64 n)) ∧
      items.flatMap (Item.steps l.decoder.mode) = (l.decoder.walk data).steps ∧
      (l.print first data).2 = { l with decoder := l.decoder.skip data.length } := by
  intro items
  have hdivides : Divides (l.settings false) l.decoder.address data items
      (l.scan first false data).address := divides_scan rfl _ _ _
  have hstops : l.presentation.symbols.Stops source.symbols := by
    rw [h]
    exact source.stops_lookup
  refine ⟨rfl, hdivides.flatten_bytes, fun item hitem => hdivides.length_bytes hitem, ?_,
    hdivides.flatMap_steps, l.print_snd first data⟩
  intro item hitem count hcount
  obtain ⟨rest, -, hbody, -⟩ := hdivides.exists_bodyAt hitem
  obtain ⟨k, hk, heq, -⟩ := ScanSettings.exists_blocks_of_elided (hbody.trans hcount)
  refine ⟨⟨k, hk, heq⟩, fun hend s hs n hpos hlt => ?_⟩
  exact hdivides.ne_address_of_elided hitem hcount hstops hend hs hpos hlt

/-- Two symbols that share an address. -/
def sharedSymbols : SymbolTable := ⟨[⟨0x1009, "last"⟩, ⟨0x1000, "first"⟩, ⟨0x1009, "alias"⟩]⟩

/-- A listing with these symbols. -/
def sharedListing : Listing :=
  ⟨⟨.long64, 0x1000, .default⟩, ⟨.plain, sharedSymbols.sorted.lookup, id⟩, ".text"⟩

/-- Zero bytes up to and behind the symbols, and an instruction. -/
def sharedData : List Byte := List.replicate 21 0 ++ [0x90]

/-- The run is skipped up to the last block before the symbols and decoded from there on; the walk
has four steps in place of the first item. -/
theorem print_items_walk_shared :
    ((sharedListing.scan true false sharedData).items.map fun item => item.body.size) =
        [8, 2, 2, 2, 2, 2, 2, 1, 1] ∧
      (sharedListing.scan true false sharedData).items.flatMap (Item.steps .long64) =
        (sharedListing.decoder.walk sharedData).steps := by
  have hlisting : sharedListing = ⟨⟨.long64, 0x1000, .default⟩,
      ⟨.plain, SymbolIndex.lookup [⟨0x1000, "first"⟩, ⟨0x1009, "last"⟩, ⟨0x1009, "alias"⟩], id⟩,
      ".text"⟩ := by
    simp [sharedListing, SymbolTable.sorted, sharedSymbols, List.mergeSort]
  have hsizes : ((sharedListing.scan true false sharedData).items.map fun item => item.body.size) =
      [8, 2, 2, 2, 2, 2, 2, 1, 1] := by
    rw [hlisting]
    decide +kernel
  obtain ⟨-, -, -, -, hsteps, -⟩ :=
    @print_items_walk sharedListing (.table sharedSymbols) rfl true sharedData
  exact ⟨hsizes, hsteps⟩

end LengthDisasm
