import LengthDisasm.Proofs.BlockListing

/-!
# Labels that are lost

A listing shows the label of a symbol before the item that starts at its address. It carries along
the symbol that it waits for, and goes on to the next one when an item starts there. A symbol inside
an instruction is never reached in this way. The listing then waits for it up to the end, and all
labels behind it are lost.

## Main definitions

* `Listing.dueLabel` — the label that the item at an address should have
* `HidesNoSymbol` — behind an instruction with a symbol inside no item starts at a symbol

## Main results

* `label_eq_none_of_passed` — behind a symbol that was passed over nothing is labelled
* `label_eq_or_none` — no item has a label that is not due
* `labelled_tail_iff` — when the items behind the first one have the labels of their symbols
* `print_due_labels_iff` — when all labels that are due are printed
-/

namespace LengthDisasm

variable {settings : ScanSettings} {symbols : List Symbol} {labels : Labels} {a : Address}
    {data : List Byte}
  {item : Item}

/-! ### Symbols that are passed over -/

/-- The items behind so many bytes lie behind them. -/
theorem le_address_of_mem_scan_drop (hend : a.toNat + data.length ≤ 2 ^ 64) {n : Nat}
    (h : item ∈ (scan settings labels (a + BitVec.ofNat 64 n) (data.drop n)).items) :
    a.toNat + n ≤ item.address.toNat := by
  by_cases hrest : data.drop n = []
  · rw [hrest, scan_nil] at h
    cases h
  · rw [List.drop_eq_nil_iff] at hrest
    have haddress : (a + BitVec.ofNat 64 n).toNat = a.toNat + n := toNat_add_ofNat (by omega)
    have hle := (address_of_mem_scan (by rw [haddress, List.length_drop]; omega) h).1
    rwa [haddress] at hle

theorem Labels.take_waiting {lookup : SymbolLookup} (s : Symbol) (a : Address) :
    take lookup a ⟨none, some s⟩ =
      if s.address = a then (some ⟨s.name, 0⟩, ⟨none, lookup.after? a⟩)
          else (none, ⟨none, some s⟩) := rfl

/-- Behind a symbol that was passed over nothing is labelled: it is waited for, and no item starts
there. -/
theorem label_eq_none_of_passed {s : Symbol} (hpassed : s.address < a)
    (hend : a.toNat + data.length ≤ 2 ^ 64)
    (h : item ∈ (scan settings ⟨none, some s⟩ a data).items) :
    item.label = none := by
  induction hn : data.length using Nat.strongRecOn generalizing a data with
  | ind n ih =>
    have hother : s.address ≠ a := fun heq => BitVec.lt_irrefl a (heq ▸ hpassed)
    obtain ⟨body, -, hfront, hitem⟩ := mem_scan_cases h
    rw [Labels.take_waiting, if_neg hother] at hitem
    rcases hitem with rfl | ⟨hlt, hitem⟩
    · rfl
    · -- the symbol lies before all that is left, whose addresses do not wrap around
      have hpos := ScanSettings.size_pos_of_front hfront
      have haddress : (a + BitVec.ofNat 64 body.size).toNat = a.toNat + body.size :=
        toNat_add_ofNat (by omega)
      have hlength : (data.drop body.size).length = data.length - body.size := List.length_drop
      rw [BitVec.lt_def] at hpassed
      exact ih _ (by omega) (by rw [BitVec.lt_def]; omega) (by omega) hitem rfl

/-- Once there is no heading any more, an item has the label of the symbol at its address or
none. -/
theorem label_eq_or_none (hanswers : settings.symbols.Answers symbols) {next : Option Symbol}
    (hnext : ∀ s, next = some s → s ∈ symbols)
    (h : item ∈ (scan settings ⟨none, next⟩ a data).items) :
    item.label = settings.symbols.labelAt item.address ∨ item.label = none := by
  induction hn : data.length using Nat.strongRecOn generalizing next a data with
  | ind n ih =>
    obtain ⟨body, -, hfront, hitem⟩ := mem_scan_cases h
    have hpos := ScanSettings.size_pos_of_front hfront
    have hlength : (data.drop body.size).length = data.length - body.size := List.length_drop
    -- the item in front takes the label of the symbol that is waited for, or leaves all as it was
    by_cases hat : ∃ s, next = some s ∧ s.address = a
    · obtain ⟨s, rfl, rfl⟩ := hat
      rw [Labels.take_waiting, if_pos rfl] at hitem
      rcases hitem with rfl | ⟨hlt, hitem⟩
      · exact .inl (hanswers.labelAt_address (hnext s rfl)).symm
      · exact ih _ (by omega) (fun t ht => (hanswers.after_some ht).1) hitem rfl
    · have htake : Labels.take settings.symbols a ⟨none, next⟩ = (none, ⟨none, next⟩) := by
        cases next with
        | none => rfl
        | some s => exact if_neg fun haddress => hat ⟨s, rfl, haddress⟩
      rw [htake] at hitem
      rcases hitem with rfl | ⟨hlt, hitem⟩
      · exact .inr rfl
      · exact ih _ (by omega) hnext hitem rfl

/-! ### Symbols inside items -/

/-- Behind an instruction with a symbol inside, no item starts at a symbol. -/
def HidesNoSymbol (symbols : List Symbol) (items : List Item) : Prop :=
  ∀ item ∈ items, ∀ s ∈ symbols, item.IsSplitBy s → ∀ later ∈ items, s.address < later.address →
    ∀ s' ∈ symbols, s'.address ≠ later.address

theorem hidesNoSymbol_nil : HidesNoSymbol symbols [] := List.forall_mem_nil _

theorem Item.IsSplitBy.inside {s : Symbol} (h : item.IsSplitBy s) :
    item.address < s.address ∧ s.address.toNat < item.address.toNat + item.body.size := by
  obtain ⟨address, label, body⟩ := item
  match body, h with
  | .decoded _ (.ok _), h => exact h

/-- A symbol that lies inside an item lies inside an instruction. -/
theorem ScanSettings.isSplitBy_bodyAt (hanswers : settings.symbols.Answers symbols)
    (label : Option Label) {s : Symbol} (hs : s ∈ symbols) (hlt : a < s.address)
    (hinside : s.address.toNat < a.toNat + (settings.bodyAt a data).size) :
    Item.IsSplitBy ⟨a, label, settings.bodyAt a data⟩ s := by
  cases hbody : settings.bodyAt a data with
  | elided count =>
    have hle := ScanSettings.le_address_of_elided hanswers hbody hs hlt
    rw [hbody, ItemBody.size] at hinside
    omega
  | decoded bytes result =>
    rw [hbody] at hinside
    cases result with
    | ok i => exact ⟨hlt, hinside⟩
    | error e =>
      rw [ItemBody.size, decodedLength] at hinside
      rw [BitVec.lt_def] at hlt
      omega

section First

variable {lookup : SymbolLookup} {first : Item} {items : List Item}

/-- What holds of a first item and those behind it: an instruction in front hides what lies behind a
symbol inside it, and the others hide no less than without it. -/
theorem hidesNoSymbol_cons_iff (hbehind : ∀ item ∈ items, first.address < item.address) :
    HidesNoSymbol symbols (first :: items) ↔
      (∀ s ∈ symbols, first.IsSplitBy s → ∀ later ∈ items, s.address < later.address →
        ∀ s' ∈ symbols, s'.address ≠ later.address) ∧ HidesNoSymbol symbols items := by
  constructor
  · intro h
    refine ⟨fun s hs hsplit later hlater => ?_, fun item hitem s hs hsplit later hlater => ?_⟩
    · exact h first List.mem_cons_self s hs hsplit later (List.mem_cons_of_mem _ hlater)
    · exact h item (List.mem_cons_of_mem _ hitem) s hs hsplit later (List.mem_cons_of_mem _ hlater)
  · rintro ⟨hfirst, hrest⟩ item hitem s hs hsplit later hlater hlt
    have hinside := hsplit.inside.1
    rw [List.mem_cons] at hitem hlater
    rcases hlater with rfl | hlater
    · -- the first item lies before all symbols that lie inside items
      rcases hitem with rfl | hitem
      · exact absurd (BitVec.lt_trans hinside hlt) (BitVec.lt_irrefl _)
      · have hafter := hbehind item hitem
        exact absurd (BitVec.lt_trans (BitVec.lt_trans hafter hinside) hlt) (BitVec.lt_irrefl _)
    · rcases hitem with rfl | hitem
      · exact hfirst s hs hsplit later hlater hlt
      · exact hrest item hitem s hs hsplit later hlater hlt

theorem hidesNoSymbol_cons_of_unsplit (hbehind : ∀ item ∈ items, first.address < item.address)
    (hunsplit : ∀ s ∈ symbols, ¬ first.IsSplitBy s) :
    HidesNoSymbol symbols (first :: items) ↔ HidesNoSymbol symbols items := by
  rw [hidesNoSymbol_cons_iff hbehind]
  exact and_iff_right fun s hs hsplit => absurd hsplit (hunsplit s hs)

/-- If a symbol lies inside the first item and the items behind it have no labels, these are the
labels of their symbols exactly if no symbol is hidden. -/
theorem labelled_iff_of_isSplitBy (hanswers : lookup.Answers symbols) {t : Symbol}
    (ht : t ∈ symbols)
    (hsplit : first.IsSplitBy t) (hbehind : ∀ item ∈ items, t.address < item.address)
    (hunlabelled : ∀ item ∈ items, item.label = none) :
    (∀ item ∈ items, item.label = lookup.labelAt item.address) ↔
    HidesNoSymbol symbols (first :: items) := by
  rw [hidesNoSymbol_cons_iff fun item hitem => BitVec.lt_trans hsplit.inside.1 (hbehind item hitem)]
  constructor
  · -- then no symbol stands at the items that are left
    intro hlabelled
    have hvacant : ∀ item ∈ items, ∀ s ∈ symbols, s.address ≠ item.address := by
      intro item hitem s hs heq
      have hlabel := (hunlabelled item hitem).symm.trans (hlabelled item hitem)
      rw [← heq, hanswers.labelAt_address hs] at hlabel
      cases hlabel
    exact ⟨fun _ _ _ later hlater _ => hvacant later hlater,
      fun _ _ _ _ _ later hlater _ => hvacant later hlater⟩
  · rintro ⟨hfirst, -⟩ item hitem
    have hvacant := hfirst t ht hsplit item hitem (hbehind item hitem)
    rw [hunlabelled item hitem, hanswers.labelAt_eq_none hvacant]

end First

/-- If the labels behind the first item wait for the next symbol, the items behind it have the
labels of their symbols exactly if no item hides a symbol. -/
theorem labelled_tail_iff (hmore : settings.hasMore = false)
    (hanswers : settings.symbols.Answers symbols) (hend : a.toNat + data.length ≤ 2 ^ 64)
    (hlabels : (labels.take settings.symbols a).2 = ⟨none, settings.symbols.after? a⟩) :
    (∀ item ∈ (scan settings labels a data).items.tail,
      item.label = settings.symbols.labelAt item.address) ↔
      HidesNoSymbol symbols (scan settings labels a data).items := by
  induction hn : data.length using Nat.strongRecOn generalizing labels a data with
  | ind n ih =>
    subst hn
    by_cases hne : data = []
    · rw [hne, scan_nil]
      exact iff_of_true (List.forall_mem_nil _) hidesNoSymbol_nil
    · have hpos := settings.size_bodyAt_pos a data
      have hlen := List.length_pos_iff.mpr hne
      rw [scan_item hne (settings.front_of_not_hasMore hmore a data), hlabels, Scan.items_prepend,
        List.singleton_append, List.tail_cons]
      generalize hsize : (settings.bodyAt a data).size = size at *
      have hbehind : ∀ {labels} {item}, item ∈ (scan settings labels (a + BitVec.ofNat 64 size)
          (data.drop size)).items →
            a.toNat + size ≤ item.address.toNat := le_address_of_mem_scan_drop hend
      by_cases hrest : data.drop size = []
      · -- the first item is the only one
        rw [hrest, scan_nil, hidesNoSymbol_cons_iff (List.forall_mem_nil _)]
        exact iff_of_true (List.forall_mem_nil _)
          ⟨fun _ _ _ => List.forall_mem_nil _, hidesNoSymbol_nil⟩
      · have hshort : size < data.length := by
          rw [List.drop_eq_nil_iff] at hrest
          omega
        have haddress : (a + BitVec.ofNat 64 size).toNat = a.toNat + size :=
          toNat_add_ofNat (by omega)
        have hlength : (data.drop size).length = data.length - size := List.length_drop
        by_cases hfree : ∀ s ∈ symbols, a < s.address → a.toNat + size ≤ s.address.toNat
        · -- no symbol lies inside the first item: the next one is labelled as at a new start
          have hlt : a < a + BitVec.ofNat 64 size := by
            rw [BitVec.lt_def]
            omega
          have hahead : ∀ s ∈ symbols, a < s.address → a + BitVec.ofNat 64 size ≤ s.address := by
            intro s hs has
            rw [BitVec.le_def, haddress]
            exact hfree s hs has
          have htake := (Labels.take_after hanswers "" hlt hahead).trans
            (Labels.take_start_false hanswers "" _)
          have hend' : (a + BitVec.ofNat 64 size).toNat + (data.drop size).length ≤ 2 ^ 64 := by
            omega
          have htail := ih (data.drop size).length (by omega) hend' (congrArg Prod.snd htake) rfl
          rw [hidesNoSymbol_cons_of_unsplit, ← htail,
            scan_item hrest (settings.front_of_not_hasMore hmore _ _), htake, Scan.items_prepend,
            List.singleton_append, List.tail_cons, List.forall_mem_cons, and_iff_right rfl]
          · exact fun item hitem =>
              BitVec.lt_def.mpr (Nat.lt_of_lt_of_le (Nat.lt_add_of_pos_right hpos) (hbehind hitem))
          · intro s hs hsplit
            obtain ⟨hafter, hbefore⟩ := hsplit.inside
            have hle := hfree s hs hafter
            simp only [hsize] at hbefore
            omega
        · -- a symbol lies inside the first item, and the listing waits for it up to the end
          obtain ⟨s, hs, has, hinside⟩ : ∃ s ∈ symbols, a < s.address ∧
              s.address.toNat < a.toNat + size := by
            by_contra hnone
            exact hfree fun s hs has => Nat.le_of_not_lt fun hinside => hnone ⟨s, hs, has, hinside⟩
          obtain ⟨t, hnext, hat, hts⟩ := hanswers.stops a s hs has
          have ht := (hanswers.after_some hnext).1
          have hpassed : t.address.toNat < a.toNat + size := by
            rw [BitVec.le_def] at hts
            omega
          rw [hnext]
          apply labelled_iff_of_isSplitBy hanswers ht
          · exact ScanSettings.isSplitBy_bodyAt hanswers _ ht hat (hsize ▸ hpassed)
          · exact fun item hitem => BitVec.lt_def.mpr (Nat.lt_of_lt_of_le hpassed (hbehind hitem))
          · intro item hitem
            exact label_eq_none_of_passed (by rw [BitVec.lt_def]; omega) (by omega) hitem

/-! ### Labels that are due -/

/-- The label of a symbol comes before the heading of a section. -/
theorem Labels.heading_start {lookup : SymbolLookup} {label : Label}
    (h : lookup.labelAt a = some label)
    (name : String) (first : Bool) : (start lookup name first a).heading = some label := by
  unfold SymbolLookup.labelAt at h
  unfold start
  cases hfind : lookup.find? a with
  | none =>
    rw [hfind] at h
    cases h
  | some s =>
    rw [hfind] at h
    by_cases haddress : s.address = a
    · simpa only [if_pos haddress] using h
    · simp only [if_neg haddress] at h
      cases h

namespace Listing

variable {l : Listing} {first : Bool}

/-- The label that the item at an address should have: that of the symbol at the address, and at the
front of a section else its heading. -/
def dueLabel (l : Listing) (symbols : List Symbol) (first : Bool) (a : Address) : Option Label :=
  ((symbols.find? (·.address == a)).map fun s => ⟨s.name, 0⟩).or
    (if first && a == l.decoder.address then l.headingLabel true else none)

/-- The item with the label that it should have. -/
def withDueLabel (l : Listing) (symbols : List Symbol) (first : Bool) (item : Item) : Item :=
  { item with label := l.dueLabel symbols first item.address }

theorem dueLabel_eq (h : l.presentation.symbols.Answers symbols) (first : Bool) (a : Address) :
    l.dueLabel symbols first a = (l.presentation.symbols.labelAt a).or
      (if first && a == l.decoder.address then l.headingLabel true else none) := by
  have hfind : (symbols.find? (·.address == a)).map (fun s => (⟨s.name, 0⟩ : Label)) =
      l.presentation.symbols.labelAt a := by
    cases hfind : symbols.find? (·.address == a) with
    | none =>
      have hvacant : ∀ s ∈ symbols, s.address ≠ a := by simpa using hfind
      exact (h.labelAt_eq_none hvacant).symm
    | some s =>
      have haddress : s.address = a := by simpa using List.find?_some hfind
      rw [← haddress, h.labelAt_address (List.mem_of_find?_eq_some hfind), Option.map_some]
  rw [dueLabel, hfind]

/-- The first item has its label. -/
theorem headingLabel_eq_dueLabel (h : l.presentation.symbols.Answers symbols) (first : Bool) :
    l.headingLabel first = l.dueLabel symbols first l.decoder.address := by
  rw [dueLabel_eq h]
  cases first with
  | false => rw [headingLabel_false h, Bool.false_and, if_neg Bool.false_ne_true, Option.or_none]
  | true =>
    rw [beq_self_eq_true, Bool.true_and, if_pos rfl]
    cases hlabel : l.presentation.symbols.labelAt l.decoder.address with
    | none => rfl
    | some label =>
      rw [headingLabel, Labels.take, Labels.heading_start hlabel]
      rfl

theorem dueLabel_of_ne (h : l.presentation.symbols.Answers symbols) (first : Bool) {a : Address}
    (hne : a ≠ l.decoder.address) :
    l.dueLabel symbols first a = l.presentation.symbols.labelAt a := by
  rw [dueLabel_eq h, beq_false_of_ne hne, Bool.and_false, if_neg Bool.false_ne_true, Option.or_none]

/-- Where labels can only be missing, the text tells whether one is. -/
theorem text_withDueLabel_iff {items : List Item}
    (h : ∀ item ∈ items, item.label = l.dueLabel symbols first item.address ∨ item.label = none) :
    l.text items = l.text (items.map (l.withDueLabel symbols first)) ↔
      ∀ item ∈ items, item.label = l.dueLabel symbols first item.address := by
  induction items with
  | nil => exact iff_of_true rfl (List.forall_mem_nil _)
  | cons item items ih =>
    rw [List.forall_mem_cons] at h
    rw [List.map_cons, text_cons, text_cons, List.forall_mem_cons, ← ih h.2]
    by_cases hlabel : item.label = l.dueLabel symbols first item.address
    · have hitem : l.withDueLabel symbols first item = item := by rw [withDueLabel, ← hlabel]
      rw [hitem, String.append_right_inj, and_iff_right hlabel]
    · -- the text with the label starts with a line feed, and the other one does not
      have hnone := h.1.resolve_left hlabel
      obtain ⟨due, hdue⟩ : ∃ due, l.dueLabel symbols first item.address = some due := by
        rw [← Option.ne_none_iff_exists']
        exact fun hdue => hlabel (hnone.trans hdue.symm)
      obtain ⟨rest, htext⟩ : ∃ rest, l.itemText (l.withDueLabel symbols first item) =
          "\n" ++ rest :=
        exists_itemText_of_label hdue
      refine iff_of_false (fun heq => ?_) fun hboth => hlabel hboth.1
      rw [htext, String.append_assoc, itemText_of_label_none hnone] at heq
      exact ((opensAt_body ..).append _).ne_lineFeed _ heq

/-- The items of data are the first one and others, which have the labels of their symbols or
none. -/
theorem exists_items_eq (h : l.presentation.symbols.Answers symbols) (first : Bool)
    {data : List Byte} (hne : data ≠ []) (hend : l.decoder.address.toNat + data.length ≤ 2 ^ 64) :
    ∃ rest, (l.scan first false data).items = l.itemAt first data :: rest ∧
      ∀ item ∈ rest, item.address ≠ l.decoder.address ∧
        (item.label = l.presentation.symbols.labelAt item.address ∨ item.label = none) := by
  have hfront := (l.settings false).front_of_not_hasMore rfl l.decoder.address data
  have hlabels := Labels.take_start_snd h l.sectionName first l.decoder.address
  have hscan : l.scan first false data =
      (LengthDisasm.scan (l.settings false)
        ((Labels.start l.presentation.symbols l.sectionName first l.decoder.address).take
          l.presentation.symbols l.decoder.address).2
        (l.decoder.address + BitVec.ofNat 64 (l.itemAt first data).body.size)
        (data.drop (l.itemAt first data).body.size)).prepend [l.itemAt first data] :=
    LengthDisasm.scan_item hne hfront
  rw [hlabels] at hscan
  refine ⟨_, congrArg Scan.items hscan, fun item hitem => ⟨fun heq => ?_, ?_⟩⟩
  · have hpos : 0 < (l.itemAt first data).body.size :=
      (l.settings false).size_bodyAt_pos l.decoder.address data
    have hle := le_address_of_mem_scan_drop hend hitem
    rw [heq] at hle
    omega
  · exact label_eq_or_none h (fun s hs => (h.after_some hs).1) hitem

/-- The items of a listing have no labels but those that are due, and have them all exactly if no
symbol is hidden. -/
theorem labels_scan (h : l.presentation.symbols.Answers symbols) (first : Bool) {data : List Byte}
    (hend : l.decoder.address.toNat + data.length ≤ 2 ^ 64) :
    (∀ item ∈ (l.scan first false data).items,
      item.label = l.dueLabel symbols first item.address ∨ item.label = none) ∧
    ((∀ item ∈ (l.scan first false data).items,
      item.label = l.dueLabel symbols first item.address) ↔
      HidesNoSymbol symbols (l.scan first false data).items) := by
  by_cases hne : data = []
  · rw [hne, scan_nil]
    exact ⟨List.forall_mem_nil _, iff_of_true (List.forall_mem_nil _) hidesNoSymbol_nil⟩
  · obtain ⟨rest, hitems, hrest⟩ := exists_items_eq h first hne hend
    have hlabels := Labels.take_start_snd h l.sectionName first l.decoder.address
    have htail : (∀ item ∈ (l.scan first false data).items.tail,
          item.label = l.presentation.symbols.labelAt item.address) ↔
        HidesNoSymbol symbols (l.scan first false data).items :=
      labelled_tail_iff rfl h hend hlabels
    rw [hitems, List.tail_cons] at htail
    rw [hitems, ← htail]
    -- the first item always has its label, and at the others a label is due only for a symbol
    have hfirst :
        (l.itemAt first data).label = l.dueLabel symbols first (l.itemAt first data).address :=
      headingLabel_eq_dueLabel h first
    have hdue : ∀ item ∈ rest, l.dueLabel symbols first item.address =
        l.presentation.symbols.labelAt item.address := fun item hitem =>
      dueLabel_of_ne h first (hrest item hitem).1
    constructor
    · intro item hitem
      rcases List.mem_cons.mp hitem with rfl | hitem
      · exact .inl hfirst
      · rw [hdue item hitem]
        exact (hrest item hitem).2
    · rw [List.forall_mem_cons, and_iff_right hfirst]
      exact forall₂_congr fun item hitem => by rw [hdue item hitem]

end Listing

/-- A listing prints no label but those that are due: that of the symbol at the address of an item,
and the heading of a section. It prints all of them exactly if no item that starts at a symbol lies
behind an instruction with a symbol inside. -/
theorem print_due_labels_iff (l : Listing) (t : SymbolTable) (first : Bool) (data : List Byte)
    (hsymbols : l.presentation.symbols = t.sorted.lookup)
    (hdistinct : (t.pushed.map Symbol.address).Nodup)
    (hend : l.decoder.address.toNat + data.length < 2 ^ 64) :
    (∀ item ∈ (l.scan first false data).items,
      item.label = l.dueLabel t.pushed first item.address ∨ item.label = none) ∧
    ((l.print first data).1 =
        l.text ((l.scan first false data).items.map (l.withDueLabel t.pushed first)) ↔
      ∀ item ∈ (l.scan first false data).items, ∀ s ∈ t.pushed, item.IsSplitBy s →
        ∀ later ∈ (l.scan first false data).items, s.address < later.address →
          ∀ s' ∈ t.pushed, s'.address ≠ later.address) := by
  have hanswers : l.presentation.symbols.Answers t.pushed :=
    hsymbols ▸ SymbolTable.answers_lookup hdistinct
  obtain ⟨hdue, hlabels⟩ := Listing.labels_scan hanswers first (Nat.le_of_lt hend)
  exact ⟨hdue, (Listing.text_withDueLabel_iff hdue).trans hlabels⟩

/-- Two symbols, of which the second stands inside the first instruction of `splitData`. -/
def innerTable : SymbolTable := ⟨[⟨0x1000, "main"⟩, ⟨0x1002, "inner"⟩]⟩

/-- These symbols, and one at the second instruction. -/
def splitTable : SymbolTable := innerTable.push ⟨0x1003, "next"⟩

/-- A listing of code with given symbols. -/
def splitListing (t : SymbolTable) : Listing :=
  ⟨⟨.long64, 0x1000, .default⟩, ⟨.plain, t.sorted.lookup, id⟩, ".text"⟩

/-- A move of three bytes and a return. -/
def splitData : List Byte := [0x48, 0x89, 0xe5, 0xc3]

/-- A symbol inside the first instruction and none at the second one: all labels that are due are
printed. -/
theorem print_due_labels_iff_inner :
    ((splitListing innerTable).print true splitData).1 =
      (splitListing innerTable).text
        (((splitListing innerTable).scan true false splitData).items.map
        ((splitListing innerTable).withDueLabel innerTable.pushed true)) := by
  have hsorted : innerTable.sorted = innerTable.pushed := by
    simp [innerTable, SymbolTable.sorted, List.mergeSort]
  refine (print_due_labels_iff (splitListing innerTable) innerTable true splitData rfl (by decide)
    (by decide)).2.mpr ?_
  rw [splitListing, hsorted]
  decide +kernel

/-- A symbol inside the first instruction, and one at the second: its label is due and is not
printed. -/
theorem print_omits_label_behind_split :
    (splitTable.pushed.map Symbol.address).Nodup ∧
      (splitListing splitTable).decoder.address.toNat + splitData.length < 2 ^ 64 ∧
      ((splitListing splitTable).scan true false splitData).items.map
          (fun item => (item.address, item.label)) =
        [(0x1000, some ⟨"main", 0⟩), (0x1003, none)] ∧
      (splitListing splitTable).dueLabel splitTable.pushed true 0x1003 = some ⟨"next", 0⟩ ∧
      ((splitListing splitTable).print true splitData).1 ≠ (splitListing splitTable).text
        (((splitListing splitTable).scan true false splitData).items.map
          ((splitListing splitTable).withDueLabel splitTable.pushed true)) := by
  have hsorted : splitTable.sorted = splitTable.pushed := by
    simp [splitTable, innerTable, SymbolTable.push, SymbolTable.sorted, List.mergeSort]
  rw [splitListing, hsorted]
  decide +kernel

end LengthDisasm
