import LengthDisasm.Proofs.CutItems
import LengthDisasm.Proofs.Divergence

/-!
# Listing data in blocks

The blocks of data are listed one by one, each as if nothing followed it. Together they give the
listing of all data exactly if every item survives the cut at the end of its block.

## Main definitions

* `OpensAt`, `ResumesAt` — how a listing starts, and how it goes on behind a skipped run
* `Listing.SharesFirst` — data and its first bytes are listed with the same first item
* `Listing.KeepsIn` — the items that start in given bytes survive a cut behind the bytes

## Main results

* `Listing.scan_of_keepsIn` — bytes that keep their items are listed as in the whole data
* `Listing.print_ne_of_not_keepsIn` — otherwise the texts differ, whatever is listed behind the cut
* `Blocks.text_cutFrom_eq_iff` — blocks give the listing of all data exactly if they keep its items
-/

namespace LengthDisasm

open Text Presentation

/-! ### How a listing starts and goes on -/

/-- A text starts as the listing of an address without a label does. -/
def OpensAt (a : Address) (s : String) : Prop :=
  (∃ rest, s = "\t...\n" ++ rest) ∨ ∃ rest, s = margin a a ++ rest

/-- A text starts as a listing can go on behind a skipped run: with nothing, a label or a line. -/
def ResumesAt (a : Address) (s : String) : Prop :=
  s = "" ∨ (∃ rest, s = "\n" ++ rest) ∨ ∃ rest, s = margin a a ++ rest

theorem OpensAt.append {a : Address} {s : String} (h : OpensAt a s) (t : String) :
    OpensAt a (s ++ t) := by
  rcases h with ⟨rest, rfl⟩ | ⟨rest, rfl⟩
  · exact .inl ⟨rest ++ t, String.append_assoc⟩
  · exact .inr ⟨rest ++ t, String.append_assoc⟩

theorem OpensAt.ne_empty {a : Address} {s : String} (h : OpensAt a s) : s ≠ "" := by
  intro hempty
  rcases h with ⟨rest, rfl⟩ | ⟨rest, rfl⟩
  · have hhead := congrArg (fun s : String => s.toList.head?) hempty
    simp at hhead
  · obtain ⟨c, hhead, -⟩ := head?_margin a a rest.toList
    rw [← String.toList_append, hempty] at hhead
    cases hhead

/-- What starts without a label differs from what starts with one, and so with a line feed. -/
theorem OpensAt.ne_lineFeed {a : Address} {s : String} (h : OpensAt a s) (t : String) :
    s ≠ "\n" ++ t := by
  have hline : ("\n" : String).toList.head? = some '\n' := by decide
  have hmarks : Parts "\t...\n" "\n" :=
    Parts.of_toList List.head? (by decide : some '\t' ≠ some '\n') (fun _ => rfl) fun _ => rfl
  rcases h with ⟨u, rfl⟩ | ⟨u, rfl⟩
  · exact hmarks u t
  · exact (parts_margin_of_head? hline (.inr rfl) a).symm u t

theorem OpensAt.ne_of_resumesAt {a b : Address} {s t : String} (hs : OpensAt a s)
    (ht : ResumesAt b t) (hab : a ≠ b) : s ≠ t := by
  have htab : ("\t...\n" : String).toList.head? = some '\t' := by decide
  rcases ht with rfl | ⟨v, rfl⟩ | ⟨v, rfl⟩
  · exact hs.ne_empty
  · exact hs.ne_lineFeed v
  · rcases hs with ⟨u, rfl⟩ | ⟨u, rfl⟩
    · exact parts_margin_of_head? htab (.inl rfl) b u v
    · exact parts_margin hab u v

theorem opensAt_body (p : Presentation) (showRaw : Bool) (a : Address) (body : ItemBody) :
    OpensAt a (p.body showRaw a body) := by
  cases body with
  | elided count => exact .inl ⟨"", rfl⟩
  | decoded bytes result => exact .inr (p.exists_body_decoded showRaw a bytes result)

namespace Listing

variable {l : Listing} {symbols : List Symbol} {first : Bool} {data bytes more : List Byte}

/-- The text of one item. -/
def itemText (l : Listing) (item : Item) : String :=
  l.presentation.item l.decoder.mode l.decoder.options.showRaw item

theorem text_cons (l : Listing) (item : Item) (items : List Item) :
    l.text (item :: items) = l.itemText item ++ l.text items := by
  rw [text, List.map_cons, String.join_cons]
  rfl

/-- The text of data starts with its first item. -/
theorem exists_print_eq (l : Listing) (first : Bool) (hne : data ≠ []) :
    ∃ rest, (l.print first data).1 = l.itemText (l.itemAt first data) ++ rest := by
  have hfront := (l.settings false).front_of_not_hasMore rfl l.decoder.address data
  obtain ⟨labels, hscan⟩ := exists_scan_item first hne hfront
  rw [print, hscan, Scan.items_prepend, List.singleton_append, text_cons]
  exact ⟨_, rfl⟩

theorem headingLabel_false (h : l.presentation.symbols.Answers symbols) :
    l.headingLabel false = l.presentation.symbols.labelAt l.decoder.address :=
  congrArg Prod.fst (Labels.take_start_false h l.sectionName l.decoder.address)

theorem itemText_of_label_none {item : Item} (h : item.label = none) :
    l.itemText item = l.presentation.body l.decoder.options.showRaw item.address item.body := by
  rw [itemText, Presentation.item, h, String.empty_append]

theorem exists_itemText_of_label {item : Item} {label : Label} (h : item.label = some label) :
    ∃ rest, l.itemText item = "\n" ++ rest := by
  rw [itemText, Presentation.item, h]
  simp only [Presentation.label, String.append_assoc]
  exact ⟨_, rfl⟩

/-- Where no symbol stands, a listing that does not start a section starts without a label. -/
theorem opensAt_print (h : l.presentation.symbols.Answers symbols) (hne : data ≠ [])
    (hsymbol : ∀ s ∈ symbols, s.address ≠ l.decoder.address) :
    OpensAt l.decoder.address (l.print false data).1 := by
  obtain ⟨rest, htext⟩ := l.exists_print_eq false hne
  have hlabel : (l.itemAt false data).label = none :=
    (headingLabel_false h).trans (h.labelAt_eq_none hsymbol)
  rw [htext, itemText_of_label_none hlabel]
  exact (opensAt_body ..).append rest

/-- Behind a skipped run a listing goes on with nothing, a label or a line. -/
theorem resumesAt_print (h : l.presentation.symbols.Answers symbols)
    (hend : l.decoder.address.toNat + data.length ≤ 2 ^ 64) {count : Nat}
    (hbody : (l.settings false).bodyAt l.decoder.address data = .elided count) :
    ResumesAt (l.skip count).decoder.address ((l.skip count).print false (data.drop count)).1 := by
  by_cases hrest : data.drop count = []
  · refine .inl ?_
    rw [hrest, print, scan_nil]
    rfl
  · have hlength : count < data.length := by
      rw [List.drop_eq_nil_iff] at hrest
      omega
    obtain ⟨rest, htext⟩ := (l.skip count).exists_print_eq false hrest
    rw [htext]
    cases hlabel : ((l.skip count).itemAt false (data.drop count)).label with
    | some label =>
      obtain ⟨line, hline⟩ := exists_itemText_of_label hlabel
      exact .inr (.inl ⟨line ++ rest, by rw [hline, String.append_assoc]⟩)
    | none =>
      -- no label, so no symbol ended the run, and what follows is not a run again
      have hnone : l.presentation.symbols.labelAt (l.skip count).decoder.address = none := by
        have hskip : (l.skip count).presentation.symbols.Answers symbols := h
        exact (headingLabel_false hskip).symm.trans hlabel
      have hsymbol : ∀ s ∈ symbols, s.address ≠ (l.skip count).decoder.address := by
        intro s hs heq
        rw [← heq, h.labelAt_address hs] at hnone
        cases hnone
      rw [itemText_of_label_none hlabel]
      cases hnext : ((l.skip count).itemAt false (data.drop count)).body with
      | elided n => exact absurd hnext (bodyAt_after_elided h hbody (by omega) hsymbol)
      | decoded b result =>
        obtain ⟨line, hline⟩ := (l.skip count).presentation.exists_body_decoded
          (l.skip count).decoder.options.showRaw (l.skip count).decoder.address b result
        exact .inr (.inr ⟨line ++ rest, by rw [← String.append_assoc, ← hline]; rfl⟩)

/-! ### One item before a cut -/

theorem toNat_skip (l : Listing) {n : Nat} (h : l.decoder.address.toNat + n < 2 ^ 64) :
    (l.skip n).decoder.address.toNat = l.decoder.address.toNat + n :=
  toNat_add_ofNat h

/-- The text of data that starts with a skipped run is its mark and the text of what follows. -/
theorem print_eq_of_elided (h : l.presentation.symbols.Answers symbols) (hne : data ≠ [])
    (hend : l.decoder.address.toNat + data.length ≤ 2 ^ 64) {count : Nat}
    (hbody : (l.settings false).bodyAt l.decoder.address data = .elided count) :
    (l.print first data).1 = l.itemText ⟨l.decoder.address, l.headingLabel first, .elided count⟩ ++
      ((l.skip count).print false (data.drop count)).1 := by
  have hfront := (l.settings false).front_of_not_hasMore rfl l.decoder.address data
  rw [hbody] at hfront
  have hfree : ∀ s ∈ symbols, l.decoder.address < s.address →
      l.decoder.address.toNat + count ≤ s.address.toNat := fun s hs hlt =>
    ScanSettings.le_address_of_elided h hbody hs hlt
  rw [print, scan_item_of_free h hne hfront hend hfree, Scan.items_prepend, List.singleton_append,
    text_cons]
  rfl

theorem parts_itemText {a : Address} {label : Option Label} {body body' : ItemBody}
    (h : Parts (l.presentation.body l.decoder.options.showRaw a body)
      (l.presentation.body l.decoder.options.showRaw a body')) :
    Parts (l.itemText ⟨a, label, body⟩) (l.itemText ⟨a, label, body'⟩) :=
  h.append_left _

/-- A listing from inside some bytes on starts without a label if no symbol stands there. -/
theorem opensAt_print_append (h : l.presentation.symbols.Answers symbols) {n : Nat}
    (hn : n ≤ bytes.length) (hsymbol : ∀ s ∈ symbols, s.address ≠ (l.skip n).decoder.address)
    {others : String}
    (hothers : (∀ s ∈ symbols, s.address ≠ (l.skip bytes.length).decoder.address) →
      OpensAt (l.skip bytes.length).decoder.address others) :
    OpensAt (l.skip n).decoder.address (((l.skip n).print false (bytes.drop n)).1 ++ others) := by
  by_cases hrest : bytes.drop n = []
  · have hlength : n = bytes.length := by
      rw [List.drop_eq_nil_iff] at hrest
      omega
    have hempty : ((l.skip n).print false (bytes.drop n)).1 = "" := by
      rw [hrest, print, scan_nil]
      rfl
    rw [hempty, String.empty_append, hlength]
    exact hothers (hlength ▸ hsymbol)
  · have hskip : (l.skip n).presentation.symbols.Answers symbols := h
    exact (opensAt_print hskip hrest hsymbol).append others

/-- Texts differ from the first item on if the bodies of their first items part. -/
theorem print_ne_of_parts (first : Bool) (more : List Byte) (others : String) (hne : bytes ≠ [])
    {body body' : ItemBody} (hpart : (l.settings false).bodyAt l.decoder.address bytes = body)
    (hwhole : (l.settings false).bodyAt l.decoder.address (bytes ++ more) = body')
    (h : Parts (l.presentation.body l.decoder.options.showRaw l.decoder.address body)
      (l.presentation.body l.decoder.options.showRaw l.decoder.address body')) :
    (l.print first bytes).1 ++ others ≠ (l.print first (bytes ++ more)).1 := by
  subst hpart hwhole
  obtain ⟨rest, hrest⟩ := l.exists_print_eq first hne
  obtain ⟨rest', hrest'⟩ := l.exists_print_eq first (List.append_ne_nil_of_left_ne_nil hne more)
  rw [hrest, hrest', String.append_assoc]
  exact parts_itemText h _ _

/-- If a run that is skipped as a whole is skipped in part before a cut, the texts part behind
it. -/
theorem print_ne_of_elided (h : l.Fits symbols first (bytes ++ more)) (hne : bytes ≠ [])
    {n count : Nat} (hpart : (l.settings false).bodyAt l.decoder.address bytes = .elided n)
    (hwhole : (l.settings false).bodyAt l.decoder.address (bytes ++ more) = .elided count)
    (hcross : bytes.length < count) {others : String}
    (hothers : more ≠ [] → (∀ s ∈ symbols, s.address ≠ (l.skip bytes.length).decoder.address) →
      OpensAt (l.skip bytes.length).decoder.address others) :
    (l.print first bytes).1 ++ others ≠ (l.print first (bytes ++ more)).1 := by
  have hne' : bytes ++ more ≠ [] := List.append_ne_nil_of_left_ne_nil hne more
  have hpos := (l.settings false).size_bodyAt_pos l.decoder.address bytes
  have hn := (l.settings false).size_bodyAt_le l.decoder.address hne
  have hcount := (l.settings false).size_bodyAt_le l.decoder.address hne'
  have hend := h.end_le
  rw [hpart, ItemBody.size] at hpos hn
  rw [hwhole, ItemBody.size] at hcount
  rw [print_eq_of_elided h.answers hne' hend hwhole]
  rw [List.length_append] at hend hcount
  rw [print_eq_of_elided h.answers hne (by omega) hpart, String.append_assoc]
  -- no symbol stands inside the run, so before the cut the listing goes on without a label
  have hopens : OpensAt (l.skip n).decoder.address
      (((l.skip n).print false (bytes.drop n)).1 ++ others) := by
    refine opensAt_print_append h.answers hn (fun s hs haddress => ?_) (hothers ?_)
    · have hlt : l.decoder.address < s.address := by
        rw [haddress, BitVec.lt_def, l.toNat_skip (by omega)]
        omega
      have hle := ScanSettings.le_address_of_elided h.answers hwhole hs hlt
      rw [haddress, l.toNat_skip (by omega)] at hle
      omega
    · rintro rfl
      rw [List.length_nil] at hcount
      omega
  have hresumes := resumesAt_print h.answers h.end_le hwhole
  have haddress : (l.skip n).decoder.address ≠ (l.skip count).decoder.address := by
    intro heq
    have hnat := congrArg BitVec.toNat heq
    rw [l.toNat_skip (by omega)] at hnat
    simp only [skip, moveTo, BitVec.toNat_add, BitVec.toNat_ofNat] at hnat
    omega
  exact fun heq => hopens.ne_of_resumesAt hresumes haddress ((String.append_right_inj _).mp heq)

/-- An item of the listing keeps its body if the data is cut after `bytes`, which start with the
item. -/
def Keeps (l : Listing) (symbols : List Symbol) (bytes : List Byte) (item : Item) : Prop :=
  item.Survives l.decoder.mode l.decoder.options.decodeZeroes symbols bytes

/-- An item that does not survive a cut is listed differently, and what is listed behind the cut
does not make up for it. -/
theorem print_ne_of_not_keeps (h : l.Fits symbols first (bytes ++ more)) (hne : bytes ≠ [])
    (hcut : IsBoundary l.decoder.mode (bytes ++ more) bytes.length)
    (hitem : ¬ l.Keeps symbols bytes (l.itemAt first (bytes ++ more))) {others : String}
    (hothers : more ≠ [] → (∀ s ∈ symbols, s.address ≠ (l.skip bytes.length).decoder.address) →
      OpensAt (l.skip bytes.length).decoder.address others) :
    (l.print first bytes).1 ++ others ≠ (l.print first (bytes ++ more)).1 := by
  rcases bodyAt_of_not_survives h.answers hne hcut hitem with
    ⟨b, e, he, hwhole, hpart⟩ | ⟨b, i, count, hwhole, hpart⟩ | ⟨count, hwhole, hcross⟩
  · exact print_ne_of_parts first more others hne hpart hwhole
      (parts_body_error _ _ _ _ (Ne.symm he))
  · exact print_ne_of_parts first more others hne hpart hwhole
      (parts_body_elided_decoded _ _ _ _ _ _)
  · cases hpart : (l.settings false).bodyAt l.decoder.address bytes with
    | decoded b result =>
      exact print_ne_of_parts first more others hne hpart hwhole
        (parts_body_elided_decoded _ _ _ _ _ _).symm
    | elided n => exact print_ne_of_elided h hne hpart hwhole hcross hothers

/-- The listing of data and that of its first bytes start with the same item of size `n` and go on
at the same place. -/
structure SharesFirst (l : Listing) (symbols : List Symbol) (first : Bool) (bytes more : List Byte)
    (n : Nat) : Prop where
  pos : 0 < n
  le : n ≤ bytes.length
  whole : l.scan first false (bytes ++ more) =
    ((l.skip n).scan false false (bytes.drop n ++ more)).prepend [l.itemAt first (bytes ++ more)]
  part : l.scan first false bytes =
    ((l.skip n).scan false false (bytes.drop n)).prepend [l.itemAt first (bytes ++ more)]
  fits : (l.skip n).Fits symbols false (bytes.drop n ++ more)
  cut : IsBoundary (l.skip n).decoder.mode (bytes.drop n ++ more) (bytes.drop n).length

/-- An item that survives a cut is the first item before the cut, too. -/
theorem sharesFirst_of_keeps (h : l.Fits symbols first (bytes ++ more)) (hne : bytes ≠ [])
    (hcut : IsBoundary l.decoder.mode (bytes ++ more) bytes.length)
    (hitem : l.Keeps symbols bytes (l.itemAt first (bytes ++ more))) :
    ∃ n, l.SharesFirst symbols first bytes more n := by
  have hne' : bytes ++ more ≠ [] := List.append_ne_nil_of_left_ne_nil hne more
  have hbody : (l.itemAt first bytes).body = (l.itemAt first (bytes ++ more)).body :=
    bodyAt_of_survives h.answers hne hcut hitem
  have hsame : l.itemAt first bytes = l.itemAt first (bytes ++ more) := congrArg (Item.mk _ _) hbody
  have hle : (l.itemAt first (bytes ++ more)).body.size ≤ bytes.length := by
    rw [← hbody]
    exact (l.settings false).size_bodyAt_le l.decoder.address hne
  have hend := h.end_le
  rw [List.length_append] at hend
  refine ⟨(l.itemAt first (bytes ++ more)).body.size, ?_, hle, ?_, ?_, ?_, ?_⟩
  · exact (l.settings false).size_bodyAt_pos l.decoder.address (bytes ++ more)
  · rw [← List.drop_append_of_le_length hle]
    exact h.scan_eq hne'
  · have hfront := (l.settings false).front_of_not_hasMore rfl l.decoder.address bytes
    have hfree : ∀ s ∈ symbols, l.decoder.address < s.address →
        l.decoder.address.toNat + (l.itemAt first bytes).body.size ≤ s.address.toNat := by
      rw [hbody]
      exact fun s hs hlt => h.le_address hne' hs hlt
    rw [← hbody, ← hsame]
    exact scan_item_of_free h.answers hne hfront (by omega) hfree
  · rw [← List.drop_append_of_le_length hle]
    exact h.tail hne'
  · rw [← List.drop_append_of_le_length hle, List.length_drop]
    exact (isBoundary_bodyAt (l.settings false) l.decoder.address hne').drop hcut hle

/-! ### All items before a cut -/

theorem skip_zero (l : Listing) : l.skip 0 = l := by
  simp [skip, moveTo]

theorem skip_skip (l : Listing) (m n : Nat) : (l.skip m).skip n = l.skip (m + n) := by
  simp only [skip, moveTo, BitVec.ofNat_add, BitVec.add_assoc]

/-- The items among the given ones that start in `bytes`, which stand at the address of the listing,
survive a cut behind the bytes. -/
def KeepsIn (l : Listing) (symbols : List Symbol) (items : List Item) (bytes : List Byte) : Prop :=
  ∀ item ∈ items, ∀ k < bytes.length, item.address.toNat = l.decoder.address.toNat + k →
    l.Keeps symbols (bytes.drop k) item

/-- Bytes keep their items if they keep the first one and the bytes behind it keep the others. -/
theorem SharesFirst.keepsIn_iff {n : Nat} (hshares : l.SharesFirst symbols first bytes more n)
    (h : l.Fits symbols first (bytes ++ more)) :
    l.KeepsIn symbols (l.scan first false (bytes ++ more)).items bytes ↔
      l.Keeps symbols bytes (l.itemAt first (bytes ++ more)) ∧
        (l.skip n).KeepsIn symbols ((l.skip n).scan false false (bytes.drop n ++ more)).items
          (bytes.drop n) := by
  have hpos := hshares.pos
  have hle := hshares.le
  have hend := h.end_le
  rw [List.length_append] at hend
  rw [hshares.whole, Scan.items_prepend, List.singleton_append]
  constructor
  · intro hkeeps
    refine ⟨hkeeps _ List.mem_cons_self 0 (by omega) rfl, fun item hitem k hk haddress => ?_⟩
    rw [List.length_drop] at hk
    rw [l.toNat_skip (by omega), Nat.add_assoc] at haddress
    have hkept := hkeeps item (List.mem_cons_of_mem _ hitem) (n + k) (by omega) haddress
    rwa [← List.drop_drop] at hkept
  · rintro ⟨hhead, htail⟩ item hitem k hk haddress
    rcases List.mem_cons.mp hitem with rfl | hitem
    · have hself : l.decoder.address.toNat = l.decoder.address.toNat + k := haddress
      have hzero : k = 0 := by omega
      rw [hzero]
      exact hhead
    · have hbounds := address_of_mem_scan hshares.fits.end_le hitem
      rw [List.length_append, List.length_drop] at hbounds
      have hskip : (l.skip n).decoder.address.toNat = l.decoder.address.toNat + n := by
        refine l.toNat_skip ?_
        omega
      have hkept := htail item hitem (k - n) (by rw [List.length_drop]; omega) (by omega)
      rwa [List.drop_drop, Nat.add_sub_cancel' (by omega)] at hkept

/-- Bytes that keep their items are listed as in the whole data, and the whole listing goes on with
that of the data behind them. -/
theorem scan_of_keepsIn (h : l.Fits symbols first (bytes ++ more))
    (hcut : IsBoundary l.decoder.mode (bytes ++ more) bytes.length)
    (hkeeps : l.KeepsIn symbols (l.scan first false (bytes ++ more)).items bytes) :
    l.scan first false (bytes ++ more) =
        ((l.skip bytes.length).scan (first && bytes.isEmpty) false more).prepend
          (l.scan first false bytes).items ∧
      (l.skip bytes.length).Fits symbols (first && bytes.isEmpty) more := by
  -- on the bytes before the cut, which lose their first item in a step
  induction hn : bytes.length using Nat.strongRecOn generalizing l first bytes with
  | ind n ih =>
    by_cases hne : bytes = []
    · subst hne
      rw [← hn, List.length_nil, skip_zero, scan_nil, List.isEmpty_nil, Bool.and_true]
      exact ⟨rfl, h⟩
    · have hhead : l.Keeps symbols bytes (l.itemAt first (bytes ++ more)) := by
        refine hkeeps _ ?_ 0 (List.length_pos_iff.mpr hne) rfl
        rw [h.scan_eq (List.append_ne_nil_of_left_ne_nil hne more)]
        exact List.mem_cons_self
      obtain ⟨m, hshares⟩ := sharesFirst_of_keeps h hne hcut hhead
      have hpos := hshares.pos
      have hle := hshares.le
      have hlength : (bytes.drop m).length < n := by
        rw [List.length_drop]
        omega
      obtain ⟨hscan, hfits⟩ := ih _ hlength hshares.fits hshares.cut
        ((hshares.keepsIn_iff h).mp hkeeps).2 rfl
      rw [List.length_drop, skip_skip, hn, Nat.add_sub_cancel' (by omega),
        Bool.false_and] at hscan hfits
      have hsome : bytes.isEmpty = false := by simpa using hne
      rw [hsome, Bool.and_false]
      refine ⟨?_, hfits⟩
      rw [hshares.whole, hshares.part, hscan, Scan.prepend_prepend]
      rfl

/-- Bytes that do not keep all their items are not listed as in the whole data, whatever is listed
behind them. -/
theorem print_ne_of_not_keepsIn (h : l.Fits symbols first (bytes ++ more))
    (hcut : IsBoundary l.decoder.mode (bytes ++ more) bytes.length)
    (hkeeps : ¬ l.KeepsIn symbols (l.scan first false (bytes ++ more)).items bytes)
    {others : String}
    (hothers : more ≠ [] → (∀ s ∈ symbols, s.address ≠ (l.skip bytes.length).decoder.address) →
      OpensAt (l.skip bytes.length).decoder.address others) :
    (l.print first bytes).1 ++ others ≠ (l.print first (bytes ++ more)).1 := by
  induction hn : bytes.length using Nat.strongRecOn generalizing l first bytes with
  | ind n ih =>
    by_cases hne : bytes = []
    · subst hne
      exact absurd (fun item _ k hk => absurd hk (Nat.not_lt_zero k)) hkeeps
    · by_cases hhead : l.Keeps symbols bytes (l.itemAt first (bytes ++ more))
      · obtain ⟨m, hshares⟩ := sharesFirst_of_keeps h hne hcut hhead
        have hpos := hshares.pos
        have hle := hshares.le
        have hlength : (bytes.drop m).length < n := by
          rw [List.length_drop]
          omega
        have hskip : (l.skip m).skip (bytes.drop m).length = l.skip bytes.length := by
          rw [skip_skip, List.length_drop, Nat.add_sub_cancel' hle]
        have htail := ih _ hlength hshares.fits hshares.cut
          (fun htail => hkeeps ((hshares.keepsIn_iff h).mpr ⟨hhead, htail⟩)) (hskip ▸ hothers) rfl
        -- the first item is the same in both texts
        simp only [print, hshares.whole, hshares.part, Scan.items_prepend, List.singleton_append,
          text_cons, String.append_assoc]
        exact fun heq => htail ((String.append_right_inj _).mp heq)
      · exact print_ne_of_not_keeps h hne hcut hhead hothers

end Listing

/-! ### All blocks -/

namespace Blocks

variable {l : Listing} {symbols : List Symbol} {blockSize offset : Nat} {data : List Byte}

theorem blockText_eq (l : Listing) (b : Block) :
    blockText l b = ((l.skip b.offset).print (b.offset == 0) b.bytes).1 := rfl

theorem text_cons (l : Listing) (b : Block) (blocks : List Block) :
    text l (b :: blocks) = blockText l b ++ text l blocks := by
  rw [text, List.map_cons, String.join_cons, text]

/-- Data that is cut completely has a first block, which ends at a boundary. -/
theorem exists_cutFrom_eq {d : Decoder} (hne : data ≠ [])
    (hcomplete : (cutFrom d blockSize offset data).complete = true) :
    ∃ n, 0 < n ∧ n ≤ data.length ∧ IsBoundary d.mode data n ∧
      (cutFrom d blockSize (offset + n) (data.drop n)).complete = true ∧
      (cutFrom d blockSize offset data).blocks =
        ⟨offset, data.take n⟩ :: (cutFrom d blockSize (offset + n) (data.drop n)).blocks := by
  cases hn : length? d blockSize data with
  | none =>
    rw [cutFrom_of_none hne hn] at hcomplete
    cases hcomplete
  | some n =>
    rw [cutFrom_of_some hne hn] at hcomplete ⊢
    obtain ⟨hle, hboundary⟩ := isBoundary_of_lengthWithin hn
    exact ⟨n, lengthWithin_pos hne hn, hle, hboundary, hcomplete, rfl⟩

theorem le_offset_of_mem_cutFrom {d : Decoder} {b : Block}
    (h : b ∈ (cutFrom d blockSize offset data).blocks) : offset ≤ b.offset := by
  fun_induction cutFrom d blockSize offset data with
  | case1 offset => cases h
  | case2 offset data hne hlen => cases h
  | case3 offset data hne n hlen others ih =>
    rcases List.mem_cons.mp h with rfl | h
    · exact Nat.le_refl _
    · have hle := ih h
      omega

/-- The listing of some blocks starts without a label if no symbol stands at their front. -/
theorem opensAt_text (h : l.presentation.symbols.Answers symbols) (hoffset : 0 < offset)
    (hne : data ≠ []) (hcomplete : (cutFrom l.decoder blockSize offset data).complete = true)
    (hsymbol : ∀ s ∈ symbols, s.address ≠ (l.skip offset).decoder.address) :
    OpensAt (l.skip offset).decoder.address
      (text l (cutFrom l.decoder blockSize offset data).blocks) := by
  obtain ⟨n, hpos, hle, -, -, hblocks⟩ := exists_cutFrom_eq hne hcomplete
  have hskip : (l.skip offset).presentation.symbols.Answers symbols := h
  have htake : data.take n ≠ [] := by
    rw [Ne, List.take_eq_nil_iff]
    rintro (rfl | hnil)
    · omega
    · exact hne hnil
  have hlater : (offset == 0) = false := by
    rw [beq_eq_false_iff_ne]
    omega
  rw [hblocks, text_cons, blockText_eq, hlater]
  exact (Listing.opensAt_print hskip htake hsymbol).append _

/-- Items before the front of bytes do not matter to what the bytes keep. -/
theorem keepsIn_append_iff {items items' : List Item} {bytes : List Byte}
    (h : ∀ item ∈ items, item.address.toNat < l.decoder.address.toNat) :
    l.KeepsIn symbols (items ++ items') bytes ↔ l.KeepsIn symbols items' bytes := by
  constructor
  · intro hkeeps item hitem
    exact hkeeps item (List.mem_append_right items hitem)
  · intro hkeeps item hitem k hk haddress
    rcases List.mem_append.mp hitem with hitem | hitem
    · have hlt := h item hitem
      omega
    · exact hkeeps item hitem k hk haddress

/-- To a later block the items of the first one do not matter. -/
theorem keepsIn_later_iff {bytes more : List Byte} {whole rest : Scan}
    (hend : l.decoder.address.toNat + offset + (bytes.length + more.length) < 2 ^ 64) {b : Block}
    (hb : b ∈ (cutFrom l.decoder blockSize (offset + bytes.length) more).blocks) {first : Bool}
    (hscan : whole = rest.prepend ((l.skip offset).scan first false bytes).items) :
    (l.skip b.offset).KeepsIn symbols whole.items b.bytes ↔
      (l.skip b.offset).KeepsIn symbols rest.items b.bytes := by
  have hstart := le_offset_of_mem_cutFrom hb
  have hstop := stop_le_of_mem_cutFrom hb
  rw [Block.stop] at hstop
  rw [hscan, Scan.items_prepend]
  refine keepsIn_append_iff fun item hitem => ?_
  have hskip := l.toNat_skip (n := offset) (by omega)
  have haddress := (address_of_mem_scan (by rw [hskip]; omega) hitem).2
  rw [hskip] at haddress
  rw [l.toNat_skip (by omega)]
  omega

/-- The blocks give the listing of all data exactly if they keep its items. -/
theorem text_cutFrom_eq_iff (h : (l.skip offset).Fits symbols (offset == 0) data)
    (hend : l.decoder.address.toNat + offset + data.length < 2 ^ 64)
    (hcomplete : (cutFrom l.decoder blockSize offset data).complete = true) :
    text l (cutFrom l.decoder blockSize offset data).blocks =
        ((l.skip offset).print (offset == 0) data).1 ↔
      ∀ b ∈ (cutFrom l.decoder blockSize offset data).blocks,
        (l.skip b.offset).KeepsIn symbols ((l.skip offset).scan (offset == 0) false data).items
          b.bytes := by
  -- on the data that is left to cut; either the first block keeps its items or the texts differ in
  -- it
  induction hn : data.length using Nat.strongRecOn generalizing offset data with
  | ind n ih =>
    subst hn
    by_cases hne : data = []
    · subst hne
      rw [cutFrom_nil, Listing.print, Listing.scan_nil]
      exact iff_of_true rfl fun b hb => by cases hb
    · obtain ⟨n, hpos, hle, hcut, hcomplete', hblocks⟩ := exists_cutFrom_eq hne hcomplete
      obtain ⟨bytes, more, rfl, rfl⟩ : ∃ bytes more, data = bytes ++ more ∧ bytes.length = n :=
        ⟨data.take n, data.drop n, (List.take_append_drop n data).symm, List.length_take_of_le hle⟩
      rw [List.drop_left] at hcomplete' hblocks
      rw [List.take_left] at hblocks
      rw [List.length_append] at hend
      have hfirst : (offset == 0 && bytes.isEmpty) = (offset + bytes.length == 0) := by
        have hsome : bytes.isEmpty = false := by
          rw [List.isEmpty_eq_false_iff, ← List.length_pos_iff]
          exact hpos
        rw [hsome, Bool.and_false, eq_comm, beq_eq_false_iff_ne]
        omega
      rw [hblocks, text_cons, blockText_eq, List.forall_mem_cons]
      by_cases hkeeps : (l.skip offset).KeepsIn symbols
          ((l.skip offset).scan (offset == 0) false (bytes ++ more)).items bytes
      · obtain ⟨hscan, hfits⟩ := Listing.scan_of_keepsIn h hcut hkeeps
        rw [hfirst, Listing.skip_skip] at hscan hfits
        have hrest :=
          ih more.length (by rw [List.length_append]; omega) hfits (by omega) hcomplete' rfl
        have htext : ((l.skip offset).print (offset == 0) (bytes ++ more)).1 =
            ((l.skip offset).print (offset == 0) bytes).1 ++
              ((l.skip (offset + bytes.length)).print (offset + bytes.length == 0) more).1 := by
          simp only [Listing.print, hscan, Scan.items_prepend, Listing.text_append]
          rfl
        rw [htext, String.append_right_inj, hrest]
        -- the items of the first block stand before all other blocks
        constructor
        · intro hall
          exact ⟨hkeeps, fun b hb => (keepsIn_later_iff hend hb hscan).mpr (hall b hb)⟩
        · rintro ⟨-, hall⟩ b hb
          exact (keepsIn_later_iff hend hb hscan).mp (hall b hb)
      · -- the other blocks cannot make up for it, as their text opens at an address of its own
        refine iff_of_false (Listing.print_ne_of_not_keepsIn h hcut hkeeps fun hmore hsymbol => ?_)
          fun hall => hkeeps hall.1
        rw [Listing.skip_skip] at hsymbol ⊢
        exact opensAt_text h.answers (by omega) hmore hcomplete' hsymbol

end Blocks

/-- Blocks are listed as all data is listed at once exactly if each item of the listing survives the
cut at the end of the block in which it starts. This is the case unless a skipped run reaches across
a cut, zero bytes that are listed as instructions fill a block up to its end, or a byte fails to
decode for a reason that lies in the next block. -/
theorem text_blocks_eq_print_iff (l : Listing) (symbols : Array Symbol) (data : List Byte)
    (blockSize : Nat) (hsymbols : l.presentation.symbols = SymbolSearch.lookup symbols)
    (hdistinct : SymbolIndex.IsStrict symbols.toList)
    (hend : l.decoder.address.toNat + data.length < 2 ^ 64)
    (hunsplit : ∀ item ∈ (l.scan true false data).items, ∀ s ∈ symbols.toList, ¬ item.IsSplitBy s)
    (hcomplete : (Blocks.cut l.decoder blockSize data).complete = true) :
    Blocks.text l (Blocks.cut l.decoder blockSize data).blocks = (l.print true data).1 ↔
      ∀ b ∈ (Blocks.cut l.decoder blockSize data).blocks, ∀ item ∈ (l.scan true false data).items,
        ∀ k < b.bytes.length, item.address.toNat = l.decoder.address.toNat + b.offset + k →
          item.Survives l.decoder.mode l.decoder.options.decodeZeroes symbols.toList
            (b.bytes.drop k) := by
  have hfits : l.Fits symbols.toList true data :=
    ⟨hsymbols ▸ SymbolSearch.answers_lookup hdistinct, Nat.le_of_lt hend, hunsplit⟩
  rw [← l.skip_zero] at hfits
  have htext := Blocks.text_cutFrom_eq_iff hfits hend hcomplete
  rw [l.skip_zero] at htext
  refine htext.trans (forall₂_congr fun b hb => ?_)
  have hstop := Blocks.stop_le_of_mem_cutFrom hb
  rw [Block.stop] at hstop
  rw [Listing.KeepsIn, l.toNat_skip (by omega)]
  rfl

/-- A listing with a symbol behind zero bytes. -/
def calledListing : Listing :=
  ⟨⟨.long64, 0x1000, .default⟩,
    ⟨.plain, SymbolSearch.lookup #[⟨0x1000, "padding"⟩, ⟨0x10fa, "caller"⟩], id⟩, ".text"⟩

/-- Zero bytes up to the symbol, a call, and zero bytes up to the end: two blocks. -/
def calledData : List Byte := List.replicate 250 0 ++ [0xe8, 4, 3, 2, 1] ++ List.replicate 20 0

/-- The listing: both runs are skipped but for the bytes at their end. -/
def calledText : String :=
  "\n0000000000001000 <padding>:\n\t...\n" ++
  "    10f8:\t00 00                \top=00 modrm=00 flags=ModRM\n" ++
  "\n00000000000010fa <caller>:\n" ++
  "    10fa:\te8 04 03 02 01       \top=e8 imm=i32(0x1020304 / 16909060) flags=Imm32|Relative" ++
  "\t# 1021403 <caller+0x1020309>\n\t...\n" ++
  "    110f:\t00 00                \top=00 modrm=00 flags=ModRM\n" ++
  "    1111:\t00 00                \top=00 modrm=00 flags=ModRM\n"

theorem text_blocks_eq_print_iff_called :
    (Blocks.cut calledListing.decoder 256 calledData).blocks.map (·.offset) = [0, 250] ∧
      Blocks.text calledListing (Blocks.cut calledListing.decoder 256 calledData).blocks =
        calledText ∧
      (calledListing.print true calledData).1 = calledText ∧
      ∀ b ∈ (Blocks.cut calledListing.decoder 256 calledData).blocks,
        ∀ item ∈ (calledListing.scan true false calledData).items, ∀ k < b.bytes.length,
          item.address.toNat = 0x1000 + b.offset + k →
            item.Survives .long64 false [⟨0x1000, "padding"⟩, ⟨0x10fa, "caller"⟩]
              (b.bytes.drop k) := by
  have hblocks :
      Blocks.text calledListing (Blocks.cut calledListing.decoder 256 calledData).blocks =
      calledText := by decide +kernel
  have hprint : (calledListing.print true calledData).1 = calledText := by decide +kernel
  have hiff := text_blocks_eq_print_iff calledListing #[⟨0x1000, "padding"⟩, ⟨0x10fa, "caller"⟩]
    calledData 256 rfl (by simp [SymbolIndex.IsStrict]) (by decide +kernel) (by decide +kernel)
    (by decide +kernel)
  exact ⟨by decide +kernel, hblocks, hprint, hiff.mp (hblocks.trans hprint.symm)⟩

/-- A listing without symbols. -/
def plainListing : Listing :=
  ⟨⟨.long64, 0, .default⟩, ⟨.plain, SymbolSearch.lookup #[], id⟩, ".data"⟩

/-- A long zero run and a short one, each with an instruction behind it. -/
def shortRunData : List Byte :=
  List.replicate 240 0 ++ [0x90] ++ List.replicate 14 0 ++ [0x90]

/-- A cut inside a short zero run: of the fourteen bytes, which are listed as instructions, the
eight before the cut are skipped. -/
theorem text_blocks_ne_print_short_run :
    plainListing.decoder.address.toNat + shortRunData.length < 2 ^ 64 ∧
      (Blocks.cut plainListing.decoder 256 shortRunData).complete = true ∧
      Blocks.text plainListing (Blocks.cut plainListing.decoder 256 shortRunData).blocks ≠
        (plainListing.print true shortRunData).1 := by
  decide +kernel

end LengthDisasm
