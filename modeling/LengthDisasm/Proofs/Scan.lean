import Mathlib.Algebra.GroupWithZero.Nat
import LengthDisasm.Listing
import LengthDisasm.Proofs.SymbolOrder
import LengthDisasm.Proofs.ZeroRuns

/-!
# Scans, item by item

A scan divides data into items from the front on and carries along the labels that are still to be
shown. Where no symbol lies inside an item, the labels after an item are those with which a scan of
the remaining data would start. So a scan is its first item followed by the scan of a listing that
has moved past it, and nothing is carried from one to the other.

## Main definitions

* `Scan.prepend` — put items before those of a scan
* `SymbolLookup.labelAt` — the label that a symbol gives to an address
* `ScanSettings.bodyAt` — what stands at the front of data that nothing follows
* `Item.IsSplitBy` — a symbol lies inside the instruction of an item
* `Listing.Fits` — symbols and data of a listing go together

## Main results

* `scan_item`, `scan_induction` — the scan of data with an item at its front, and induction along a
  scan
* `Labels.take_after` — past an item without symbols inside, labels are as at a new start
* `Listing.Fits.scan_eq`, `Listing.Fits.tail` — a listing is its first item and the listing of the
  rest
-/

namespace LengthDisasm

theorem toNat_add_ofNat {a : Address} {n : Nat} (h : a.toNat + n < 2 ^ 64) :
    (a + BitVec.ofNat 64 n).toNat = a.toNat + n := by
  rw [BitVec.toNat_add, BitVec.toNat_ofNat]
  omega

/-! ### Scans without an accumulator -/

namespace Scan

/-- Put items before those of a scan. -/
def prepend (items : List Item) (s : Scan) : Scan := { s with items := items ++ s.items }

variable (items items' : List Item) (s : Scan)

@[simp] theorem items_prepend : (s.prepend items).items = items ++ s.items := rfl

@[simp] theorem address_prepend : (s.prepend items).address = s.address := rfl

@[simp] theorem rest_prepend : (s.prepend items).rest = s.rest := rfl

@[simp] theorem needed_prepend : (s.prepend items).needed = s.needed := rfl

theorem prepend_prepend : (s.prepend items').prepend items = s.prepend (items ++ items') := by
  simp [prepend]

end Scan

section Scan

variable {settings : ScanSettings} {labels labels' : Labels} {a : Address} {data : List Byte}

theorem scanOnto_append (settings : ScanSettings) (done before : List Item) (labels : Labels)
    (a : Address) (data : List Byte) :
    scanOnto settings (done ++ before) labels a data =
      (scanOnto settings done labels a data).prepend before.reverse := by
  -- along the recursion of the scan, which only ever adds to the items done
  fun_induction scanOnto settings done labels a data with
  | case1 done labels a =>
    rw [scanOnto]
    simp [Scan.prepend]
  | case2 done labels a data hne needed h =>
    rw [scanOnto, dif_neg hne]
    split
    · rename_i needed' h'
      rw [h] at h'
      cases h'
      simp [Scan.prepend]
    · simp_all
  | case3 done labels a data hne body h label labels' htake ih =>
    rw [scanOnto, dif_neg hne]
    split
    · simp_all
    · rename_i body' h'
      rw [h] at h'
      cases h'
      rw [htake]
      exact ih

theorem scan_nil (settings : ScanSettings) (labels : Labels) (a : Address) :
    scan settings labels a [] = ⟨[], a, [], 0⟩ := by
  rw [scan, scanOnto]
  simp

theorem scan_wait (hne : data ≠ []) {needed : Nat} (h : settings.front a data = .wait needed) :
    scan settings labels a data = ⟨[], a, data, needed⟩ := by
  rw [scan, scanOnto, dif_neg hne]
  split <;> simp_all

/-- A scan is the item at the front and the scan of the data after it. -/
theorem scan_item (hne : data ≠ []) {body : ItemBody} (h : settings.front a data = .item body) :
    scan settings labels a data =
      (scan settings (labels.take settings.symbols a).2 (a + BitVec.ofNat 64 body.size)
        (data.drop body.size)).prepend [⟨a, (labels.take settings.symbols a).1, body⟩] := by
  have happend := scanOnto_append settings [] [⟨a, (labels.take settings.symbols a).1, body⟩]
    (labels.take settings.symbols a).2 (a + BitVec.ofNat 64 body.size) (data.drop body.size)
  rw [scan, scanOnto, dif_neg hne]
  split
  · simp_all
  · rename_i body' h'
    rw [h] at h'
    cases h'
    exact happend

/-- Induction along a scan: data that is empty or has to wait ends it, and behind an item it goes
on. -/
theorem scan_induction (settings : ScanSettings) {motive : Labels → Address → List Byte → Prop}
    (nil : ∀ labels a, motive labels a [])
    (wait : ∀ labels a data needed, data ≠ [] → settings.front a data = .wait needed →
      motive labels a data)
    (item : ∀ labels a data body, data ≠ [] → settings.front a data = .item body →
      motive (labels.take settings.symbols a).2 (a + BitVec.ofNat 64 body.size)
        (data.drop body.size) → motive labels a data)
    (labels : Labels) (a : Address) (data : List Byte) : motive labels a data := by
  induction hn : data.length using Nat.strongRecOn generalizing labels a data with
  | ind n ih =>
    by_cases hne : data = []
    · rw [hne]
      exact nil labels a
    · cases hfront : settings.front a data with
      | wait needed => exact wait labels a data needed hne hfront
      | item body =>
        -- an item covers a byte, so less data is left
        refine item labels a data body hne hfront (ih _ ?_ _ _ _ rfl)
        have hpos := ScanSettings.size_pos_of_front hfront
        have hlen := List.length_pos_iff.mpr hne
        rw [List.length_drop]
        omega

/-- Labels matter to a scan only as far as the first item takes them. -/
theorem scan_congr (h : labels.take settings.symbols a = labels'.take settings.symbols a) :
    scan settings labels a data = scan settings labels' a data := by
  by_cases hne : data = []
  · rw [hne, scan_nil, scan_nil]
  · cases hfront : settings.front a data with
    | wait needed => rw [scan_wait hne hfront, scan_wait hne hfront]
    | item body => rw [scan_item hne hfront, scan_item hne hfront, h]

/-- An item of a scan is the one at the front, or one of the scan of the data that is left. -/
theorem mem_scan_cases {item : Item} (h : item ∈ (scan settings labels a data).items) :
    ∃ body, data ≠ [] ∧ settings.front a data = .item body ∧
      (item = ⟨a, (labels.take settings.symbols a).1, body⟩ ∨
        body.size < data.length ∧
          item ∈ (scan settings (labels.take settings.symbols a).2 (a + BitVec.ofNat 64 body.size)
            (data.drop body.size)).items) := by
  by_cases hne : data = []
  · rw [hne, scan_nil] at h
    cases h
  · cases hfront : settings.front a data with
    | wait needed =>
      rw [scan_wait hne hfront] at h
      cases h
    | item body =>
      rw [scan_item hne hfront] at h
      refine ⟨body, hne, rfl, (List.mem_cons.mp h).imp_right fun h => ⟨?_, h⟩⟩
      -- an item is left, so some data is
      by_contra hle
      rw [List.drop_eq_nil_of_le (Nat.le_of_not_lt hle), scan_nil] at h
      cases h

end Scan

/-! ### Labels start anew after each item -/

/-- The label that a symbol gives to an address. -/
def SymbolLookup.labelAt (lookup : SymbolLookup) (a : Address) : Option Label :=
  match lookup.find? a with
  | some s => if s.address = a then some ⟨s.name, 0⟩ else none
  | none => none

namespace SymbolLookup.Answers

variable {lookup : SymbolLookup} {symbols : List Symbol} {a : Address} {s : Symbol}

theorem labelAt_address (h : lookup.Answers symbols) (hs : s ∈ symbols) :
    lookup.labelAt s.address = some ⟨s.name, 0⟩ := by
  simp [labelAt, h.find_address s hs]

theorem labelAt_eq_none (h : lookup.Answers symbols) (hfree : ∀ s ∈ symbols, s.address ≠ a) :
    lookup.labelAt a = none := by
  unfold labelAt
  split
  · rename_i s hfind
    exact if_neg (hfree s (h.mem_of_find hfind))
  · rfl

/-- Where no symbol lies after `a` and before a later address, or at it, the same symbol comes
next. -/
theorem after_eq_of_free (h : lookup.Answers symbols) {a' : Address} (hlt : a < a')
    (hfree : ∀ s ∈ symbols, a < s.address → a' < s.address) :
    lookup.after? a' = lookup.after? a := by
  cases hnext : lookup.after? a with
  | none =>
    cases hnext' : lookup.after? a' with
    | none => rfl
    | some t =>
      obtain ⟨ht, hat, -⟩ := h.after_some hnext'
      have hle := h.after_none hnext t ht
      bv_omega
  | some s =>
    obtain ⟨hs, has, hleast⟩ := h.after_some hnext
    have has' := hfree s hs has
    cases hnext' : lookup.after? a' with
    | none =>
      have hle := h.after_none hnext' s hs
      bv_omega
    | some t =>
      obtain ⟨ht, hat, hleast'⟩ := h.after_some hnext'
      have hst := hleast t ht (by bv_omega)
      have hts := hleast' s hs has'
      rw [h.eq_of_address_eq hs ht (BitVec.le_antisymm hst hts)]

end SymbolLookup.Answers

namespace Labels

variable {lookup : SymbolLookup} {symbols : List Symbol} {a a' : Address}

/-- After the first item the labels wait for the next symbol. -/
theorem take_start_snd (h : lookup.Answers symbols) (name : String) (first : Bool) (a : Address) :
    ((start lookup name first a).take lookup a).2 = ⟨none, lookup.after? a⟩ := by
  have hnext : (start lookup name first a).next = lookup.after? a := rfl
  unfold take
  split
  · rw [hnext]
  · rename_i s hheading hs
    have hne : s.address ≠ a := by
      rintro rfl
      exact BitVec.lt_irrefl _ (h.after_some (hnext ▸ hs)).2.1
    rw [if_neg hne, ← hheading, ← hnext]
  · rename_i hheading _
    rw [← hheading, ← hnext]

/-- Away from the front of a section the first item is labelled like any other. -/
theorem take_start_false (h : lookup.Answers symbols) (name : String) (a : Address) :
    (start lookup name false a).take lookup a = (lookup.labelAt a, ⟨none, lookup.after? a⟩) := by
  have hheading : (start lookup name false a).heading = lookup.labelAt a := by
    simp only [start, SymbolLookup.labelAt]
    cases lookup.find? a <;> rfl
  refine Prod.ext ?_ (take_start_snd h name false a)
  unfold take
  split
  · rename_i label _ hlabel
    rw [← hlabel, hheading]
  · rename_i s hnone hs
    have hne : s.address ≠ a := by
      rintro rfl
      exact BitVec.lt_irrefl _ (h.after_some hs).2.1
    rw [if_neg hne, ← hheading, hnone]
  · rename_i hnone _
    rw [← hheading, hnone]

/-- Labels that wait since `a` are at a later address as at a new start there, if no symbol lies
between. -/
theorem take_after (h : lookup.Answers symbols) (name : String) (hlt : a < a')
    (hfree : ∀ s ∈ symbols, a < s.address → a' ≤ s.address) :
    take lookup a' ⟨none, lookup.after? a⟩ = (start lookup name false a').take lookup a' := by
  rw [take_start_false h]
  by_cases hsymbol : ∃ s ∈ symbols, s.address = a'
  · -- the symbol at the new address is the one that was waited for
    obtain ⟨s, hs, rfl⟩ := hsymbol
    have hnext : lookup.after? a = some s := by
      cases hafter : lookup.after? a with
      | none =>
        have hle := h.after_none hafter s hs
        bv_omega
      | some t =>
        obtain ⟨ht, hat, hleast⟩ := h.after_some hafter
        rw [h.eq_of_address_eq ht hs (BitVec.le_antisymm (hleast s hs hlt) (hfree t ht hat))]
    simp [take, hnext, h.labelAt_address hs]
  · -- the symbol that was waited for still lies ahead
    have hne : ∀ s ∈ symbols, s.address ≠ a' := fun s hs heq => hsymbol ⟨s, hs, heq⟩
    have hafter : lookup.after? a' = lookup.after? a :=
      h.after_eq_of_free hlt fun s hs has =>
        BitVec.lt_of_le_ne (hfree s hs has) (Ne.symm (hne s hs))
    rw [h.labelAt_eq_none hne, hafter]
    cases hnext : lookup.after? a with
    | none => rfl
    | some s =>
      rw [take]
      exact if_neg (hne s (h.after_some hnext).1)

end Labels

/-! ### What stands at the front -/

/-- What decoding shows at the front of data. -/
def ItemBody.decodedAt (mode : Mode) (data : List Byte) : ItemBody :=
  .decoded (data.take (decodedLength (decode mode data))) (decode mode data)

namespace ScanSettings

variable {settings : ScanSettings} {a : Address} {data : List Byte} {body : ItemBody}

/-- What stands at the front of data that nothing follows. -/
def bodyAt (settings : ScanSettings) (a : Address) (data : List Byte) : ItemBody :=
  if settings.options.decodeZeroes then .decodedAt settings.mode data
  else
    match ZeroRun.elided? (settings.limit a) data with
    | some count => .elided count
    | none => .decodedAt settings.mode data

theorem decodedFront_eq (settings : ScanSettings) (data : List Byte) :
    settings.decodedFront data =
      if decode settings.mode data = .error .insufficientLength ∧ settings.hasMore = true ∧
          data.length < Instruction.maxLength then .wait Instruction.maxLength
      else .item (.decodedAt settings.mode data) := by
  unfold decodedFront
  split
  · rename_i h
    simp [h, ItemBody.decodedAt, ZeroRun.fewerThan_iff]
  · rename_i h
    rw [if_neg fun hshort => h hshort.1]
    rfl

theorem bodyAt_of_front (h : settings.front a data = .item body) :
    settings.bodyAt a data = body := by
  unfold bodyAt
  unfold front at h
  split
  · rename_i hzeroes
    rw [if_pos hzeroes, decodedFront_eq] at h
    split at h
    · cases h
    · exact Front.item.inj h
  · rename_i hzeroes
    rw [if_neg hzeroes] at h
    split at h
    · cases h
    · simp only at h
      split at h
      · cases h
      · cases hrun : ZeroRun.elided? (settings.limit a) data with
        | some count =>
          rw [hrun] at h
          exact Front.item.inj h
        | none =>
          rw [hrun, decodedFront_eq] at h
          simp only at h
          split at h
          · cases h
          · exact Front.item.inj h

/-- If no more data will follow, nothing has to wait. -/
theorem front_of_not_hasMore (settings : ScanSettings) (h : settings.hasMore = false) (a : Address)
    (data : List Byte) : settings.front a data = .item (settings.bodyAt a data) := by
  have hdecoded : settings.decodedFront data = .item (.decodedAt settings.mode data) := by
    rw [decodedFront_eq, if_neg]
    simp [h]
  unfold front bodyAt
  simp only [h, hdecoded, Bool.false_and, Bool.false_eq_true, if_false]
  split
  · rfl
  · cases ZeroRun.elided? (settings.limit a) data <;> rfl

theorem elided?_of_bodyAt {count : Nat} (h : settings.bodyAt a data = .elided count) :
    settings.options.decodeZeroes = false ∧
      ZeroRun.elided? (settings.limit a) data = some count := by
  unfold bodyAt at h
  split at h
  · cases h
  · rename_i hzeroes
    refine ⟨by simpa using hzeroes, ?_⟩
    cases hrun : ZeroRun.elided? (settings.limit a) data with
    | none =>
      rw [hrun] at h
      cases h
    | some count' =>
      rw [hrun] at h
      cases h
      rfl

theorem decode_of_bodyAt {bytes : List Byte} {result : Except DecodeError Instruction}
    (h : settings.bodyAt a data = .decoded bytes result) :
    decode settings.mode data = result ∧ data.take (decodedLength result) = bytes := by
  have hdecoded : ItemBody.decodedAt settings.mode data = .decoded bytes result := by
    unfold bodyAt at h
    split at h
    · exact h
    · cases hrun : ZeroRun.elided? (settings.limit a) data with
      | none =>
        rw [hrun] at h
        exact h
      | some count =>
        rw [hrun] at h
        cases h
  cases hdecoded
  exact ⟨rfl, rfl⟩

theorem size_bodyAt_pos (settings : ScanSettings) (a : Address) (data : List Byte) :
    0 < (settings.bodyAt a data).size :=
  size_pos_of_front (front_of_not_hasMore { settings with hasMore := false } rfl a data)

theorem size_bodyAt_le (settings : ScanSettings) (a : Address) (hne : data ≠ []) :
    (settings.bodyAt a data).size ≤ data.length := by
  cases hbody : settings.bodyAt a data with
  | elided count =>
    have hcount := ZeroRun.le_within_of_elided? (elided?_of_bodyAt hbody).2
    exact hcount.trans ((ZeroRun.within_le_length _ data).trans (ZeroRun.length_le data))
  | decoded bytes result =>
    rw [ItemBody.size, ← (decode_of_bodyAt hbody).1]
    exact decodedLength_le hne

theorem size_le_of_front (hne : data ≠ []) (h : settings.front a data = .item body) :
    body.size ≤ data.length := by
  rw [← bodyAt_of_front h]
  exact size_bodyAt_le settings a hne

theorem limit_of_after_none (h : settings.symbols.after? a = none) : settings.limit a = none := by
  rw [limit, h]
  rfl

theorem limit_of_after_some {t : Symbol} (h : settings.symbols.after? a = some t) :
    settings.limit a = some (t.address - a).toNat := by
  rw [limit, h]
  rfl

/-- So many bytes stop before the next symbol or right at it, exactly if no symbol lies inside
them. -/
theorem le_limit_iff {symbols : List Symbol} (h : settings.symbols.FindsNext symbols) (m : Nat) :
    (∀ n, settings.limit a = some n → m ≤ n) ↔
      ∀ s ∈ symbols, a < s.address → a.toNat + m ≤ s.address.toNat := by
  cases hnext : settings.symbols.after? a with
  | none =>
    rw [limit_of_after_none hnext]
    refine iff_of_true (fun n hn => by cases hn) fun s hs hlt => ?_
    have hle := h.after_none hnext s hs
    bv_omega
  | some t =>
    obtain ⟨ht, hat, hleast⟩ := h.after_some hnext
    rw [limit_of_after_some hnext]
    constructor
    · intro hlimit s hs hlt
      have hm := hlimit _ rfl
      have hle := hleast s hs hlt
      bv_omega
    · rintro hfree n ⟨⟩
      have hm := hfree t ht hat
      bv_omega

/-- A skipped run stops before the next symbol. -/
theorem le_address_of_stops {symbols : List Symbol} (h : settings.symbols.Stops symbols)
    {count : Nat} (hbody : settings.bodyAt a data = .elided count) {s : Symbol} (hs : s ∈ symbols)
    (hlt : a < s.address) : a.toNat + count ≤ s.address.toNat := by
  have hcount := ZeroRun.le_within_of_elided? (elided?_of_bodyAt hbody).2
  obtain ⟨t, hnext, hat, hle⟩ := h a s hs hlt
  rw [limit_of_after_some hnext] at hcount
  have hdistance := hcount.trans (Nat.min_le_left _ (ZeroRun.length data))
  bv_omega

theorem le_address_of_elided {symbols : List Symbol} (h : settings.symbols.Answers symbols)
    {count : Nat} (hbody : settings.bodyAt a data = .elided count) {s : Symbol} (hs : s ∈ symbols)
    (hlt : a < s.address) : a.toNat + count ≤ s.address.toNat :=
  le_address_of_stops h.stops hbody hs hlt

/-- No symbol lies inside what stands at the front, unless inside an instruction. -/
theorem le_address_of_bodyAt {symbols : List Symbol} (h : settings.symbols.Answers symbols)
    (hok : ∀ bytes i, settings.bodyAt a data = .decoded bytes (.ok i) →
      ∀ s ∈ symbols, a < s.address → a.toNat + i.length ≤ s.address.toNat)
    {s : Symbol} (hs : s ∈ symbols) (hlt : a < s.address) :
    a.toNat + (settings.bodyAt a data).size ≤ s.address.toNat := by
  cases hbody : settings.bodyAt a data with
  | elided count => exact le_address_of_elided h hbody hs hlt
  | decoded bytes result =>
    cases result with
    | ok i => exact hok bytes i hbody s hs hlt
    | error e =>
      simp only [ItemBody.size, decodedLength]
      bv_omega

end ScanSettings

/-- The items of a scan stand at addresses of its data. -/
theorem address_of_mem_scan {settings : ScanSettings} {labels : Labels} {a : Address}
    {data : List Byte} {item : Item} (hend : a.toNat + data.length ≤ 2 ^ 64)
    (h : item ∈ (scan settings labels a data).items) :
    a.toNat ≤ item.address.toNat ∧ item.address.toNat < a.toNat + data.length := by
  induction hn : data.length using Nat.strongRecOn generalizing labels a data with
  | ind n ih =>
    obtain ⟨body, hne, hfront, rfl | ⟨hlt, hitem⟩⟩ := mem_scan_cases h
    · exact ⟨Nat.le_refl _, Nat.lt_add_of_pos_right (hn ▸ List.length_pos_iff.mpr hne)⟩
    · -- the data goes on behind the item, so its address does not wrap around
      have hpos := ScanSettings.size_pos_of_front hfront
      have haddress : (a + BitVec.ofNat 64 body.size).toNat = a.toNat + body.size :=
        toNat_add_ofNat (by omega)
      have hlength : (data.drop body.size).length = data.length - body.size := List.length_drop
      have hbounds := ih _ (by omega) (by omega) hitem rfl
      omega

/-! ### Listings, item by item -/

/-- A symbol lies inside the instruction of an item: after its first byte and before its end. -/
def Item.IsSplitBy (item : Item) (s : Symbol) : Prop :=
  match item.body with
  | .decoded _ (.ok i) => item.address < s.address ∧ s.address.toNat < item.address.toNat + i.length
  | _ => False

instance : (item : Item) → (s : Symbol) → Decidable (item.IsSplitBy s)
  | ⟨_, _, .decoded _ (.ok _)⟩, _ => inferInstanceAs (Decidable (_ ∧ _))
  | ⟨_, _, .decoded _ (.error _)⟩, _ => inferInstanceAs (Decidable False)
  | ⟨_, _, .elided _⟩, _ => inferInstanceAs (Decidable False)

namespace Listing

/-- How a listing divides its data. -/
def settings (l : Listing) (hasMore : Bool) : ScanSettings :=
  ⟨l.decoder.mode, l.decoder.options, l.presentation.symbols, hasMore⟩

/-- The listing moved over so many bytes. -/
def skip (l : Listing) (n : Nat) : Listing := l.moveTo (l.decoder.address + BitVec.ofNat 64 n)

/-- The label of the first item; `first` says that it starts the section. -/
def headingLabel (l : Listing) (first : Bool) : Option Label :=
  ((Labels.start l.presentation.symbols l.sectionName first l.decoder.address).take
    l.presentation.symbols l.decoder.address).1

/-- The first item of data that nothing follows. -/
def itemAt (l : Listing) (first : Bool) (data : List Byte) : Item :=
  ⟨l.decoder.address, l.headingLabel first, (l.settings false).bodyAt l.decoder.address data⟩

variable {l : Listing} {symbols : List Symbol} {first hasMore : Bool} {data : List Byte}

theorem text_append (l : Listing) (items items' : List Item) :
    l.text (items ++ items') = l.text items ++ l.text items' := by
  rw [text, List.map_append, String.join_append, text, text]

theorem scan_nil (l : Listing) (first hasMore : Bool) :
    l.scan first hasMore [] = ⟨[], l.decoder.address, [], 0⟩ :=
  LengthDisasm.scan_nil ..

theorem scan_wait (hne : data ≠ []) {needed : Nat}
    (h : (l.settings hasMore).front l.decoder.address data = .wait needed) :
    l.scan first hasMore data = ⟨[], l.decoder.address, data, needed⟩ :=
  LengthDisasm.scan_wait hne h

theorem exists_scan_item (first : Bool) (hne : data ≠ []) {body : ItemBody}
    (hfront : (l.settings hasMore).front l.decoder.address data = .item body) :
    ∃ labels, l.scan first hasMore data =
      (LengthDisasm.scan (l.settings hasMore) labels (l.decoder.address + BitVec.ofNat 64 body.size)
        (data.drop body.size)).prepend [⟨l.decoder.address, l.headingLabel first, body⟩] :=
  ⟨_, LengthDisasm.scan_item hne hfront⟩

/-- The scan of a listing is its first item and the scan of the listing moved past it. -/
theorem scan_item_of_free (h : l.presentation.symbols.Answers symbols) (hne : data ≠ [])
    {body : ItemBody} (hfront : (l.settings hasMore).front l.decoder.address data = .item body)
    (hend : l.decoder.address.toNat + data.length ≤ 2 ^ 64)
    (hfree : ∀ s ∈ symbols, l.decoder.address < s.address →
      l.decoder.address.toNat + body.size ≤ s.address.toNat) :
    l.scan first hasMore data =
      ((l.skip body.size).scan false hasMore (data.drop body.size)).prepend
        [⟨l.decoder.address, l.headingLabel first, body⟩] := by
  refine (LengthDisasm.scan_item hne hfront).trans (congrArg (Scan.prepend _) ?_)
  by_cases hrest : data.drop body.size = []
  · rw [hrest, LengthDisasm.scan_nil, scan_nil]
    rfl
  · -- the labels after the item are those with which the moved listing starts
    refine scan_congr ?_
    rw [List.drop_eq_nil_iff] at hrest
    have hpos := ScanSettings.size_pos_of_front hfront
    have haddress : (l.decoder.address + BitVec.ofNat 64 body.size).toNat =
        l.decoder.address.toNat + body.size := toNat_add_ofNat (by omega)
    have hsnd := Labels.take_start_snd h l.sectionName first l.decoder.address
    refine (congrArg (Labels.take _ _) hsnd).trans ?_
    refine Labels.take_after h l.sectionName ?_ fun s hs hlt => ?_
    · rw [BitVec.lt_def, haddress]
      omega
    · rw [BitVec.le_def, haddress]
      exact hfree s hs hlt

/-- Symbols and data go together: no two symbols share an address, the data does not reach beyond
the last address, and no symbol lies inside an instruction of the listing. -/
structure Fits (l : Listing) (symbols : List Symbol) (first : Bool) (data : List Byte) : Prop where
  answers : l.presentation.symbols.Answers symbols
  end_le : l.decoder.address.toNat + data.length ≤ 2 ^ 64
  unsplit : ∀ item ∈ (l.scan first false data).items, ∀ s ∈ symbols, ¬ item.IsSplitBy s

namespace Fits

/-- No symbol lies inside the first item. -/
theorem le_address (h : l.Fits symbols first data) (hne : data ≠ []) {s : Symbol} (hs : s ∈ symbols)
    (hlt : l.decoder.address < s.address) :
    l.decoder.address.toNat + (l.itemAt first data).body.size ≤ s.address.toNat := by
  refine ScanSettings.le_address_of_bodyAt h.answers (fun bytes i hbody t ht hat => ?_) hs hlt
  -- only an instruction could hold a symbol, and the first item is one of the listing
  have hfront := (l.settings false).front_of_not_hasMore rfl l.decoder.address data
  have hmem : l.itemAt first data ∈ (l.scan first false data).items := by
    obtain ⟨labels, hscan⟩ := exists_scan_item first hne hfront
    rw [hscan]
    exact List.mem_cons_self
  refine Nat.le_of_not_lt fun hinside => h.unsplit _ hmem t ht ?_
  rw [Item.IsSplitBy, show (l.itemAt first data).body = .decoded bytes (.ok i) from hbody]
  exact ⟨hat, hinside⟩

/-- A listing that fits is its first item followed by the listing of the data after it. -/
theorem scan_eq (h : l.Fits symbols first data) (hne : data ≠ []) :
    l.scan first false data =
      ((l.skip (l.itemAt first data).body.size).scan false false
        (data.drop (l.itemAt first data).body.size)).prepend [l.itemAt first data] :=
  scan_item_of_free h.answers hne (ScanSettings.front_of_not_hasMore _ rfl _ _) h.end_le
    fun _ hs hlt => h.le_address hne hs hlt

theorem tail (h : l.Fits symbols first data) (hne : data ≠ []) :
    (l.skip (l.itemAt first data).body.size).Fits symbols false
      (data.drop (l.itemAt first data).body.size) where
  answers := h.answers
  end_le := by
    have hend := h.end_le
    have hle := (l.settings false).size_bodyAt_le l.decoder.address hne
    simp only [skip, moveTo, itemAt, BitVec.toNat_add, BitVec.toNat_ofNat, List.length_drop]
    omega
  unsplit := by
    intro item hitem s hs
    refine h.unsplit item ?_ s hs
    rw [h.scan_eq hne]
    exact List.mem_cons_of_mem _ hitem

end Fits

end Listing

end LengthDisasm
