import LengthDisasm.Proofs.BlockListing
import LengthDisasm.Proofs.Streaming
import LengthDisasm.Proofs.WalkItems

/-!
# Streams make progress

A stream that stops asks for more data than it has left, so that feeding it what it asks for is
never in vain. Once the greatest length of an instruction is there, only one thing stops it at the
first byte: zero bytes that are not to be decoded and that no symbol divides, since their run can go
on.

## Main results

* `ScanSettings.exists_wait_iff` — what stops data of that length
* `Listing.text_eq_empty_iff` — every item has a text
* `printSome_progress` — what a stream has consumed and what it asks for
-/

namespace LengthDisasm

namespace ScanSettings

variable {settings : ScanSettings} {a : Address} {data : List Byte}

/-- A run that can go on waits for the byte behind it. -/
theorem front_of_isAll (hmore : settings.hasMore = true)
    (hzeroes : settings.options.decodeZeroes = false)
    (hlen : ZeroRun.blockSize ≤ data.length) (hall : ZeroRun.isAll data = true)
    (hlimit : ∀ n, settings.limit a = some n → data.length ≤ n) :
    settings.front a data = .wait (data.length + 1) := by
  have hblock : ¬ (settings.hasMore && ZeroRun.fewerThan ZeroRun.blockSize data) = true := by
    rw [Bool.and_eq_true, ZeroRun.fewerThan_iff]
    omega
  have hopen := ZeroRun.isAll_and_le_limit_iff.mpr ⟨hall, hlimit⟩
  rw [front, if_neg (Bool.eq_false_iff.mp hzeroes), if_neg hblock]
  simp only [hmore, Bool.true_and, hopen, if_true]
  rw [ZeroRun.isAll_iff.mp hall]

/-- Where an instruction has room, data of which more will follow waits only if it is zero bytes
that are to be skipped, without a symbol inside them. -/
theorem exists_wait_iff {symbols : List Symbol} (h : settings.symbols.FindsNext symbols)
    (hmore : settings.hasMore = true) (hlen : Instruction.maxLength ≤ data.length) :
    (∃ needed, settings.front a data = .wait needed) ↔
      settings.options.decodeZeroes = false ∧ (∀ b ∈ data, b = 0) ∧
        ∀ s ∈ symbols, a < s.address → a.toNat + data.length ≤ s.address.toNat := by
  have hblock : ZeroRun.blockSize ≤ data.length := Nat.le_trans (by decide) hlen
  rw [← ZeroRun.isAll_iff_forall, ← le_limit_iff h]
  constructor
  · -- the other two reasons to wait are that data is short
    rintro ⟨needed, hwait⟩
    obtain ⟨-, ⟨hshort, -⟩ | ⟨hrun, -⟩ | ⟨hshort, -⟩⟩ := wait_cases hwait
    · exact absurd hblock (Nat.not_le_of_lt hshort)
    · exact hrun
    · exact absurd hlen (Nat.not_le_of_lt hshort)
  · rintro ⟨hzeroes, hall, hlimit⟩
    exact ⟨_, front_of_isAll hmore hzeroes hblock hall hlimit⟩

end ScanSettings

namespace Listing

/-- A scan finds nothing in data that has to wait, and something in other data. -/
theorem items_eq_nil_iff {l : Listing} {hasMore : Bool} {data : List Byte} (first : Bool)
    (hne : data ≠ []) :
    (l.scan first hasMore data).items = [] ↔
      ∃ needed, (l.settings hasMore).front l.decoder.address data = .wait needed := by
  cases hfront : (l.settings hasMore).front l.decoder.address data with
  | wait needed =>
    rw [scan_wait hne hfront]
    exact iff_of_true rfl ⟨needed, rfl⟩
  | item body =>
    obtain ⟨labels, hscan⟩ := exists_scan_item first hne hfront
    rw [hscan]
    refine iff_of_false (List.cons_ne_nil _ _) ?_
    rintro ⟨needed, hwait⟩
    cases hwait

theorem itemText_ne_empty (l : Listing) (item : Item) : l.itemText item ≠ "" := by
  cases hlabel : item.label with
  | none =>
    rw [itemText_of_label_none hlabel]
    exact (opensAt_body ..).ne_empty
  | some label =>
    obtain ⟨rest, htext⟩ := exists_itemText_of_label (l := l) hlabel
    rw [htext]
    simp

theorem text_eq_empty_iff (l : Listing) (items : List Item) : l.text items = "" ↔ items = [] := by
  cases items with
  | nil => exact iff_of_true rfl rfl
  | cons item items =>
    rw [text_cons]
    refine iff_of_false ?_ (List.cons_ne_nil _ _)
    intro hempty
    exact l.itemText_ne_empty item (String.append_eq_empty_iff.mp hempty).1

end Listing

/-- A stream makes progress. Of any data, it consumes some bytes at the front and moves over as many
addresses, modulo the size of the address space; it prints something exactly if it consumes
something; it needs no more exactly if it consumes everything, and otherwise more than it has left.
If the data has the greatest length of an instruction, it consumes nothing exactly if the data is
zero bytes that are to be skipped, without a symbol inside them. -/
theorem printSome_progress {l : Listing} {source : SymbolSource}
    (h : l.presentation.symbols = source.lookup) (first : Bool) (data : List Byte) :
    ∃ text consumed needed,
      l.printSome first data = (text, l.skip consumed, data.drop consumed, needed) ∧
        consumed ≤ data.length ∧ (text = "" ↔ consumed = 0) ∧
        (needed = 0 ↔ consumed = data.length) ∧
        (consumed < data.length → data.length - consumed < needed) ∧
        (Instruction.maxLength ≤ data.length →
          (1 ≤ consumed ↔ l.decoder.options.decodeZeroes = true ∨ (∃ b ∈ data, b ≠ 0) ∨
            ∃ s ∈ source.symbols, l.decoder.address < s.address ∧
              s.address.toNat < l.decoder.address.toNat + data.length)) := by
  obtain ⟨consumed, htakes⟩ := l.exists_takes first data
  refine ⟨l.text (l.scan first true data).items, consumed, _, ?_, htakes.le, ?_,
    htakes.needed_eq_zero_iff, htakes.lt_needed, fun hlen => ?_⟩
  · rw [Listing.printSome, htakes.rest_eq, htakes.address_eq]
    rfl
  · rw [l.text_eq_empty_iff, htakes.items_eq_nil_iff]
  · have hne : data ≠ [] := List.length_pos_iff.mp (Nat.lt_of_lt_of_le (by decide) hlen)
    have hnext : (l.settings true).symbols.FindsNext source.symbols := by
      change l.presentation.symbols.FindsNext source.symbols
      rw [h]
      exact source.findsNext_lookup
    -- nothing is consumed exactly if the first byte has to wait
    rw [Nat.one_le_iff_ne_zero, Ne, ← htakes.items_eq_nil_iff, Listing.items_eq_nil_iff first hne,
      ScanSettings.exists_wait_iff hnext rfl hlen]
    simp only [not_and_or, not_forall, Bool.not_eq_false, Nat.not_le, exists_prop]
    rfl

/-- A symbol at the eleventh byte. -/
def dividingSymbols : SymbolTable := ⟨[⟨0x100a, "half"⟩]⟩

/-- A listing with this symbol. -/
def dividedListing : Listing :=
  ⟨⟨.long64, 0x1000, .default⟩, ⟨.plain, dividingSymbols.sorted.lookup, id⟩, ".bss"⟩

/-- Nothing but zero bytes, before the symbol and behind it. -/
def dividedZeroes : List Byte := List.replicate 20 0

/-- The bytes before the symbol can be listed, though more zero bytes can follow. -/
theorem printSome_progress_divided :
    ∃ text consumed needed,
      dividedListing.printSome true dividedZeroes =
          (text, dividedListing.skip consumed, dividedZeroes.drop consumed, needed) ∧
        text ≠ "" ∧ 1 ≤ consumed ∧ consumed ≤ 20 ∧ (consumed < 20 → 20 - consumed < needed) := by
  obtain ⟨text, consumed, needed, hprint, hle, htext, -, hneeded, hprogress⟩ :=
    @printSome_progress dividedListing (.table dividingSymbols) rfl true dividedZeroes
  have hinside : ∃ s ∈ dividingSymbols.pushed, dividedListing.decoder.address < s.address ∧
      s.address.toNat < dividedListing.decoder.address.toNat + dividedZeroes.length :=
    ⟨⟨0x100a, "half"⟩, List.mem_singleton_self _, by decide, by decide⟩
  have hpos : 1 ≤ consumed := (hprogress (by decide)).mpr (.inr (.inr hinside))
  refine ⟨text, consumed, needed, hprint, ?_, hpos, hle, hneeded⟩
  rw [Ne, htext]
  omega

end LengthDisasm
