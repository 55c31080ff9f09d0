import LengthDisasm.Proofs.Locality
import LengthDisasm.Proofs.Scan

/-!
# Listing data as it comes in

A stream prints what later data cannot change and keeps the rest. Three things have to wait: data
too short to tell a zero run, data that is all zero up to the next symbol, and an instruction that
is not there in full. Everything else is settled, and so data that comes in pieces is listed in the
same way as data that is there at once.

## Main definitions

* `Scan.Takes` — a scan has taken so many bytes
* `Stream.run` — feed a stream with pieces of data, then finish it

## Main results

* `ScanSettings.bodyAt_append_of_front` — what is not made to wait is settled
* `ScanSettings.wait_cases`, `exists_takes` — why data waits, and how far a scan gets
* `Listing.scan_append` — a scan of data that was scanned in part before
* `print_pieces` — pieces are listed as the data they make up
-/

namespace LengthDisasm

/-! ### What is settled -/

/-- Code beyond the greatest length of an instruction is not looked at. -/
theorem decode_append_of_maxLength_le (mode : Mode) {code : List Byte}
    (h : Instruction.maxLength ≤ code.length) (more : List Byte) :
    decode mode (code ++ more) = decode mode code := by
  simp only [decode, Cursor.limit, List.take_append_of_le_length h]

theorem ItemBody.decodedAt_append {mode : Mode} {data : List Byte}
    (h : decode mode data = .error .insufficientLength → Instruction.maxLength ≤ data.length)
    (more : List Byte) : decodedAt mode (data ++ more) = decodedAt mode data := by
  have hdecode : decode mode (data ++ more) = decode mode data := by
    by_cases hshort : decode mode data = .error .insufficientLength
    · exact decode_append_of_maxLength_le mode (h hshort) more
    · exact decode_append hshort more
  have hne : data ≠ [] := by
    rintro rfl
    exact absurd (h rfl) (by decide)
  rw [decodedAt, decodedAt, hdecode, List.take_append_of_le_length (decodedLength_le hne)]

namespace ScanSettings

variable {settings : ScanSettings} {a : Address} {data : List Byte} {body : ItemBody}

theorem decodedAt_append_of_decodedFront (hmore : settings.hasMore = true)
    (h : settings.decodedFront data = .item body) (more : List Byte) :
    ItemBody.decodedAt settings.mode (data ++ more) = body := by
  rw [decodedFront_eq] at h
  split at h
  · cases h
  · rename_i hwait
    rw [ItemBody.decodedAt_append fun hshort => ?_]
    · exact Front.item.inj h
    · exact Nat.le_of_not_lt fun hlt => hwait ⟨hshort, hmore, hlt⟩

/-- A zero run that does not have to wait is skipped alike whatever follows. -/
theorem elided?_append_of_front {limit : Option Nat}
    (h : ¬ (ZeroRun.isAll data && limit.all fun n => decide (ZeroRun.length data ≤ n)) = true)
    (more : List Byte) : ZeroRun.elided? limit (data ++ more) = ZeroRun.elided? limit data := by
  rcases ZeroRun.elided?_append_or limit data more with heq | ⟨hall, hlimit⟩
  · exact heq
  · -- zero data that ends before the next symbol was made to wait
    refine absurd (ZeroRun.isAll_and_le_limit_iff.mpr ⟨hall, ?_⟩) h
    intro n hn
    exact Nat.le_of_lt (hlimit n hn)

/-- What is not made to wait is not changed by more data. -/
theorem bodyAt_append_of_front (hmore : settings.hasMore = true)
    (h : settings.front a data = .item body) (more : List Byte) :
    settings.bodyAt a (data ++ more) = body := by
  unfold front at h
  unfold bodyAt
  split
  · rename_i hzeroes
    rw [if_pos hzeroes] at h
    exact decodedAt_append_of_decodedFront hmore h more
  · rename_i hzeroes
    rw [if_neg hzeroes] at h
    split at h
    · cases h
    · simp only [hmore, Bool.true_and] at h
      split at h
      · cases h
      · rename_i hrun
        rw [elided?_append_of_front hrun more]
        cases helided : ZeroRun.elided? (settings.limit a) data with
        | some count =>
          rw [helided] at h
          exact Front.item.inj h
        | none =>
          rw [helided] at h
          exact decodedAt_append_of_decodedFront hmore h more

/-! ### What has to wait -/

theorem wait_of_decodedFront {needed : Nat} (h : settings.decodedFront data = .wait needed) :
    settings.hasMore = true ∧ data.length < Instruction.maxLength ∧
    needed = Instruction.maxLength := by
  rw [decodedFront_eq] at h
  split at h
  · rename_i hshort
    exact ⟨hshort.2.1, hshort.2.2, (Front.wait.inj h).symm⟩
  · cases h

/-- Why data has to wait, and for what: it is too short to tell a zero run, it is all zero and the
run can go on before the next symbol, or it is too short for an instruction. -/
theorem wait_cases {needed : Nat} (h : settings.front a data = .wait needed) :
    settings.hasMore = true ∧
      (data.length < ZeroRun.blockSize ∧ needed = ZeroRun.blockSize ∨
        (settings.options.decodeZeroes = false ∧ ZeroRun.isAll data = true ∧
          ∀ n, settings.limit a = some n → data.length ≤ n) ∧ needed = data.length + 1 ∨
        data.length < Instruction.maxLength ∧ needed = Instruction.maxLength) := by
  unfold front at h
  split at h
  · -- zeroes are decoded, so only an instruction can be too long
    exact (wait_of_decodedFront h).imp_right fun hwait => .inr (.inr hwait)
  · rename_i hzeroes
    split at h
    · rename_i hshort
      rw [Bool.and_eq_true, ZeroRun.fewerThan_iff] at hshort
      exact ⟨hshort.1, .inl ⟨hshort.2, (Front.wait.inj h).symm⟩⟩
    · simp only at h
      split at h
      · rename_i hrun
        rw [Bool.and_assoc, Bool.and_eq_true, ZeroRun.isAll_and_le_limit_iff] at hrun
        obtain ⟨hmore, hall, hlimit⟩ := hrun
        rw [ZeroRun.isAll_iff.mp hall] at h
        exact ⟨hmore,
          .inr (.inl ⟨⟨Bool.eq_false_iff.mpr hzeroes, hall, hlimit⟩, (Front.wait.inj h).symm⟩)⟩
      · cases helided : ZeroRun.elided? (settings.limit a) data with
        | some count =>
          rw [helided] at h
          cases h
        | none =>
          rw [helided] at h
          exact (wait_of_decodedFront h).imp_right fun hwait => .inr (.inr hwait)

/-- Data waits for more than is there. -/
theorem lt_of_wait {needed : Nat} (h : settings.front a data = .wait needed) :
    data.length < needed := by
  obtain ⟨-, ⟨hlt, rfl⟩ | ⟨-, rfl⟩ | ⟨hlt, rfl⟩⟩ := wait_cases h
  · exact hlt
  · exact Nat.lt_succ_self _
  · exact hlt

end ScanSettings

/-! ### Scanning in parts -/

/-- A scan has taken so many bytes from the front of the data at an address: it left the rest, moved
the address, has items if it took any, and asks for more than the rest exactly if there is one. -/
structure Scan.Takes (s : Scan) (a : Address) (data : List Byte) (n : Nat) : Prop where
  le : n ≤ data.length
  rest_eq : s.rest = data.drop n
  address_eq : s.address = a + BitVec.ofNat 64 n
  items_eq_nil_iff : s.items = [] ↔ n = 0
  needed_eq_zero_iff : s.needed = 0 ↔ n = data.length
  lt_needed : n < data.length → data.length - n < s.needed

/-- An item in front is taken together with what is taken behind it. -/
theorem Scan.Takes.prepend {s : Scan} {a : Address} {data : List Byte} {size n : Nat}
    (h : s.Takes (a + BitVec.ofNat 64 size) (data.drop size) n) (hpos : 0 < size)
    (hle : size ≤ data.length) (item : Item) : (s.prepend [item]).Takes a data (size + n) := by
  -- all counts are of the data behind the item, which is shorter by its size
  have hlength : (data.drop size).length = data.length - size := List.length_drop
  have hn := h.le
  have hzero := h.needed_eq_zero_iff
  have hneeded := h.lt_needed
  rw [hlength] at hn hzero hneeded
  constructor
  · omega
  · rw [Scan.rest_prepend, h.rest_eq, List.drop_drop]
  · rw [Scan.address_prepend, h.address_eq, BitVec.add_assoc, ← BitVec.ofNat_add]
  · refine iff_of_false (List.cons_ne_nil _ _) ?_
    omega
  · rw [Scan.needed_prepend, hzero]
    omega
  · intro hlt
    rw [Scan.needed_prepend]
    have hmore := hneeded (by omega)
    omega

/-- Every scan takes some bytes and tells how many it needs to go on. -/
theorem exists_takes (settings : ScanSettings) (labels : Labels) (a : Address) (data : List Byte) :
    ∃ n, (scan settings labels a data).Takes a data n := by
  induction labels, a, data using scan_induction settings with
  | nil labels a =>
    rw [scan_nil]
    exact ⟨0, by constructor <;> simp⟩
  | wait labels a data needed hne hfront =>
    have hlt := ScanSettings.lt_of_wait hfront
    have hlen := List.length_pos_iff.mpr hne
    rw [scan_wait hne hfront]
    exact ⟨0, Nat.zero_le _, rfl, (BitVec.add_zero a).symm, iff_of_true rfl rfl,
      iff_of_false (Nat.ne_zero_of_lt hlt) (Nat.ne_of_lt hlen), fun _ => hlt⟩
  | item labels a data body hne hfront ih =>
    obtain ⟨n, hn⟩ := ih
    rw [scan_item hne hfront]
    exact ⟨body.size + n, hn.prepend (ScanSettings.size_pos_of_front hfront)
      (ScanSettings.size_le_of_front hne hfront) _⟩

namespace Listing

variable {l : Listing} {symbols : List Symbol} {first : Bool} {data more : List Byte}

/-- The listing that goes on where a scan of data of which more will follow has stopped. -/
def afterSome (l : Listing) (first : Bool) (data : List Byte) : Listing :=
  l.moveTo (l.scan first true data).address

/-- What is listed next starts the section only if nothing is listed yet. -/
def firstAfter (l : Listing) (first : Bool) (data : List Byte) : Bool :=
  first && (l.scan first true data).items.isEmpty

/-- An item that does not have to wait is the first item also when more data is there. -/
theorem scan_append_item (h : l.Fits symbols first (data ++ more)) (hne : data ≠ [])
    {body : ItemBody} (hfront : (l.settings true).front l.decoder.address data = .item body) :
    l.scan first false (data ++ more) =
        ((l.skip body.size).scan false false (data.drop body.size ++ more)).prepend
          [⟨l.decoder.address, l.headingLabel first, body⟩] ∧
      l.scan first true data =
        ((l.skip body.size).scan false true (data.drop body.size)).prepend
          [⟨l.decoder.address, l.headingLabel first, body⟩] ∧
      (l.skip body.size).Fits symbols false (data.drop body.size ++ more) := by
  have hitem : l.itemAt first (data ++ more) = ⟨l.decoder.address, l.headingLabel first, body⟩ :=
    congrArg (Item.mk _ _) (ScanSettings.bodyAt_append_of_front rfl hfront more)
  have hsize := ScanSettings.size_le_of_front hne hfront
  have hne' : data ++ more ≠ [] := by simp [hne]
  have hwhole := h.scan_eq hne'
  have htail := h.tail hne'
  have hfree := fun s hs hlt => h.le_address (s := s) hne' hs hlt
  rw [hitem] at hwhole htail hfree
  rw [List.drop_append_of_le_length hsize] at hwhole htail
  have hend := h.end_le
  rw [List.length_append] at hend
  exact ⟨hwhole, scan_item_of_free h.answers hne hfront (by omega) hfree, htail⟩

/-- A scan of data is a scan of its front, as far as this is settled, and a scan of all that is
left. -/
theorem scan_append (h : l.Fits symbols first (data ++ more)) :
    l.scan first false (data ++ more) =
        ((l.afterSome first data).scan (l.firstAfter first data) false
          ((l.scan first true data).rest ++ more)).prepend (l.scan first true data).items ∧
      (l.afterSome first data).Fits symbols (l.firstAfter first data)
        ((l.scan first true data).rest ++ more) := by
  unfold afterSome firstAfter
  induction hn : data.length using Nat.strongRecOn generalizing l first data with
  | ind n ih =>
    by_cases hne : data = []
    · -- nothing is listed, so what follows starts as this does
      rw [hne, scan_nil, List.isEmpty_nil, Bool.and_true, ← hne]
      exact ⟨rfl, h⟩
    · cases hfront : (l.settings true).front l.decoder.address data with
      | wait needed =>
        rw [scan_wait hne hfront, List.isEmpty_nil, Bool.and_true]
        exact ⟨rfl, h⟩
      | item body =>
        obtain ⟨hwhole, hpart, htail⟩ := scan_append_item h hne hfront
        have hlength : (data.drop body.size).length < n := by
          have hpos := ScanSettings.size_pos_of_front hfront
          have hlen := List.length_pos_iff.mpr hne
          rw [List.length_drop]
          omega
        obtain ⟨hscan, hfits⟩ := ih _ hlength htail rfl
        -- something is listed now, so what comes next does not start the section
        rw [hpart]
        simp only [Scan.items_prepend, Scan.address_prepend, Scan.rest_prepend, List.cons_append,
          List.nil_append, List.isEmpty_cons, Bool.and_false]
        simp only [Bool.false_and] at hscan hfits
        refine ⟨?_, hfits⟩
        rw [hwhole, hscan, Scan.prepend_prepend]
        rfl

theorem exists_takes (l : Listing) (first : Bool) (data : List Byte) :
    ∃ n, (l.scan first true data).Takes l.decoder.address data n :=
  LengthDisasm.exists_takes ..

/-- Bytes are consumed exactly if something is listed. -/
theorem isEmpty_items (l : Listing) (first : Bool) (data : List Byte) :
    (l.scan first true data).items.isEmpty =
      (data.length - (l.scan first true data).rest.length == 0) := by
  obtain ⟨n, h⟩ := l.exists_takes first data
  rw [h.rest_eq, List.length_drop, Nat.sub_sub_self h.le, Bool.eq_iff_iff, List.isEmpty_iff,
    beq_iff_eq, h.items_eq_nil_iff]

end Listing

/-! ### Streams -/

namespace Stream

/-- Feed a stream with pieces of data one after the other and finish it: the text and the stream
after it. What is printed starts the section until some bytes have been consumed. -/
def run (s : Stream) (first : Bool) : List (List Byte) → String × Stream
  | [] => s.finish first
  | piece :: pieces =>
    let fed := s.feed first piece
    let (text, s') := fed.stream.run (first && fed.consumed == 0) pieces
    (fed.text ++ text, s')

/-- A stream prints its pending data and all pieces like a listing of all that data. -/
theorem run_eq {symbols : List Symbol} {s : Stream} {first : Bool} {pieces : List (List Byte)}
    (h : s.listing.Fits symbols first (s.pending ++ pieces.flatten)) :
    s.run first pieces =
      ((s.listing.print first (s.pending ++ pieces.flatten)).1,
        ⟨(s.listing.print first (s.pending ++ pieces.flatten)).2, []⟩) := by
  induction pieces generalizing s first with
  | nil =>
    rw [List.flatten_nil, List.append_nil]
    rfl
  | cons piece pieces ih =>
    -- the pending data and the piece are the front of all data that is still to come
    rw [List.flatten_cons, ← List.append_assoc] at h ⊢
    obtain ⟨hscan, hfits⟩ := Listing.scan_append h
    have hfed : (s.feed first piece).stream = ⟨s.listing.afterSome first (s.pending ++ piece),
        (s.listing.scan first true (s.pending ++ piece)).rest⟩ := rfl
    have hfirst : (first && (s.feed first piece).consumed == 0) =
        s.listing.firstAfter first (s.pending ++ piece) := by
      rw [Listing.firstAfter, Listing.isEmpty_items]
      rfl
    rw [run, hfirst, hfed, ih hfits]
    simp only [Listing.print, hscan, Scan.items_prepend, Listing.text_append]
    rfl

end Stream

/-- Streaming is printing at once: whatever pieces the data comes in, the pieces give the text and
leave the listing at the address that all data printed at once does, if no two symbols of the table
share an address and none lies inside an instruction of the listing. -/
theorem print_pieces (l : Listing) (t : SymbolTable) (pieces : List (List Byte))
    (hsymbols : l.presentation.symbols = t.sorted.lookup)
    (hdistinct : (t.pushed.map Symbol.address).Nodup)
    (hend : l.decoder.address.toNat + pieces.flatten.length ≤ 2 ^ 64)
    (hunsplit : ∀ item ∈ (l.scan true false pieces.flatten).items, ∀ s ∈ t.pushed,
      ¬ item.IsSplitBy s) :
    (Stream.run ⟨l, []⟩ true pieces).1 = (l.print true pieces.flatten).1 ∧
      (Stream.run ⟨l, []⟩ true pieces).2 = ⟨(l.print true pieces.flatten).2, []⟩ := by
  have hfits : l.Fits t.pushed true pieces.flatten :=
    ⟨hsymbols ▸ SymbolTable.answers_lookup hdistinct, hend, hunsplit⟩
  have hrun : Stream.run ⟨l, []⟩ true pieces = _ := Stream.run_eq hfits
  exact ⟨congrArg Prod.fst hrun, congrArg Prod.snd hrun⟩

/-- A function that starts with a zero run, and a symbol inside the run. -/
def paddedSymbols : SymbolTable := ⟨[⟨0x1012, "inner"⟩, ⟨0x1000, "padded"⟩]⟩

/-- A listing of code with these symbols. -/
def paddedListing : Listing :=
  ⟨⟨.long64, 0x1000, .default⟩, ⟨.plain, paddedSymbols.sorted.lookup, id⟩, ".text"⟩

/-- Twenty zero bytes and a call. Two pieces are empty, one ends inside the run, and the call is not
there in full before the last one. -/
def paddedPieces : List (List Byte) :=
  [[], List.replicate 5 0, List.replicate 15 0 ++ [0xe8], [], [4, 3], [2, 1]]

/-- The listing: the run is skipped up to the symbol inside, and shown from its last bytes on. -/
def paddedText : String :=
  "\n0000000000001000 <padded>:\n\t...\n" ++
  "    1010:\t00 00                \top=00 modrm=00 flags=ModRM\n" ++
  "\n0000000000001012 <inner>:\n" ++
  "    1012:\t00 00                \top=00 modrm=00 flags=ModRM\n" ++
  "    1014:\te8 04 03 02 01       \top=e8 imm=i32(0x1020304 / 16909060) flags=Imm32|Relative" ++
  "\t# 102131d <inner+0x102030b>\n"

theorem print_pieces_padded :
    (paddedListing.print true paddedPieces.flatten).1 = paddedText ∧
      (Stream.run ⟨paddedListing, []⟩ true paddedPieces).1 = paddedText ∧
      (Stream.run ⟨paddedListing, []⟩ true paddedPieces).2 =
        ⟨(paddedListing.print true paddedPieces.flatten).2, []⟩ := by
  have hlisting : paddedListing = ⟨⟨.long64, 0x1000, .default⟩,
      ⟨.plain, SymbolIndex.lookup [⟨0x1000, "padded"⟩, ⟨0x1012, "inner"⟩], id⟩, ".text"⟩ := by
    simp [paddedListing, SymbolTable.sorted, paddedSymbols, List.mergeSort]
  have hall : ((paddedListing.scan true false paddedPieces.flatten).items.all fun item =>
      paddedSymbols.pushed.all fun s => !decide (item.IsSplitBy s)) = true := by
    rw [hlisting]
    decide +kernel
  have hprint : (paddedListing.print true paddedPieces.flatten).1 = paddedText := by
    rw [hlisting]
    decide +kernel
  obtain ⟨htext, hstream⟩ := print_pieces paddedListing paddedSymbols paddedPieces rfl (by decide)
    (by decide) (by simpa [List.all_eq_true] using hall)
  exact ⟨hprint, htext.trans hprint, hstream⟩

end LengthDisasm
