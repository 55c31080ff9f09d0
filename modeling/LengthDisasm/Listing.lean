import LengthDisasm.Listing.Text

/-!
# Listings

A listing shows code with its addresses, bytes and labels. Data can be listed at once or as it comes
in, and then what more data could change stays pending.

## Main definitions

* `Listing` — a decoder with a presentation and the name of the section
* `Listing.print` — the text of data, all of it
* `Listing.printSome` — the text of data of which more will follow
* `Stream` — a listing with pending data; `Stream.feed` and `Stream.finish`
-/

namespace LengthDisasm

/-- A listing at the address of its decoder. -/
structure Listing where
  decoder : Decoder
  presentation : Presentation
  sectionName : String

namespace Listing

/-- Divide data into items; `first` says that the data starts the section. -/
def scan (l : Listing) (first hasMore : Bool) (data : List Byte) : Scan :=
  let symbols := l.presentation.symbols
  let address := l.decoder.address
  LengthDisasm.scan ⟨l.decoder.mode, l.decoder.options, symbols, hasMore⟩
    (Labels.start symbols l.sectionName first address) address data

/-- The text of the items of a scan. -/
def text (l : Listing) (items : List Item) : String :=
  String.join (items.map (l.presentation.item l.decoder.mode l.decoder.options.showRaw))

/-- The listing at another address. -/
def moveTo (l : Listing) (address : Address) : Listing :=
  { l with decoder := { l.decoder with address := address } }

/-- The text of data, and the listing after it. -/
def print (l : Listing) (first : Bool) (data : List Byte) : String × Listing :=
  let scanned := l.scan first false data
  (l.text scanned.items, l.moveTo scanned.address)

/-- The text of data of which more will follow, the listing after what was printed, the data that
was not, and how much of it has to be there to go on. -/
def printSome (l : Listing) (first : Bool) (data : List Byte) :
    String × Listing × List Byte × Nat :=
  let scanned := l.scan first true data
  (l.text scanned.items, l.moveTo scanned.address, scanned.rest, scanned.needed)

end Listing

/-- A listing of data that comes in pieces. -/
structure Stream where
  listing : Listing
  /-- Data that came in and is not printed yet. -/
  pending : List Byte

/-- What feeding a stream did. -/
structure Fed where
  text : String
  /-- How many pending bytes were printed. -/
  consumed : Nat
  /-- How many bytes have to be pending to go on; zero if none are. -/
  needed : Nat
  stream : Stream

namespace Stream

/-- More data comes in: print what it settles. -/
def feed (s : Stream) (first : Bool) (data : List Byte) : Fed :=
  let buffer := s.pending ++ data
  let (text, listing, rest, needed) := s.listing.printSome first buffer
  ⟨text, buffer.length - rest.length, needed, ⟨listing, rest⟩⟩

/-- No more data comes in: print what is pending. -/
def finish (s : Stream) (first : Bool) : String × Stream :=
  let (text, listing) := s.listing.print first s.pending
  (text, ⟨listing, []⟩)

end Stream

end LengthDisasm
