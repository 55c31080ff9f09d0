import LengthDisasm.Decoder
import LengthDisasm.Symbols

/-!
# Items of a listing

A listing divides its data into items: decoded instructions, single bytes that start none, and runs
of zero bytes that are skipped. An item can carry a label.

## Main definitions

* `Item` — an address, a label and what stands there
* `Labels` — the labels still to be shown
* `Scan` — the items of some data, and what is left of it
* `scan` — divide data into items
-/

namespace LengthDisasm

/-- What a listing shows at an address. -/
inductive ItemBody where
  /-- So many zero bytes that are skipped. -/
  | elided (count : Nat)
  /-- Some bytes and what they decode to. -/
  | decoded (bytes : List Byte) (result : Except DecodeError Instruction)

namespace ItemBody

/-- The number of bytes of the data that the item covers. -/
def size : ItemBody → Nat
  | elided count => count
  | decoded _ result => decodedLength result

end ItemBody

/-- A label: the item stands `distance` bytes before the place named. -/
structure Label where
  name : String
  distance : Nat
deriving DecidableEq, Repr

/-- One item of a listing. -/
structure Item where
  address : Address
  label : Option Label
  body : ItemBody

/-- The labels that are still to be shown. -/
structure Labels where
  /-- The label of the first item, whatever its address. -/
  heading : Option Label
  /-- The symbol that is waited for. -/
  next : Option Symbol
deriving DecidableEq, Repr

namespace Labels

/-- The labels of data at an address. The first item is labelled if a symbol stands there; and, at
the front of a section, else with the distance to the next symbol or with the name of the
section. -/
def start (symbols : SymbolLookup) (sectionName : String) (first : Bool) (address : Address) :
    Labels :=
  let next := symbols.after? address
  let fallback := if first then
      match next with
      | some s => some ⟨s.name, (s.address - address).toNat⟩
      | none => some ⟨sectionName, 0⟩
    else none
  let heading := match symbols.find? address with
    | some s => if s.address = address then some ⟨s.name, 0⟩ else fallback
    | none => fallback
  ⟨heading, next⟩

/-- The label of the item at an address, and the labels for the items after it. -/
def take (symbols : SymbolLookup) (address : Address) (labels : Labels) : Option Label × Labels :=
  match labels.heading, labels.next with
  | some label, _ => (some label, { labels with heading := none })
  | none, some s =>
    if s.address = address then (some ⟨s.name, 0⟩, { labels with next := symbols.after? address })
    else (none, labels)
  | none, none => (none, labels)

end Labels

/-- What stands at the front of data. -/
inductive Front where
  /-- It cannot be told before so many bytes are there. -/
  | wait (needed : Nat)
  /-- An item. -/
  | item (body : ItemBody)

/-- How data is divided into items: the decoder's mode and options and the symbols. -/
structure ScanSettings where
  mode : Mode
  options : DecodeOptions
  symbols : SymbolLookup
  /-- More data will follow, so what more data could change has to wait. -/
  hasMore : Bool

namespace ScanSettings

/-- The distance to the next symbol, which no skipped run reaches across. -/
def limit (settings : ScanSettings) (address : Address) : Option Nat :=
  (settings.symbols.after? address).map fun s => (s.address - address).toNat

/-- The instruction, or the byte that starts none, at the front of data. -/
def decodedFront (settings : ScanSettings) (data : List Byte) : Front :=
  let item := fun result => Front.item (.decoded (data.take (decodedLength result)) result)
  match decode settings.mode data with
  | .error .insufficientLength =>
    if settings.hasMore && ZeroRun.fewerThan Instruction.maxLength data then
      .wait Instruction.maxLength
    else item (.error .insufficientLength)
  | result => item result

/-- What stands at the front of data at an address. -/
def front (settings : ScanSettings) (address : Address) (data : List Byte) : Front :=
  if settings.options.decodeZeroes then settings.decodedFront data
  else if settings.hasMore && ZeroRun.fewerThan ZeroRun.blockSize data then
    .wait ZeroRun.blockSize
  else
    let limit := settings.limit address
    let run := ZeroRun.length data
    if settings.hasMore && ZeroRun.isAll data && limit.all (fun n => decide (run ≤ n)) then
      .wait (run + 1)
    else
      match ZeroRun.elided? limit data with
      | some count => .item (.elided count)
      | none => settings.decodedFront data

theorem size_pos_of_decodedFront {settings : ScanSettings} {data : List Byte} {body : ItemBody}
    (h : settings.decodedFront data = .item body) : 0 < body.size := by
  have hpos := decodedLength_pos settings.mode data
  unfold decodedFront at h
  split at h
  · split at h
    · cases h
    · cases h
      exact Nat.one_pos
  · cases h
    exact hpos

theorem size_pos_of_front {settings : ScanSettings} {address : Address} {data : List Byte}
    {body : ItemBody} (h : settings.front address data = .item body) : 0 < body.size := by
  unfold front at h
  split at h
  · exact size_pos_of_decodedFront h
  · split at h
    · cases h
    · simp only at h
      split at h
      · cases h
      · split at h
        · rename_i hz
          cases h
          exact ZeroRun.elided?_pos hz
        · exact size_pos_of_decodedFront h

end ScanSettings

/-- The result of dividing data into items. -/
structure Scan where
  items : List Item
  /-- The address after the items. -/
  address : Address
  /-- The data after the items. -/
  rest : List Byte
  /-- How many bytes have to be there to go on; zero if all data is divided. -/
  needed : Nat

/-- Divide data into items, put in reverse order before `done`. -/
def scanOnto (settings : ScanSettings) (done : List Item) (labels : Labels) (address : Address)
    (data : List Byte) : Scan :=
  if _hne : data = [] then ⟨done.reverse, address, [], 0⟩
  else
    match _h : settings.front address data with
    | .wait needed => ⟨done.reverse, address, data, needed⟩
    | .item body =>
      let (label, labels) := labels.take settings.symbols address
      scanOnto settings (⟨address, label, body⟩ :: done) labels
        (address + BitVec.ofNat 64 body.size) (data.drop body.size)
termination_by data.length
decreasing_by
  have hlen : 0 < data.length := List.length_pos_iff.mpr _hne
  have hpos := ScanSettings.size_pos_of_front _h
  simp only [List.length_drop]
  omega

/-- Divide data at an address into items. -/
def scan (settings : ScanSettings) (labels : Labels) (address : Address) (data : List Byte) :
    Scan :=
  scanOnto settings [] labels address data

end LengthDisasm
