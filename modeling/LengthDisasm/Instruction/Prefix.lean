import LengthDisasm.Byte

/-!
# Prefixes

Legacy prefix bytes stand before the opcode in any order and number. Of the segment overrides only
the last one counts, and so of the two repeat prefixes; a `PrefixSet` holds what remains.

## Main definitions

* `Segment`, `Prefix` — the kinds of prefix, with the byte of each
* `PrefixSet` — a set of prefixes as a 16-bit word
* `PrefixSet.insert` — add a prefix and drop the one that it replaces
* `PrefixSet.ofRun` — the set of a run of prefix bytes
-/

namespace LengthDisasm

/-- A segment override. -/
inductive Segment where
  | ds | cs | ss | es | fs | gs
deriving DecidableEq, Repr

namespace Segment

/-- Every segment, in the order of their bits in a prefix set. -/
def all : List Segment := [ds, cs, ss, es, fs, gs]

/-- The place of a segment in `Segment.all`. -/
def position : Segment → Nat
  | ds => 0
  | cs => 1
  | ss => 2
  | es => 3
  | fs => 4
  | gs => 5

/-- The override byte of a segment. -/
def byte : Segment → Byte
  | ds => 0x3e
  | cs => 0x2e
  | ss => 0x36
  | es => 0x26
  | fs => 0x64
  | gs => 0x65

/-- The assembler's name of a segment register. -/
def name : Segment → String
  | ds => "ds"
  | cs => "cs"
  | ss => "ss"
  | es => "es"
  | fs => "fs"
  | gs => "gs"

end Segment

/-- A kind of prefix. -/
inductive Prefix where
  /-- Stands for the absence of legacy prefixes. -/
  | unprefixed
  | repNZ
  | rep
  | opSize
  | addrSize
  | lock
  | rex
  | segment (s : Segment)
deriving DecidableEq, Repr

namespace Prefix

/-- Every prefix, by ascending bit position. -/
def all : List Prefix :=
  [unprefixed, repNZ, rep, opSize, addrSize, lock, rex] ++ Segment.all.map segment

/-- The bit position of a prefix in a prefix set. -/
def position : Prefix → Nat
  | unprefixed => 0
  | repNZ => 1
  | rep => 2
  | opSize => 3
  | addrSize => 4
  | lock => 5
  | rex => 6
  | segment s => 7 + s.position

/-- The word whose only set bit is that of the prefix. -/
def bit (p : Prefix) : BitVec 16 := 1 <<< p.position

/-- The legacy prefix that a byte stands for. A REX byte depends on the mode and is none of them. -/
def ofByte? (b : Byte) : Option Prefix :=
  match b with
  | 0xf3 => some rep
  | 0xf2 => some repNZ
  | 0xf0 => some lock
  | 0x2e => some (segment .cs)
  | 0x36 => some (segment .ss)
  | 0x3e => some (segment .ds)
  | 0x26 => some (segment .es)
  | 0x64 => some (segment .fs)
  | 0x65 => some (segment .gs)
  | 0x66 => some opSize
  | 0x67 => some addrSize
  | _ => none

/-- The segment of a segment override. -/
def segment? : Prefix → Option Segment
  | segment s => some s
  | _ => none

/-- The prefix is one of the two repeat prefixes. -/
def isRepeat : Prefix → Bool
  | rep => true
  | repNZ => true
  | _ => false

/-- The name shown in listings. -/
def name : Prefix → String
  | unprefixed => "None"
  | repNZ => "RepNZ"
  | rep => "Rep"
  | opSize => "OpSize"
  | addrSize => "AddrSize"
  | lock => "Lock"
  | rex => "REX"
  | segment .ds => "DS"
  | segment .cs => "CS"
  | segment .ss => "SS"
  | segment .es => "ES"
  | segment .fs => "FS"
  | segment .gs => "GS"

/-- The name of the kind of prefix, as it is shown inside a set. -/
def kindName : Prefix → String
  | unprefixed => "Unprefixed"
  | repNZ => "RepNZ"
  | rep => "Rep"
  | opSize => "OpSize"
  | addrSize => "AddrSize"
  | lock => "Lock"
  | rex => "Rex"
  | segment .ds => "SegDs"
  | segment .cs => "SegCs"
  | segment .ss => "SegSs"
  | segment .es => "SegEs"
  | segment .fs => "SegFs"
  | segment .gs => "SegGs"

end Prefix

/-- The segment that a byte selects as an override. -/
def Segment.ofByte? (b : Byte) : Option Segment := (Prefix.ofByte? b).bind Prefix.segment?

/-- A set of prefixes: bit `p.position` says whether `p` is in it. -/
structure PrefixSet where
  bits : BitVec 16
deriving DecidableEq, Repr

namespace PrefixSet

/-- The set without prefixes. -/
def empty : PrefixSet := ⟨0⟩

/-- The bits of all segment overrides. -/
def segmentMask : BitVec 16 := 0x1f80

/-- The bits of the two repeat prefixes. -/
def repeatMask : BitVec 16 := 0x0006

/-- The set has no prefix. -/
def isEmpty (s : PrefixSet) : Bool := s.bits == 0

/-- The prefix is in the set. -/
def contains (s : PrefixSet) (p : Prefix) : Bool := s.bits &&& p.bit != 0

/-- The set without the prefixes that `p` takes the place of. -/
def makeRoom (s : PrefixSet) (p : Prefix) : PrefixSet :=
  match p with
  | .segment _ => ⟨s.bits &&& ~~~segmentMask⟩
  | .rep => ⟨s.bits &&& ~~~repeatMask⟩
  | .repNZ => ⟨s.bits &&& ~~~repeatMask⟩
  | _ => s

/-- Add a prefix; a segment override replaces a segment override, a repeat prefix a repeat
prefix. -/
def insert (s : PrefixSet) (p : Prefix) : PrefixSet := ⟨(s.makeRoom p).bits ||| p.bit⟩

/-- Take a prefix out. -/
def erase (s : PrefixSet) (p : Prefix) : PrefixSet := ⟨s.bits &&& ~~~p.bit⟩

/-- The set that results from adding the prefixes in order. -/
def ofList (ps : List Prefix) : PrefixSet := ps.foldl insert empty

/-- The prefixes of the set, by ascending bit position. -/
def toList (s : PrefixSet) : List Prefix := Prefix.all.filter s.contains

/-- The prefix whose bit is the lowest bit set; there is none if that bit stands for no prefix. -/
def first? (s : PrefixSet) : Option Prefix := s.toList.head?

/-- The segment override of the set. -/
def segment? (s : PrefixSet) : Option Segment := s.toList.findSome? Prefix.segment?

/-- The set that a run of prefix bytes leaves, `unprefixed` if the run is empty. -/
def ofRun (run : List Byte) : PrefixSet :=
  let set := ofList (run.filterMap Prefix.ofByte?)
  if set.isEmpty then set.insert .unprefixed else set

/-- The set as text, by the names of the kinds. -/
def text (s : PrefixSet) : String :=
  "\x7b" ++ ", ".intercalate (s.toList.map Prefix.kindName) ++ "\x7d"

end PrefixSet

end LengthDisasm
