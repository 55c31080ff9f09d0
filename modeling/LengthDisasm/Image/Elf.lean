import LengthDisasm.Byte
import LengthDisasm.Instruction.Basic

/-!
# ELF files

An ELF file starts with a header that says how wide its fields are and in which order their bytes
stand, and where the table of sections is. Only what is needed to find code and symbols is read.

## Main definitions

* `ElfClass`, `ByteOrder` — the widths and the byte order of the fields
* `SectionHeader`, `SymbolEntry` — an entry of the section table and of a symbol table
* `Elf` — a file that was read
* `Elf.ofBytes?` — read a file, `none` if it is not a well-formed ELF file
* `Elf.sectionName?`, `Elf.sectionData?` — the name and the contents of a section
-/

namespace LengthDisasm

/-- The width of addresses in an ELF file. -/
inductive ElfClass where
  | elf32
  | elf64
deriving DecidableEq, Repr

/-- The order of the bytes of a number. -/
inductive ByteOrder where
  | little
  | big
deriving DecidableEq, Repr

namespace ByteOrder

/-- The number that some bytes spell. -/
def number (order : ByteOrder) (bytes : List Byte) : Nat :=
  match order with
  | little => Byte.littleEndian bytes
  | big => Byte.littleEndian bytes.reverse

end ByteOrder

/-- Where a field stands: `size` bytes from `offset` on. -/
structure Span where
  offset : Nat
  size : Nat
deriving DecidableEq, Repr

namespace Span

/-- The bytes of the span, if the data holds all of them. -/
def of? (s : Span) (data : List Byte) : Option (List Byte) :=
  if s.offset + s.size ≤ data.length then some ((data.drop s.offset).take s.size) else none

/-- The number in the span, zero if the data does not hold it. -/
def number (s : Span) (order : ByteOrder) (data : List Byte) : Nat :=
  order.number ((data.drop s.offset).take s.size)

end Span

/-- An entry of the section table. -/
structure SectionHeader where
  /-- The offset of the name in the table of section names. -/
  name : Nat
  type : Nat
  flags : Nat
  address : Nat
  offset : Nat
  size : Nat
  /-- The index of a related section. -/
  link : Nat
deriving DecidableEq, Repr

namespace SectionHeader

/-- A section type: contents that the program defines. -/
def progBits : Nat := 1

/-- A section type: a symbol table. -/
def symTab : Nat := 2

/-- A section type: a table of strings. -/
def strTab : Nat := 3

/-- A section type: takes no space in the file. -/
def noBits : Nat := 8

/-- A section type: a symbol table for dynamic linking. -/
def dynSym : Nat := 11

/-- The section is loaded into memory. -/
def isLoaded (h : SectionHeader) : Bool := h.flags.testBit 1

/-- The section holds instructions. -/
def isExecutable (h : SectionHeader) : Bool := h.flags.testBit 2

/-- The section is code. -/
def isText (h : SectionHeader) : Bool := h.type == progBits && h.isLoaded && h.isExecutable

end SectionHeader

/-- An entry of a symbol table. -/
structure SymbolEntry where
  /-- The offset of the name in the string table. -/
  name : Nat
  info : Nat
  other : Nat
  /-- The index of the section that the symbol belongs to. -/
  sectionIndex : Nat
  value : Nat
  size : Nat
deriving DecidableEq, Repr

namespace SymbolEntry

/-- What the symbol stands for. -/
def type (e : SymbolEntry) : Nat := e.info % 16

/-- How the symbol is seen from other files. -/
def binding (e : SymbolEntry) : Nat := e.info / 16

/-- The visibility of the symbol. -/
def visibility (e : SymbolEntry) : Nat := e.other % 4

end SymbolEntry

namespace ElfClass

/-- The class that the fifth byte of a file names. -/
def ofByte? (b : Byte) : Option ElfClass :=
  if b = 1 then some elf32 else if b = 2 then some elf64 else none

/-- One of two values, by class. -/
def select {α : Type} (c : ElfClass) (narrow wide : α) : α :=
  match c with
  | elf32 => narrow
  | elf64 => wide

/-- The size of the file header. -/
def headerSize (c : ElfClass) : Nat := c.select 52 64

/-- The size of an entry of the program table. -/
def programEntrySize (c : ElfClass) : Nat := c.select 32 56

/-- The size of an entry of the section table. -/
def sectionEntrySize (c : ElfClass) : Nat := c.select 40 64

/-- The size of an entry of a symbol table. -/
def symbolEntrySize (c : ElfClass) : Nat := c.select 16 24

/-- An entry of the section table. -/
def sectionHeader (c : ElfClass) (order : ByteOrder) (entry : List Byte) : SectionHeader :=
  let field := fun (narrow wide : Span) => (c.select narrow wide).number order entry
  { name := field ⟨0, 4⟩ ⟨0, 4⟩
    type := field ⟨4, 4⟩ ⟨4, 4⟩
    flags := field ⟨8, 4⟩ ⟨8, 8⟩
    address := field ⟨12, 4⟩ ⟨16, 8⟩
    offset := field ⟨16, 4⟩ ⟨24, 8⟩
    size := field ⟨20, 4⟩ ⟨32, 8⟩
    link := field ⟨24, 4⟩ ⟨40, 4⟩ }

/-- An entry of a symbol table. -/
def symbolEntry (c : ElfClass) (order : ByteOrder) (entry : List Byte) : SymbolEntry :=
  let field := fun (narrow wide : Span) => (c.select narrow wide).number order entry
  { name := field ⟨0, 4⟩ ⟨0, 4⟩
    info := field ⟨12, 1⟩ ⟨4, 1⟩
    other := field ⟨13, 1⟩ ⟨5, 1⟩
    sectionIndex := field ⟨14, 2⟩ ⟨6, 2⟩
    value := field ⟨4, 4⟩ ⟨8, 8⟩
    size := field ⟨8, 4⟩ ⟨16, 8⟩ }

end ElfClass

/-- The first `count` pieces of `size` bytes of data. -/
def pieces (size : Nat) : (count : Nat) → List Byte → List (List Byte)
  | 0, _ => []
  | count + 1, data => data.take size :: pieces size count (data.drop size)

/-- A table of strings: the part of the file that holds it, if there is one. -/
abbrev StringTable := Option Span

/-- The bytes of the string that starts at `offset` of the table; it ends before a zero byte, which
has to stand in the table. -/
def StringTable.get? (table : StringTable) (file : List Byte) (offset : Nat) :
    Option (List Byte) := do
  let span ← table
  if offset ≤ span.size then
    let rest ← Span.of? ⟨span.offset + offset, span.size - offset⟩ file
    let text := rest.takeWhile (· != 0)
    if text.length < rest.length then some text else none
  else none

/-- The text of bytes in UTF-8. -/
def textOfBytes? (bytes : List Byte) : Option String :=
  String.fromUTF8? ⟨(bytes.map fun b => UInt8.ofBitVec b).toArray⟩

/-- An ELF file that was read. -/
structure Elf where
  file : List Byte
  elfClass : ElfClass
  order : ByteOrder
  machine : Nat
  sections : List SectionHeader
  sectionNames : StringTable
  /-- The symbols with their names, without the empty entry that every table starts with. They come
  from the symbol table, or from that for dynamic linking if there are none. -/
  symbols : List (SymbolEntry × Option String)

namespace Elf

/-- The bytes that every file starts with. -/
def magic : List Byte := [0x7f, 0x45, 0x4c, 0x46]

/-- The section index that stands for one that is too large for its field. -/
def largeIndex : Nat := 0xffff

/-- The contents of a section in the file. -/
def contents? (file : List Byte) (h : SectionHeader) : Option (List Byte) :=
  if h.type = SectionHeader.noBits then some [] else Span.of? ⟨h.offset, h.size⟩ file

/-- The section table. A table without an offset is empty; a count of zero stands for the size field
of the first entry. -/
def readSections (c : ElfClass) (order : ByteOrder) (file header : List Byte) :
    Option (List SectionHeader) := do
  let field := fun (narrow wide : Span) => (c.select narrow wide).number order header
  let offset := field ⟨32, 4⟩ ⟨40, 8⟩
  let entrySize := field ⟨46, 2⟩ ⟨58, 2⟩
  let stated := field ⟨48, 2⟩ ⟨60, 2⟩
  if offset = 0 then return []
  if entrySize ≠ c.sectionEntrySize then none
  let first ← Span.of? ⟨offset, c.sectionEntrySize⟩ file
  let count := if stated = 0 then (c.sectionHeader order first).size else stated
  let table ← Span.of? ⟨offset, count * c.sectionEntrySize⟩ file
  return (pieces c.sectionEntrySize count table).map (c.sectionHeader order)

/-- The program table, if there is one, has entries of the right size and lies in the file. -/
def programsFit (c : ElfClass) (order : ByteOrder) (file header : List Byte) : Bool :=
  let field := fun (narrow wide : Span) => (c.select narrow wide).number order header
  let offset := field ⟨28, 4⟩ ⟨32, 8⟩
  let entrySize := field ⟨42, 2⟩ ⟨54, 2⟩
  let count := field ⟨44, 2⟩ ⟨56, 2⟩
  offset == 0 || count == 0 || count == largeIndex ||
    (entrySize == c.programEntrySize &&
      (Span.of? ⟨offset, count * c.programEntrySize⟩ file).isSome)

/-- The table of section names; the header says which section holds it. -/
def readSectionNames (c : ElfClass) (order : ByteOrder) (header : List Byte)
    (sections : List SectionHeader) : Option StringTable :=
  match sections with
  | [] => some none
  | first :: _ => do
    let stated := (c.select (⟨50, 2⟩ : Span) ⟨62, 2⟩).number order header
    let index := if stated = largeIndex then first.link else stated
    let names ← sections[index]?
    return if names.type = SectionHeader.noBits then none else some ⟨names.offset, names.size⟩

/-- The string table that a symbol table is linked to. -/
def linkedStrings (sections : List SectionHeader) (link : Nat) : Option StringTable :=
  if link = 0 then some none
  else do
    let strings ← sections[link]?
    if strings.type = SectionHeader.strTab then return some ⟨strings.offset, strings.size⟩ else none

/-- The entries of the first symbol table of a type, if there is one. -/
def readSymbols (c : ElfClass) (order : ByteOrder) (file : List Byte)
    (sections : List SectionHeader) (type : Nat) : Option (List (SymbolEntry × Option String)) :=
  match sections.find? (·.type == type) with
  | none => some []
  | some h => do
    let table ← contents? file h
    let strings ← linkedStrings sections h.link
    let entries := pieces c.symbolEntrySize (table.length / c.symbolEntrySize) table
    return entries.map fun bytes =>
      let entry := c.symbolEntry order bytes
      (entry, (strings.get? file entry.name).bind textOfBytes?)

/-- The byte order that the sixth byte of a file names. -/
def orderOfByte? (b : Byte) : Option ByteOrder :=
  if b = 1 then some .little else if b = 2 then some .big else none

/-- Read an ELF file. -/
def ofBytes? (file : List Byte) : Option Elf := do
  let ident ← Span.of? ⟨0, 16⟩ file
  if ident.take 4 ≠ magic then none
  let c ← ElfClass.ofByte? (← ident[4]?)
  let header ← Span.of? ⟨0, c.headerSize⟩ file
  let order ← orderOfByte? (← ident[5]?)
  if ident[6]? ≠ some 1 then none
  if !programsFit c order file header then none
  let sections ← readSections c order file header
  let sectionNames ← readSectionNames c order header sections
  let symbols ← readSymbols c order file sections SectionHeader.symTab
  let dynamicSymbols ← readSymbols c order file sections SectionHeader.dynSym
  return {
    file := file
    elfClass := c
    order := order
    machine := Span.number ⟨18, 2⟩ order header
    sections := sections
    sectionNames := sectionNames
    symbols := (if symbols.isEmpty then dynamicSymbols else symbols).drop 1 }

/-- The mode of the processor that the file is for, if it is one of this family. -/
def mode? (e : Elf) : Option Mode :=
  if e.machine = 3 then some .protected32
  else if e.machine = 62 then some .long64
  else none

/-- The name of the format of the file, for a processor of the given mode. -/
def formatName (e : Elf) (mode : Mode) : String :=
  let container := match e.elfClass with
    | .elf32 => "elf32"
    | .elf64 => "elf64"
  let machine := match mode with
    | .protected32 => "i386"
    | .long64 => "x86-64"
  container ++ "-" ++ machine

/-- The sections of the file without the empty one that every table starts with. -/
def namedSections (e : Elf) : List SectionHeader := e.sections.drop 1

/-- The bytes of the name of a section. -/
def sectionNameBytes? (e : Elf) (h : SectionHeader) : Option (List Byte) :=
  e.sectionNames.get? e.file h.name

/-- The name of a section. -/
def sectionName? (e : Elf) (h : SectionHeader) : Option String :=
  (e.sectionNameBytes? h).bind textOfBytes?

/-- The contents of a section. -/
def sectionData? (e : Elf) (h : SectionHeader) : Option (List Byte) := contents? e.file h

/-- The first section of a name; the one that every table starts with counts here. -/
def section? (e : Elf) (name : String) : Option SectionHeader :=
  e.sections.find? fun h => e.sectionName? h == some name

end Elf

end LengthDisasm
