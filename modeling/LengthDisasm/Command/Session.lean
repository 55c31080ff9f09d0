import LengthDisasm.Command.Clip
import LengthDisasm.Command.Options
import LengthDisasm.Image.SymbolMap
import LengthDisasm.Listing.Blocks
import LengthDisasm.Symbols.Search

/-!
# Sessions

A session runs one command line: it reads the file, finds the code in it and prints a listing or a
summary. What it prints and what it logs is a transcript; how it ends is the ending.

## Main definitions

* `LogEntry`, `Transcript` — what a session wrote
* `Ending` — how a session ended, with the exit status
* `Report` — transcript and ending of a whole run
* `Program` — what is listed and how
* `run` — run a command line
-/

namespace LengthDisasm

/-- How important a log entry is. -/
inductive LogLevel where
  | debug
  | warn
deriving DecidableEq, Repr

namespace LogLevel

/-- The name of a level. -/
def name : LogLevel → String
  | debug => "DEBUG"
  | warn => "WARN"

end LogLevel

/-- An entry of the log. -/
structure LogEntry where
  level : LogLevel
  message : String
deriving DecidableEq, Repr

namespace LogEntry

/-- The entry as text. -/
def text (e : LogEntry) : String := e.level.name ++ " " ++ e.message

end LogEntry

/-- How a session ended. -/
inductive Ending where
  /-- All was done. -/
  | finished
  /-- The command line is wrong. -/
  | usage (error : UsageError)
  /-- The file cannot be read. -/
  | unreadable (path : String)
  /-- The file is of no known format. -/
  | unsupportedFile
  /-- The file is for another processor. -/
  | unsupportedArchitecture
  /-- A section has no readable name or lies outside of the file. -/
  | damagedSection
  /-- A slice or a word operation had no result. -/
  | fault (fault : Fault)
  /-- The search for the end of a block goes on for ever. -/
  | endless
deriving DecidableEq, Repr

namespace Ending

/-- The exit status, if the session ends at all. -/
def status? : Ending → Option Nat
  | finished => some 0
  | fault _ => some 101
  | endless => none
  | _ => some 1

/-- What is said about an ending that is not the regular one. -/
def message? : Ending → Option String
  | finished => none
  | usage error => some ("error: " ++ error.message)
  | unreadable path => some ("error: cannot read " ++ path)
  | unsupportedFile => some "error: unknown file magic"
  | unsupportedArchitecture => some "error: unsupported architecture"
  | damagedSection => some "error: damaged section"
  | fault _ => some "error: out of range"
  | endless => some "error: block without an end"

end Ending

/-- What a session wrote. -/
structure Transcript where
  output : String
  /-- The log, latest entry first. -/
  log : List LogEntry

/-- The result of a run. -/
structure Report where
  output : String
  log : List LogEntry
  ending : Ending

/-- A computation that writes a transcript and can end the session. -/
abbrev Session := ExceptT Ending (StateM Transcript)

namespace Session

/-- Print a text. -/
def print (text : String) : Session Unit :=
  modify fun t => { t with output := t.output ++ text }

/-- Write an entry to the log. -/
def log (level : LogLevel) (message : String) : Session Unit :=
  modify fun t => { t with log := ⟨level, message⟩ :: t.log }

/-- The value, or an end of the session if there is none. -/
def require {α : Type} (ending : Ending) : Option α → Session α
  | some a => pure a
  | none => throw ending

/-- The report of a session that starts with nothing written. -/
def report (s : Session Unit) : Report :=
  let (result, t) := s.run ⟨"", []⟩
  let ending := match result with
    | .ok () => .finished
    | .error e => e
  ⟨t.output, t.log.reverse, ending⟩

end Session

/-- What is listed and how. -/
structure Program where
  settings : Settings
  mode : Mode
  symbols : SymbolLookup

namespace Program

/-- Data from this size on is listed in blocks if there is more than one thread. -/
def blockedSize : Nat := 65536

/-- How many bytes a thread takes in the table of all threads. -/
def threadSize : Nat := 16

/-- The decoder at an address. -/
def decoder (p : Program) (address : Nat) : Decoder :=
  ⟨p.mode, BitVec.ofNat 64 address, ⟨p.settings.decodeZeroes, p.settings.showRaw⟩⟩

/-- The listing of a section from an address on. -/
def listing (p : Program) (name : String) (address : Nat) : Listing where
  decoder := p.decoder address
  presentation :=
    { theme := if p.settings.colored then .colored else .plain
      symbols := p.symbols
      spell := p.settings.demangle.spell }
  sectionName := name

/-- Print the code of a section block by block, up to a block whose length addresses do not tell. -/
def listBlocks (p : Program) (l : Listing) (data : List Byte) : Session Unit := do
  if p.settings.threads * threadSize > maxCapacity then throw (.fault .capacity)
  let cut := Blocks.cut l.decoder p.settings.blockSize data
  let counted := Blocks.counted l.decoder.address cut.blocks
  Session.print (Blocks.text l counted)
  if counted.length < cut.blocks.length then throw (.fault .underflow)
  if !cut.complete then throw .endless

/-- Print the code of a section. -/
def list (p : Program) (name : String) (address : Nat) (data : List Byte) : Session Unit := do
  let l := p.listing name address
  if p.settings.threads > 1 && !ZeroRun.fewerThan blockedSize data then p.listBlocks l data
  else Session.print (l.print true data).1

/-- Show data of a section as far as its addresses are asked for. If a summary is asked for, give
it. -/
def showData (p : Program) (name : String) (address : Nat) (data : List Byte) :
    Session (Option Summary) := do
  match clip address data p.settings.startAddress p.settings.stopAddress with
  | .error fault => throw (.fault fault)
  | .ok none =>
    Session.log .debug (name ++ ": out of the address range")
    return none
  | .ok (some (address, data)) =>
    Session.log .debug (name ++ ": " ++ Text.hexMarked address ++ ".." ++
      Text.hexMarked (endAddress address data))
    if p.settings.summary then
      let summary := ((p.decoder address).walk data).summary
      Session.print (name ++ ": " ++ summary.text ++ "\n")
      return some summary
    else
      Session.print ("\nDisassembly of section " ++ name ++ ":\n")
      p.list name address data
      return none

/-- Show a section of an ELF file. -/
def showSection (p : Program) (e : Elf) (h : SectionHeader) : Session (Option Summary) := do
  let name ← Session.require .damagedSection (e.sectionName? h)
  let data ← Session.require .damagedSection (e.sectionData? h)
  p.showData name h.address data

/-- Show the sections that are asked for, in that order, or all code; give the summaries. -/
def showSections (p : Program) (e : Elf) : Session (List Summary) := do
  if p.settings.sections.isEmpty then
    let summaries ← (e.namedSections.filter (·.isText)).mapM (p.showSection e)
    return summaries.filterMap id
  else
    let summaries ← p.settings.sections.mapM fun name =>
      match e.section? name with
      | some h => p.showSection e h
      | none => do
        Session.log .warn ("section `" ++ name ++ "` not found")
        return none
    return summaries.filterMap id

/-- Start a program: say what is listed. -/
def start (settings : Settings) (format : String) (mode : Mode) (symbols : SymbolLookup) :
    Session Program := do
  Session.log .debug ("decoding in " ++ toString mode.width ++ "-bit mode")
  Session.print ("\n" ++ settings.path ++ ":     file format " ++ format ++ "\n\n")
  return ⟨settings, mode, symbols⟩

end Program

/-- The mode that the options for the decoder ask for; the last one decides. -/
def Session.modeOverride (options : List String) : Session (Option Mode) :=
  options.foldlM (fun mode option => do
    match option with
    | "i386" => return some .protected32
    | "x86-64" => return some .long64
    | _ =>
      Session.log .warn ("unsupported option `" ++ option ++ "`")
      return mode) none

/-- The name that the data of a raw image has. -/
def rawSectionName : String := ".data"

/-- List a raw image. -/
def runRaw (settings : Settings) (file : List Byte) : Session Unit := do
  let mode ← match ← Session.modeOverride settings.decoderOptions with
    | some mode => pure mode
    | none => do
      Session.log .debug "no mode given for a raw image, using x86-64"
      pure .long64
  let p ← Program.start settings "binary" mode .empty
  let _ ← p.showData rawSectionName settings.loadAddress file

/-- List an ELF file; the summaries of several sections are added up. -/
def runElf (settings : Settings) (file : List Byte) : Session Unit := do
  let e ← Session.require .unsupportedFile (Elf.ofBytes? file)
  let native ← Session.require .unsupportedArchitecture e.mode?
  let forced ← Session.modeOverride settings.decoderOptions
  let symbols := SymbolSearch.lookup e.symbolMap
  let p ← Program.start settings (e.formatName native) (forced.getD native) symbols
  let summaries ← p.showSections e
  if summaries.length > 1 then
    let total := summaries.foldl Summary.merge .empty
    Session.print ("total: " ++ total.text ++ "\n")

/-- The version of the program. -/
def versionNumber : String := "0.1.0"

/-- How the command is used. -/
def usageText : String :=
  let row := fun (key : OptionKey) =>
    let letter := match key.shortName? with
      | some c => "-" ++ c.toString ++ ", "
      | none => "    "
    "    " ++ letter ++ "--" ++ key.longName ++ "\n"
  "Usage: [OPTION]... [FILE]\n\nAvailable options:\n" ++ String.join (OptionKey.all.map row)

/-- Run a command line on a computer with so many processors; `read?` gives the contents of
files. -/
def runCommand (processors : Nat) (read? : String → Option (List Byte)) (words : List String) :
    Session Unit := do
  match Request.ofArguments processors words with
  | .error e => throw (.usage e)
  | .ok .help => Session.print usageText
  | .ok .version => Session.print ("Version: " ++ versionNumber ++ "\n\n")
  | .ok (.list settings) =>
    let file ← Session.require (.unreadable settings.path) (read? settings.path)
    if settings.binary then runRaw settings file else runElf settings file

/-- The report of a command line. -/
def run (processors : Nat) (read? : String → Option (List Byte)) (words : List String) : Report :=
  (runCommand processors read? words).report

end LengthDisasm
