import LengthDisasm.Byte
import LengthDisasm.Demangle
import LengthDisasm.Text.Blank

/-!
# The command line

The command takes options and at most one file, in any order. A word of the command line is divided
into tokens first: a word can hold several short switches, and an option can have its value in the
same word. What a token is does not depend on the tokens before it, so that a word which looks like
an option but names none can still be a value or a file. Then each option takes the token after it
as its value, if that is a text and suits the option; what is left over is a file or wrong.

## Main definitions

* `Settings` — what a command line asks for
* `UsageError` — what is wrong with a command line
* `OptionKey`, `OptionKind` — the options and how they take values
* `Token`, `CommandLine.tokens` — the tokens of a command line
* `CommandLine.occurrences` — its options with their values, and its files, in order
* `Request.ofArguments` — what is to be done for a command line
-/

namespace LengthDisasm

/-- What a command line asks for. -/
structure Settings where
  /-- Decode runs of zero bytes instead of skipping them. -/
  decodeZeroes : Bool
  /-- The sections to show; all code if there are none. -/
  sections : List String
  /-- Options for the decoder, in order. -/
  decoderOptions : List String
  colored : Bool
  showRaw : Bool
  demangle : DemangleStyle
  /-- The file is a raw image of machine code. -/
  binary : Bool
  /-- The address of a raw image. -/
  loadAddress : Nat
  /-- Show counts instead of a listing. -/
  summary : Bool
  startAddress : Nat
  stopAddress : Nat
  threads : Nat
  blockSize : Nat
  path : String
deriving DecidableEq, Repr

/-- What is wrong with a command line. -/
inductive UsageError where
  /-- There is no such option. -/
  | unknownOption (word : String)
  /-- An option needs a value and has none. -/
  | missingValue (name : String)
  /-- A value is joined to an option that does not take it. -/
  | unexpectedValue (value : String)
  /-- A value does not suit its option. -/
  | invalidValue (name value : String)
  /-- An option that can be given once is given again. -/
  | repeated (name : String)
  /-- There is more than one file. -/
  | extraFile (path : String)
deriving DecidableEq, Repr

namespace UsageError

/-- The wording of an error. -/
def message : UsageError → String
  | unknownOption word => word ++ " is not expected in this context"
  | missingValue name => name ++ " requires a value"
  | unexpectedValue value => value ++ " is not expected in this context"
  | invalidValue name value => "couldn't parse " ++ value ++ " for " ++ name
  | repeated name => name ++ " cannot be used multiple times"
  | extraFile path => path ++ " is not expected in this context"

end UsageError

/-- How an option takes values. -/
inductive OptionKind where
  /-- It has no value. -/
  | switch
  /-- It has a value. -/
  | value
  /-- It can have a value. -/
  | optional
deriving DecidableEq, Repr

/-- The options. -/
inductive OptionKey where
  | decodeZeroes
  | decoderOptions
  | color
  | showRaw
  | hideRaw
  | demangle
  | binary
  | loadAddress
  | summary
  | sections
  | startAddress
  | stopAddress
  | threads
  | blockSize
  | help
  | version
deriving DecidableEq, Repr

namespace OptionKey

/-- Every option. -/
def all : List OptionKey :=
  [ decodeZeroes, decoderOptions, color, showRaw, hideRaw, demangle, binary, loadAddress, summary,
    sections, startAddress, stopAddress, threads, blockSize, help, version ]

/-- The name after two dashes. -/
def longName : OptionKey → String
  | decodeZeroes => "disassemble-zeroes"
  | decoderOptions => "disassembler-options"
  | color => "disassembler-color"
  | showRaw => "show-raw-insn"
  | hideRaw => "no-show-raw-insn"
  | demangle => "demangle"
  | binary => "binary"
  | loadAddress => "adjust-vma"
  | summary => "summary"
  | sections => "section"
  | startAddress => "start-address"
  | stopAddress => "stop-address"
  | threads => "threads"
  | blockSize => "threads-block-size"
  | help => "help"
  | version => "version"

/-- The letter after one dash. -/
def shortName? : OptionKey → Option Char
  | decodeZeroes => some 'z'
  | decoderOptions => some 'M'
  | demangle => some 'C'
  | binary => some 'b'
  | sections => some 'j'
  | help => some 'h'
  | version => some 'V'
  | _ => none

/-- How the option takes values. -/
def kind : OptionKey → OptionKind
  | decoderOptions => .value
  | color => .value
  | loadAddress => .value
  | sections => .value
  | startAddress => .value
  | stopAddress => .value
  | threads => .value
  | blockSize => .value
  | demangle => .optional
  | _ => .switch

/-- The option can be given more than once. -/
def isRepeatable : OptionKey → Bool
  | decoderOptions => true
  | sections => true
  | demangle => true
  | showRaw => true
  | hideRaw => true
  | _ => false

/-- A text can be the value of the option. -/
def accepts (key : OptionKey) (value : String) : Bool :=
  match key.kind with
  | .switch => false
  | .value => true
  | .optional => (DemangleStyle.ofName? value).isSome

/-- The option of a name after two dashes. -/
def ofLong? (name : List Char) : Option OptionKey := all.find? fun k => k.longName.toList == name

/-- The option of a letter after one dash. -/
def ofShort? (letter : Char) : Option OptionKey := all.find? fun k => k.shortName? == some letter

end OptionKey

/-- A part of a command line. -/
inductive Token where
  /-- An option. -/
  | option (key : OptionKey)
  /-- The name of no option, in this word. -/
  | unknown (word : String)
  /-- A value that an equals sign joins to the name before it. -/
  | joined (value : String)
  /-- A text: the value of the option before it, or a file. -/
  | text (text : String)
  /-- A file, since it stands after the end of the options. -/
  | file (path : String)
deriving DecidableEq, Repr

namespace Token

/-- The text that an option before the token can take as its value. -/
def value? : Token → Option String
  | joined value => some value
  | text value => some value
  | _ => none

/-- The token of a name after two dashes. -/
def ofLong (word : String) (name : List Char) : Token :=
  match OptionKey.ofLong? name with
  | some key => option key
  | none => unknown word

/-- The token of a letter after one dash. -/
def ofShort (word : String) (letter : Char) : Token :=
  match OptionKey.ofShort? letter with
  | some key => option key
  | none => unknown word

/-- The tokens of several letters after one dash: switches, and perhaps at last an option that takes
the letters after it as a text. There are none if a letter names no option. -/
def ofLetters? : List Char → Option (List Token)
  | [] => some []
  | letter :: rest =>
    match OptionKey.ofShort? letter with
    | none => none
    | some key =>
      if key.kind = .switch then (ofLetters? rest).map (option key :: ·)
      else if rest.isEmpty then some [option key]
      else some [option key, text (String.ofList rest)]

/-- The tokens of a word with one dash before `letter` and with an equals sign in `rest`. Only a
letter of one byte is a name there, and all that follows it is its value, without an equals sign in
front. -/
def ofEquation (word : String) (letter : Char) (rest : List Char) : List Token :=
  if letter.utf8Size = 1 then
    match rest with
    | '=' :: value => [ofShort word letter, joined (String.ofList value)]
    | value => [ofShort word letter, joined (String.ofList value)]
  else [text word]

/-- The tokens of a word before the end of the options. -/
def ofWord (word : String) : List Token :=
  match word.toList with
  | '-' :: '-' :: name =>
    match Text.splitAt? '=' name with
    | some (name, value) => [ofLong word name, joined (String.ofList value)]
    | none => [ofLong word name]
  | '-' :: letter :: rest =>
    if rest.contains '=' then ofEquation word letter rest
    else if rest.isEmpty then [ofShort word letter]
    else (ofLetters? (letter :: rest)).getD [text word]
  | _ => [text word]

end Token

/-- An option or a file on a command line. -/
inductive Occurrence where
  | option (key : OptionKey) (value : Option String)
  | file (path : String)
deriving DecidableEq, Repr

namespace CommandLine

/-- The tokens of a command line. Two dashes end the options. -/
def tokens : List String → List Token
  | [] => []
  | word :: words =>
    if word = "--" then words.map .file else Token.ofWord word ++ tokens words

/-- An option that takes no value: this is right unless it needs one. -/
def withoutValue (key : OptionKey) : Except UsageError Occurrence :=
  if key.kind = .value then .error (.missingValue key.longName) else .ok (.option key none)

/-- The option `pending` with the token as its value, if it takes it. -/
def withValue? (pending : Option OptionKey) (token : Token) : Option Occurrence := do
  let key ← pending
  let value ← token.value?
  if key.accepts value then some (.option key (some value)) else none

/-- The options and files of tokens, where `pending` is the option before them that can still take
the first one as its value. -/
def occurrencesAfter (pending : Option OptionKey) : List Token → Except UsageError (List Occurrence)
  | [] => pending.toList.mapM withoutValue
  | token :: tokens =>
    match withValue? pending token with
    | some occurrence => return occurrence :: (← occurrencesAfter none tokens)
    | none => do
      let before ← pending.toList.mapM withoutValue
      match token with
      | .option key => return before ++ (← occurrencesAfter (some key) tokens)
      | .text path => return before ++ .file path :: (← occurrencesAfter none tokens)
      | .file path => return before ++ .file path :: (← occurrencesAfter none tokens)
      | .joined value => .error (.unexpectedValue value)
      | .unknown word => .error (.unknownOption word)

/-- The options and files of tokens. -/
def occurrences (tokens : List Token) : Except UsageError (List Occurrence) :=
  occurrencesAfter none tokens

end CommandLine

namespace Settings

/-- An address or a number: hexadecimal digits after `0x`, or decimal digits. -/
def address? (text : String) : Option Nat :=
  match text.toList with
  | '0' :: 'x' :: digits => Text.unsigned? 16 UInt64.size digits
  | '0' :: 'X' :: digits => Text.unsigned? 16 UInt64.size digits
  | digits => Text.unsigned? 10 UInt64.size digits

/-- A count. -/
def count? (text : String) : Option Nat := Text.unsigned? 10 UInt64.size text.toList

/-- The colours that a mode name asks for. -/
def colored? : String → Option Bool
  | "off" => some false
  | "on" => some true
  | "extended" => some true
  | "auto" => some false
  | "terminal" => some false
  | _ => none

/-- The least and the greatest size of blocks. -/
def blockSizeBounds : Nat × Nat := (256, 1024 * 1024)

/-- The settings of an empty command line on a computer with so many processors. -/
def initial (processors : Nat) : Settings where
  decodeZeroes := false
  sections := []
  decoderOptions := []
  colored := false
  showRaw := true
  demangle := .off
  binary := false
  loadAddress := 0
  summary := false
  startAddress := 0
  stopAddress := UInt64.size - 1
  threads := min 4 processors
  blockSize := 4096
  path := "a.out"

/-- The value of an option, read by `read`. -/
def readValue {α : Type} (key : OptionKey) (value : Option String) (read : String → Option α) :
    Except UsageError α :=
  match value with
  | none => .error (.missingValue key.longName)
  | some text =>
    match read text with
    | some a => .ok a
    | none => .error (.invalidValue key.longName text)

/-- The settings with one more option. -/
def withOption (processors : Nat) (s : Settings) (key : OptionKey) (value : Option String) :
    Except UsageError Settings :=
  match key with
  | .decodeZeroes => .ok { s with decodeZeroes := true }
  | .showRaw => .ok { s with showRaw := true }
  | .hideRaw => .ok { s with showRaw := false }
  | .binary => .ok { s with binary := true }
  | .summary => .ok { s with summary := true }
  | .help => .ok s
  | .version => .ok s
  | .decoderOptions => do
    let text ← readValue key value some
    return { s with decoderOptions := s.decoderOptions ++ [text] }
  | .sections => do
    let text ← readValue key value some
    return { s with sections := s.sections ++ [text] }
  | .color => return { s with colored := ← readValue key value colored? }
  | .demangle =>
    match value with
    | none => .ok { s with demangle := .auto }
    | some _ => return { s with demangle := ← readValue key value DemangleStyle.ofName? }
  | .loadAddress => return { s with loadAddress := ← readValue key value address? }
  | .startAddress => return { s with startAddress := ← readValue key value address? }
  | .stopAddress => return { s with stopAddress := ← readValue key value address? }
  | .threads => do
    let count ← readValue key value count?
    return { s with threads := if count = 0 then processors else count }
  | .blockSize => do
    let size ← readValue key value count?
    return { s with blockSize := max blockSizeBounds.1 (min blockSizeBounds.2 size) }

/-- The settings with all options and files of a command line; `seen` are the options before them
and `hasFile` says that there was a file. -/
def withAll (processors : Nat) (s : Settings) (seen : List OptionKey) (hasFile : Bool) :
    List Occurrence → Except UsageError Settings
  | [] => .ok s
  | .file path :: others =>
    if hasFile then .error (.extraFile path)
    else withAll processors { s with path := path } seen true others
  | .option key value :: others =>
    if seen.contains key && !key.isRepeatable then .error (.repeated key.longName)
    else do
      let s ← withOption processors s key value
      withAll processors s (key :: seen) hasFile others

/-- The options for the decoder one by one: commas divide them, and empty ones do not count. -/
def splitOptions (given : List String) : List String :=
  let parts := (",".intercalate given).splitOn ","
  (parts.map fun part => String.ofList (Text.trim part.toList)).filter fun part => !part.isEmpty

end Settings

/-- What is to be done for a command line. -/
inductive Request where
  /-- Tell how the command is used. -/
  | help
  /-- Tell the version. -/
  | version
  /-- List a file. -/
  | list (settings : Settings)
deriving DecidableEq, Repr

namespace Request

/-- What is to be done for a command line. Help and the version are told whatever else the command
line holds, right or wrong. -/
def ofArguments (processors : Nat) (words : List String) : Except UsageError Request :=
  let tokens := CommandLine.tokens words
  if tokens.contains (.option .help) then .ok .help
  else if tokens.contains (.option .version) then .ok .version
  else do
    let occurrences ← CommandLine.occurrences tokens
    let s ← Settings.withAll processors (Settings.initial processors) [] false occurrences
    return .list { s with decoderOptions := Settings.splitOptions s.decoderOptions }

end Request

end LengthDisasm
