import Restack.Session

/-!
# The command line

Arguments are read first, then the settings, then the source text; a fault in an
earlier one wins. Options override settings. The command sees the world as a look-up
of files by path and the bytes of its input, and answers with an exit code and two
texts.

## Main definitions

* `CommandLine.Options`, `CommandLine.readArguments`.
* `CommandLine.Entry`, `CommandLine.World`.
* `CommandLine.execute` — the whole command.
-/

namespace Restack.CommandLine

/-- The help text. -/
def usage : String :=
  "Usage: cairn [OPTIONS] [FILE]

Arguments:
  [FILE]  Source file to evaluate, or - for stdin

Options:
  -e <CODE>            Evaluate CODE string
  -m, --mode <MODE>    strict, non-strict, reorder or infer
  --max-steps <N>      Stop after N rewriting steps
  --trace              Print every intermediate state
  -c, --config <PATH>  Read settings from PATH (default: ./cairn.toml if present)
  -v                   Log at debug level (-vv for trace)
  -q                   Disable logging
  -h, --help           Print this help message

If no source is given, reads from stdin."

/-- The settings file that is used, if there is one, where no other is named. -/
def defaultSettings : String := "cairn.toml"

/-- Where the source text comes from. -/
inductive Input where
  /-- The standard input. -/
  | stdin
  /-- An argument. -/
  | code (text : String)
  /-- A file. -/
  | file (path : String)
  deriving DecidableEq

/-- What the arguments ask for. -/
structure Options where
  /-- Where the source text comes from. -/
  input : Option Input := none
  /-- The mode. -/
  mode : Option Mode := none
  /-- The step budget. -/
  maxSteps : Option Nat := none
  /-- Whether every state is printed. -/
  trace : Bool := false
  /-- The settings file. -/
  settings : Option String := none
  /-- The log level. -/
  logLevel : Option LogLevel := none

/-- What to do. -/
inductive Action where
  /-- Evaluate a source text. -/
  | evaluate (options : Options)
  /-- Print the help text. -/
  | help

/-- Why a text is not a step count. -/
inductive CountFault where
  /-- It is empty. -/
  | empty
  /-- It holds something that is not a digit. -/
  | invalidDigit
  /-- It is beyond the 64-bit range. -/
  | tooLarge
  deriving DecidableEq

/-- The wording of a fault. -/
def CountFault.message : CountFault → String
  | empty => "cannot parse integer from empty string"
  | invalidDigit => "invalid digit found in string"
  | tooLarge => "number too large to fit in target type"

/-- Reads digits from left to right into a 64-bit word, after the value of those before. -/
def readDigits (value : Nat) : List Char → Except CountFault Nat
  | [] => .ok value
  | c :: cs =>
    if !c.isDigit then .error .invalidDigit
    else
      let next := 10 * value + (c.toNat - '0'.toNat)
      if next < UInt64.size then readDigits next cs else .error .tooLarge

/-- Reads a step count: digits after an optional plus sign. -/
def readCount (text : String) : Except CountFault Nat :=
  match text.toList with
  | [] => .error .empty
  | ['+'] => .error .invalidDigit
  | '+' :: ds => readDigits 0 ds
  | ds => readDigits 0 ds

/-- Why the arguments make no sense. -/
inductive UsageError where
  /-- An option lacks its value. -/
  | missingValue (option : String)
  /-- There is no such option. -/
  | unknownOption (option : String)
  /-- There is more than one source. -/
  | manySources
  /-- The mode has no such name. -/
  | unknownMode (name : String)
  /-- The step count is none. -/
  | badCount (text : String) (fault : CountFault)
  deriving DecidableEq

/-- The wording of an error. -/
def UsageError.message : UsageError → String
  | missingValue option => option ++ " needs a value\n\n" ++ usage
  | unknownOption option => "unknown option " ++ option ++ "\n\n" ++ usage
  | manySources => "more than one source given\n\n" ++ usage
  | unknownMode name => Mode.unknownMessage name
  | badCount text fault => "invalid step count '" ++ text ++ "': " ++ fault.message

namespace Options

/-- Names the source, which may be done once. -/
def setInput (options : Options) (input : Input) : Except UsageError Options :=
  match options.input with
  | none => .ok { options with input := some input }
  | some _ => .error .manySources

/-- Sets the mode by its name. -/
def setMode (options : Options) (name : String) : Except UsageError Options :=
  match Mode.ofName? name with
  | some mode => .ok { options with mode := some mode }
  | none => .error (.unknownMode name)

/-- Sets the step budget. -/
def setCount (options : Options) (text : String) : Except UsageError Options :=
  match readCount text with
  | .ok n => .ok { options with maxSteps := some n }
  | .error fault => .error (.badCount text fault)

/-- What an option that takes a value does with it. -/
def valued? (option : String) : Option (Options → String → Except UsageError Options) :=
  match option with
  | "-e" => some fun options code => options.setInput (.code code)
  | "-m" => some setMode
  | "--mode" => some setMode
  | "--max-steps" => some setCount
  | "-c" => some fun options path => .ok { options with settings := some path }
  | "--config" => some fun options path => .ok { options with settings := some path }
  | _ => none

/-- What an argument that stands alone does. -/
def setFlag (options : Options) (argument : String) : Except UsageError Options :=
  match argument with
  | "--trace" => .ok { options with trace := true }
  | "-v" => .ok { options with logLevel := some .debug }
  | "-vv" => .ok { options with logLevel := some .trace }
  | "-q" => .ok { options with logLevel := some .off }
  | "-" => options.setInput .stdin
  | argument =>
    if argument.toList.head? == some '-' then .error (.unknownOption argument)
    else options.setInput (.file argument)

end Options

/-- Reads the arguments from left to right; a call for help ends the reading. -/
def readArguments (options : Options) : List String → Except UsageError Action
  | [] => .ok (.evaluate options)
  | argument :: rest =>
    if argument = "-h" ∨ argument = "--help" then .ok .help
    else
      match Options.valued? argument with
      | some set =>
        match rest with
        | [] => .error (.missingValue argument)
        | value :: rest =>
          match set options value with
          | .ok options => readArguments options rest
          | .error e => .error e
      | none =>
        match options.setFlag argument with
        | .ok options => readArguments options rest
        | .error e => .error e

/-- What stands at a path. -/
inductive Entry where
  /-- A file with its bytes. -/
  | file (bytes : ByteArray)
  /-- A directory. -/
  | directory
  /-- Nothing. -/
  | missing

/-- The text of bytes. -/
def textOf (bytes : ByteArray) : Except FileFault String :=
  match String.fromUTF8? bytes with
  | some text => .ok text
  | none => .error .notText

/-- The text of the file at a path. -/
def Entry.text : Entry → Except FileFault String
  | file bytes => textOf bytes
  | directory => .error .isDirectory
  | missing => .error .missing

/-- What a command can see. -/
structure World where
  /-- What stands at each path. -/
  entry : String → Entry
  /-- The bytes of the standard input. -/
  stdin : ByteArray

/-- What a command leaves behind. -/
structure Report where
  /-- The exit code: zero for success. -/
  code : UInt8
  /-- What it printed. -/
  stdout : String := ""
  /-- What it complained about. -/
  stderr : String := ""

/-- The report of a failure. -/
def Report.failure (message : String) : Report := { code := 1, stderr := message ++ "\n" }

/-- The report of a success that printed lines. -/
def Report.success (lines : List String) : Report :=
  { code := 0, stdout := String.join (lines.map (· ++ "\n")) }

/-- The paths that an evaluation may look at. -/
def Options.paths (options : Options) : List String :=
  options.settings.getD defaultSettings ::
    match options.input with
    | some (.file path) => [path]
    | _ => []

/-- Whether an evaluation takes its source text from the standard input. -/
def Options.readsStdin (options : Options) : Bool :=
  options.input == none || options.input == some .stdin

/-- The settings of the file that was named, or of the default file if there is one. -/
def loadSettings (options : Options) (world : World) : Except SettingsError Settings :=
  match options.settings with
  | some path => Settings.ofFile path (world.entry path).text
  | none =>
    match world.entry defaultSettings with
    | .file bytes => Settings.ofFile defaultSettings (textOf bytes)
    | _ => .ok {}

/-- The settings with those that options override. -/
def Options.override (options : Options) (settings : Settings) : Settings where
  mode := options.mode.getD settings.mode
  maxSteps := options.maxSteps <|> settings.maxSteps
  logLevel := options.logLevel.getD settings.logLevel

/-- The source text, or the complaint that it cannot be read. -/
def readInput (options : Options) (world : World) : Except String String :=
  let fromStdin : Except String String :=
    (textOf world.stdin).mapError fun fault => "error reading stdin: " ++ fault.message
  match options.input with
  | none => fromStdin
  | some .stdin => fromStdin
  | some (.code text) => .ok text
  | some (.file path) =>
    (world.entry path).text.mapError fun fault =>
      "error reading " ++ path ++ ": " ++ fault.message

/-- Evaluates a source text in a session, for its last line or all of them. -/
def evaluateText (options : Options) (session : Session) (source : String) : Report :=
  if options.trace then
    match (session.trace source).1 with
    | .ok states => .success (states.map Stack.pivotText)
    | .error e => .failure e.message
  else
    match (session.run source).1 with
    | .ok outcome => .success [outcome.toText]
    | .error e => .failure e.message

/-- Evaluates what the options ask for. -/
def evaluate (options : Options) (world : World) : Report :=
  match loadSettings options world with
  | .error e => .failure e.message
  | .ok settings =>
    match readInput options world with
    | .error message => .failure message
    | .ok source => evaluateText options (.ofSettings (options.override settings)) source

/-- Executes the command with the given arguments. -/
def execute (arguments : List String) (world : World) : Report :=
  match readArguments {} arguments with
  | .error e => .failure e.message
  | .ok .help => .success [usage]
  | .ok (.evaluate options) => evaluate options world

end Restack.CommandLine
