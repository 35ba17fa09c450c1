import Restack.Toml.Reader
import Restack.Vocabulary

/-!
# Settings

A settings document has a section `engine`, with the mode and a step budget, and a
section `log`, with the level at which a front end logs. Every key may be missing and
then has a default. A document with anything else in it, or with a value of another
type, is refused as a whole; a section may also be written as an array that lists its
values in order.

## Main definitions

* `LogLevel`, `Settings`.
* `FileFault` — why a file cannot be read as text.
* `SettingsError` and its `message`.
* `Settings.ofText`, `Settings.ofFile` — the settings that a document, or a file,
  holds.
-/

namespace Restack

/-- How much a front end logs. -/
inductive LogLevel where
  /-- Nothing. -/
  | off
  /-- Errors. -/
  | error
  /-- Warnings as well. -/
  | warn
  /-- Notable events as well. -/
  | info
  /-- Details as well. -/
  | debug
  /-- Everything. -/
  | trace
  deriving DecidableEq, Inhabited

namespace LogLevel

/-- The levels, from the least to the most talkative. -/
def all : List LogLevel := [off, error, warn, info, debug, trace]

/-- The name of a level. -/
def name : LogLevel → String
  | off => "OFF"
  | error => "ERROR"
  | warn => "WARN"
  | info => "INFO"
  | debug => "DEBUG"
  | trace => "TRACE"

/-- The level that a name stands for, in upper or lower case. -/
def ofName? (name : String) : Option LogLevel :=
  all.find? fun level => level.name.toList == name.toList.map Char.toUpper

end LogLevel

/-- The settings of a session. -/
structure Settings where
  /-- The flavour of the vocabulary. -/
  mode : Mode := .strict
  /-- The number of steps a run may take. -/
  maxSteps : Option Nat := none
  /-- The level at which a front end logs. -/
  logLevel : LogLevel := .warn

/-- Why a file cannot be read as text. -/
inductive FileFault where
  /-- There is no such file. -/
  | missing
  /-- It is a directory. -/
  | isDirectory
  /-- Its bytes are not UTF-8. -/
  | notText
  deriving DecidableEq

/-- The wording of a fault. -/
def FileFault.message : FileFault → String
  | missing => "No such file or directory (os error 2)"
  | isDirectory => "Is a directory (os error 21)"
  | notText => "stream did not contain valid UTF-8"

/-- Why a well-formed settings document has no meaning. -/
inductive SettingsFault where
  /-- The mode has no such name. -/
  | unknownMode (name : String)
  /-- The step budget is zero. -/
  | zeroBudget
  /-- The log level has no such name. -/
  | unknownLevel (name : String)
  deriving DecidableEq

/-- The wording of a fault. -/
def SettingsFault.message : SettingsFault → String
  | unknownMode name => Mode.unknownMessage name
  | zeroBudget => "engine.max_steps must be positive"
  | unknownLevel name => "unknown log level '" ++ name ++ "'"

/-- Why settings cannot be taken from a file. -/
inductive SettingsError where
  /-- The file cannot be read. -/
  | unreadable (path : String) (fault : FileFault)
  /-- The file does not hold a settings document. -/
  | malformed (path : String)
  /-- The document has no meaning. -/
  | invalid (path : String) (fault : SettingsFault)
  deriving DecidableEq

/-- The wording of an error. -/
def SettingsError.message : SettingsError → String
  | unreadable path fault => "failed to read config at " ++ path ++ ": " ++ fault.message
  | malformed path => "failed to parse config at " ++ path ++ ": not a settings document"
  | invalid path fault => "invalid config at " ++ path ++ ": " ++ fault.message

/-- The values written in a settings document. -/
structure RawSettings where
  /-- The name of the mode. -/
  mode : Option String := none
  /-- The step budget. -/
  maxSteps : Option Nat := none
  /-- The name of the log level. -/
  level : Option String := none

namespace RawSettings

open Toml (Value Entries)

/-- A value that a section can hold under a key. -/
def setField (raw : RawSettings) (heading key : String) (value : Value) : Option RawSettings :=
  match heading, key, value with
  | "engine", "mode", .text name => some { raw with mode := some name }
  | "engine", "max_steps", .integer n =>
    if 0 ≤ n then some { raw with maxSteps := some n.toNat } else none
  | "log", "level", .text name => some { raw with level := some name }
  | _, _, _ => none

/-- The keys of a section, in order. -/
def keysOf : String → Option (List String)
  | "engine" => some ["mode", "max_steps"]
  | "log" => some ["level"]
  | _ => none

/-- Takes over a section: a table with some of its keys, or an array with its first values. -/
def setSection (raw : RawSettings) (heading : String) (value : Value) : Option RawSettings := do
  let keys ← keysOf heading
  match value with
  | .table _ entries =>
    entries.foldlM (fun raw (key, value) => raw.setField heading key value) raw
  | .array items =>
    (keys.zip items).foldlM (fun raw (key, value) => raw.setField heading key value) raw
  | _ => none

/-- The values of a document, if it is a settings document. -/
def ofEntries (document : Entries) : Option RawSettings :=
  document.foldlM (fun raw (key, value) => raw.setSection key value) {}

end RawSettings

namespace Settings

/-- The settings that written values stand for: first the mode, then the budget, then the level. -/
def ofRaw (raw : RawSettings) : Except SettingsFault Settings := do
  let mode ← match raw.mode with
    | none => .ok .strict
    | some name =>
      match Mode.ofName? name with
      | some mode => .ok mode
      | none => .error (.unknownMode name)
  let maxSteps ← match raw.maxSteps with
    | some 0 => .error .zeroBudget
    | budget => .ok budget
  let logLevel ← match raw.level with
    | none => .ok .warn
    | some name =>
      match LogLevel.ofName? name with
      | some level => .ok level
      | none => .error (.unknownLevel name)
  return { mode, maxSteps, logLevel }

/-- The settings that a document holds; `path` is where it comes from. -/
def ofText (path : String) (text : String) : Except SettingsError Settings :=
  match (Toml.parse? text).bind RawSettings.ofEntries with
  | none => .error (.malformed path)
  | some raw =>
    match ofRaw raw with
    | .ok settings => .ok settings
    | .error fault => .error (.invalid path fault)

/-- The settings that a file holds, given its text or why it has none. -/
def ofFile (path : String) : Except FileFault String → Except SettingsError Settings
  | .ok text => ofText path text
  | .error fault => .error (.unreadable path fault)

end Settings
end Restack
