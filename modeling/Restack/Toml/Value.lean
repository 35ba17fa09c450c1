/-!
# TOML documents

A document is a tree of tables. Its rules on how a table may come about and be
extended are all about where the table was first named, so each table remembers
that:

* a header may open a table that was only named on the way to another header;
* a dotted key may extend tables that were named by dotted keys;
* a table that was written out in braces is complete.

## Main definitions

* `Value`, `Origin`, `Entries`.
* `assign` — a key and its value, put into a table.
* `openTable`, `appendTable` — the two kinds of header.
-/

namespace Restack.Toml

/-- How a table came about. -/
inductive Origin where
  /-- Named on the way to another header. -/
  | implicit
  /-- Opened by a header. -/
  | header
  /-- Named by a dotted key. -/
  | dotted
  /-- Written out in braces. -/
  | complete
  deriving DecidableEq

/-- A value of a document. -/
inductive Value where
  /-- A text. -/
  | text (value : String)
  /-- A 64-bit integer. -/
  | integer (value : Int)
  /-- A truth value. -/
  | bool (value : Bool)
  /-- A float, as it is written. -/
  | float (written : String)
  /-- A date, a time of day or both, as it is written. -/
  | moment (written : String)
  /-- A list of values in brackets. -/
  | array (items : List Value)
  /-- A table. -/
  | table (origin : Origin) (entries : List (String × Value))
  /-- Tables opened one after another by repeated headers, the last one first. -/
  | tables (items : List (List (String × Value)))

/-- The keys of a table and their values, in order of appearance. -/
abbrev Entries := List (String × Value)

namespace Entries

/-- Puts a value in the place of the one with its key, or at the end. -/
def set (key : String) (value : Value) : Entries → Entries
  | [] => [(key, value)]
  | (k, v) :: rest => if k = key then (key, value) :: rest else (k, v) :: set key value rest

end Entries

/-- A change to a table; `none` refuses it. -/
abbrev Change := Origin → Entries → Option Entries

/-- Makes a change to the table that a path of header keys leads to. -/
def alongHeaders (change : Change) : List String → Change
  | [], origin, entries => change origin entries
  | key :: path, _, entries =>
    match entries.lookup key with
    | none => do
      let inner ← alongHeaders change path .implicit []
      return entries.set key (.table .implicit inner)
    | some (.table .complete _) => none
    | some (.table origin inner) => do
      let inner ← alongHeaders change path origin inner
      return entries.set key (.table origin inner)
    | some (.tables (last :: earlier)) => do
      let last ← alongHeaders change path .header last
      return entries.set key (.tables (last :: earlier))
    | some _ => none

/-- Makes a change to the table that the first keys of a dotted key lead to. Only tables that dotted
keys named are extended. -/
def alongDots (change : Change) : List String → Change
  | [], origin, entries => change origin entries
  | key :: path, _, entries =>
    match entries.lookup key with
    | none => do
      let inner ← alongDots change path .dotted []
      return entries.set key (.table .dotted inner)
    | some (.table .dotted inner) => do
      let inner ← alongDots change path .dotted inner
      return entries.set key (.table .dotted inner)
    | some _ => none

/-- Adds a key that is not there yet. -/
def addKey (key : String) (value : Value) : Change := fun _ entries =>
  match entries.lookup key with
  | none => some (entries ++ [(key, value)])
  | some _ => none

/-- Adds a value under a dotted key, listed from the outermost key on. -/
def assign (path : List String) (value : Value) : Change :=
  match path.getLast? with
  | none => fun _ _ => none
  | some key => alongDots (addKey key value) path.dropLast

/-- Opens a table by its header. -/
def openTable (path : List String) (document : Entries) : Option Entries :=
  match path.getLast? with
  | none => none
  | some key =>
    alongHeaders
      (fun _ entries =>
        match entries.lookup key with
        | none => some (entries.set key (.table .header []))
        | some (.table .implicit inner) => some (entries.set key (.table .header inner))
        | some _ => none)
      path.dropLast .header document

/-- Opens one more of a list of tables by its header. -/
def appendTable (path : List String) (document : Entries) : Option Entries :=
  match path.getLast? with
  | none => none
  | some key =>
    alongHeaders
      (fun _ entries =>
        match entries.lookup key with
        | none => some (entries.set key (.tables [[]]))
        | some (.tables items) => some (entries.set key (.tables ([] :: items)))
        | some _ => none)
      path.dropLast .header document

/-- A table in braces, from its keys and values in order. -/
def completeTable (pairs : List (List String × Value)) : Option Value := do
  let entries ← pairs.foldlM (fun entries (path, value) => assign path value .complete entries) []
  return .table .complete entries

end Restack.Toml
