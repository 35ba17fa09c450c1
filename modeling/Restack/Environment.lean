import Restack.FreshNames
import Restack.Instruction.Strict

/-!
# Environments

An environment is a list of instruction tables, of which the first that knows a name
wins, a source of fresh names, and the operations that are supplied from outside. New
definitions go into the first table.

## Main definitions

* `Table`, `Table.get?`, `Table.insert`, `Table.names`.
* `Environment`, `Environment.resolve?`, `Environment.define`.
-/

namespace Restack

/-- Names and the instructions they stand for, each name once. -/
structure Table where
  /-- The entries, in the order in which their names were first given. -/
  entries : List (String × Instruction) := []
  deriving Inhabited

namespace Table

/-- The instruction registered under a name. -/
def get? (table : Table) (name : String) : Option Instruction := table.entries.lookup name

/-- Whether a name is registered. -/
def contains (table : Table) (name : String) : Bool := (table.get? name).isSome

/-- Puts an entry in the place of the one with its name, or at the end. -/
def insertEntry (name : String) (op : Instruction) :
    List (String × Instruction) → List (String × Instruction)
  | [] => [(name, op)]
  | (n, o) :: rest =>
    if n = name then (name, op) :: rest else (n, o) :: insertEntry name op rest

/-- Registers an instruction under a name, replacing an earlier one. -/
def insert (table : Table) (name : String) (op : Instruction) : Table :=
  ⟨insertEntry name op table.entries⟩

/-- Registers an instruction under its own name. -/
def add (table : Table) (op : Instruction) : Table := table.insert op.name op

/-- The table of the given instructions, each under its own name. -/
def ofList (ops : List Instruction) : Table := ops.foldl add {}

/-- The number of registered names. -/
def size (table : Table) : Nat := table.entries.length

/-- The registered names in order, code point by code point. -/
def names (table : Table) : List String :=
  (table.entries.map Prod.fst).mergeSort fun a b => !decide (b < a)

end Table

/-- Layered instruction tables, a source of fresh names, and supplied operations. -/
structure Environment where
  /-- The tables, the one that wins first. -/
  tables : List Table := []
  /-- Where inference draws its variables from. -/
  names : NameSource := {}
  /-- What the keys of supplied operations stand for. A key that nothing is supplied for stands for
  an operation that does nothing. -/
  supplied : String → Action := fun _ => .nullary (.ok [])

namespace Environment

/-- Adds a table that is asked after all others. -/
def pushTable (env : Environment) (table : Table) : Environment :=
  { env with tables := env.tables ++ [table] }

/-- Registers an instruction in the first table. -/
def define (env : Environment) (name : String) (op : Instruction) : Environment :=
  match env.tables with
  | [] => { env with tables := [Table.insert {} name op] }
  | first :: rest => { env with tables := first.insert name op :: rest }

/-- The instruction a name stands for: the first table that knows it wins. -/
def resolve? (env : Environment) (name : String) : Option Instruction :=
  env.tables.findSome? (·.get? name)

/-- Whether some table knows a name. -/
def isDefined (env : Environment) (name : String) : Bool := (env.resolve? name).isSome

end Environment
end Restack
