import Restack.Number

/-!
# Cells and instructions

A cell is anything that may stand on a stack: a value, a piece of code, or a note
the machine leaves for itself. A stack is a list of cells, top first, so a
quotation lists its code in the order in which it runs.

An instruction maps the data stack to the next data stack. Instructions form a
closed family, because a cell may hold one: strict operations, operand checks in
front of another instruction, recorders of their own invocation, declared stack
effects, definitions made by a program, and control words. A strict operation is one
of the vocabulary or any other function on cells. As a function on cells cannot be
part of a cell, the instruction then holds the key of an operation that the
environment supplies.

## Main definitions

* `Cell`, `Instruction`, `Stack`.
* `Cell.valueType`, `Cell.deferredType` — the type of a cell as a value, and
  once every recorded invocation is replayed.
* `Instruction.name` — the name an instruction is known and recorded under.
-/

namespace Restack

/-- The strict operations of the vocabulary. -/
inductive Primitive where
  /-- The sum of two numbers. -/
  | add
  /-- The deeper number less the top one. -/
  | sub
  /-- The product of two numbers. -/
  | mul
  /-- The deeper number divided by the top one. -/
  | div
  /-- The top number less the deeper one. -/
  | minus
  /-- Whether the deeper number is below the top one. -/
  | less
  /-- Whether the deeper number is above the top one. -/
  | greater
  /-- Whether two cells are equal, numbers by value. -/
  | equal
  /-- The opposite truth value. -/
  | not
  /-- The top cell twice. -/
  | dup
  /-- Nothing in place of the top cell. -/
  | drop
  /-- The two top cells exchanged. -/
  | swap
  /-- A copy of the second cell on top. -/
  | pick
  /-- The third cell brought to the top. -/
  | rot
  /-- The code of a quotation, to run next. -/
  | call
  deriving DecidableEq

/-- The instructions that steer a run or bind names. -/
inductive Control where
  /-- Runs one of two branches. -/
  | branch
  /-- Unrolls one round of a loop. -/
  | loop
  /-- Binds a name. -/
  | assign
  /-- Binds a name, and leaves a record of having done so. -/
  | assignRecorded
  deriving DecidableEq

/-- The word a control instruction is written as. -/
def Control.name : Control → String
  | branch => "if"
  | loop => "while"
  | assign => "!"
  | assignRecorded => "!"

/-- How the type of a recorded output follows from the operands. -/
inductive OutputType where
  /-- Always this type. -/
  | fixed (type : TypeTag)
  /-- The type of the operand at this depth. -/
  | sameAs (depth : Nat)
  /-- The numeric promotion of all operands. -/
  | promote
  deriving DecidableEq

mutual

/-- Anything that may stand on a stack. -/
inductive Cell where
  /-- A 64-bit signed integer. -/
  | int (value : Int64)
  /-- A single-precision float. -/
  | float (value : Float32)
  /-- A double-precision float. -/
  | double (value : Float)
  /-- A truth value. -/
  | bool (value : Bool)
  /-- A text literal. -/
  | text (value : String)
  /-- A bareword, looked up when it is run. -/
  | symbol (name : String)
  /-- A nested program or data fragment. -/
  | quotation (code : List Cell)
  /-- An instruction that is already looked up. -/
  | instruction (op : Instruction)
  /-- A request to run code before the pending program. -/
  | continuation (code : List Cell)
  /-- A recorded invocation: its operands, then its symbol, in code order; and the type of the value
  that its replay leaves on top, if it leaves one. -/
  | defer (record : List Cell) (result : Option TypeTag)
  /-- A stand-in for a further value that a record beside it produces. -/
  | dummy (tag : TypeTag)
  /-- A concrete type, as a value of inference. -/
  | type (tag : TypeTag)
  /-- An unknown type. -/
  | var (name : String)
  /-- Variables pinned by inference, in name order. -/
  | bindings (entries : List (String × Cell))
  /-- Inputs that an inference run needs from outside, top first. -/
  | residual (needs : List Cell)

/-- A map from the data stack to the next data stack. -/
inductive Instruction where
  /-- An operation that fails on missing or mistyped operands. -/
  | strict (name : String) (op : Primitive)
  /-- Such an operation that the environment supplies, under a key. -/
  | supplied (name : String) (key : String)
  /-- Examines its operands, of types `inputs` top first, before it hands over to `inner`. -/
  | checked (inputs : List TypeTag) (acceptDeferred : Bool) (inner : Instruction)
  /-- Records its own invocation; `outputs` are listed top first. -/
  | recorder (name : String) (arity : Nat) (outputs : List OutputType)
  /-- Replaces types by types as its stack effect says, both sides listed top first. -/
  | declared (name : String) (consumes produces : List Cell)
  /-- Stands for the value a program bound to its name. -/
  | defined (name : String) (value : Cell)
  /-- Steers the run or binds a name. -/
  | control (word : Control)

end

/-- A stack of cells, top first. -/
abbrev Stack := List Cell

instance : Inhabited Cell := ⟨.bool false⟩

/-- The name an instruction is known and recorded under; a check bears the name of what it
guards. -/
def Instruction.name : Instruction → String
  | strict name _ => name
  | supplied name _ => name
  | checked _ _ inner => inner.name
  | recorder name _ _ => name
  | declared name _ _ => name
  | defined name _ => name
  | control word => word.name

/-- The cell that holds a number. -/
def Number.toCell : Number → Cell
  | int v => .int v
  | float v => .float v
  | double v => .double v

namespace Cell

/-- The number that a cell holds. -/
def number? : Cell → Option Number
  | int v => some (.int v)
  | float v => some (.float v)
  | double v => some (.double v)
  | _ => none

/-- The integer that a cell holds. -/
def int? : Cell → Option Int64
  | int v => some v
  | _ => none

/-- The code of a quotation. -/
def quotation? : Cell → Option (List Cell)
  | quotation code => some code
  | _ => none

/-- The type of a cell as an ordinary value. Symbols, instructions, continuations, records and the
notes of inference are not values. -/
def valueType : Cell → Option TypeTag
  | int _ => some .int
  | float _ => some .float
  | double _ => some .double
  | bool _ => some .bool
  | text _ => some .text
  | quotation _ => some .quot
  | type _ => some .type
  | var _ => some .type
  | _ => none

/-- The type of a cell once every recorded invocation is replayed. -/
def deferredType : Cell → Option TypeTag
  | defer _ result => result
  | dummy tag => some tag
  | c => c.valueType

/-- Whether a cell stands in for a recorded computation. -/
def isDeferred : Cell → Bool
  | defer _ _ => true
  | dummy _ => true
  | _ => false

/-- Whether a cell is a stand-in beneath a record. -/
def isDummy : Cell → Bool
  | dummy _ => true
  | _ => false

/-- Whether a cell is a record whose replay leaves no value of its own. -/
def leavesNothing : Cell → Bool
  | defer _ none => true
  | _ => false

end Cell
end Restack
