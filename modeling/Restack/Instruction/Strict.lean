import Restack.Cell.Equality
import Restack.Error

/-!
# Strict operations

A strict operation takes a fixed number of operands of fixed kinds. It first asks
that there are enough cells, then reads its operands from the top down, and fails
at the first that is of another kind. The deepest operand comes first in the
argument order, so `5 4 -` subtracts four from five. Any function of operands makes
an operation; those of the vocabulary are the primitives.

## Main definitions

* `Kind` — what an operand may be, with its values and its requirement tag.
* `Action` — an operation by its operand kinds and its function.
* `Primitive.action` — what each primitive does.
* `Action.apply` — an operation on the data stack.
-/

namespace Restack

/-- What an operand may be. -/
inductive Kind where
  /-- Any cell. -/
  | any
  /-- A number of any numeric kind. -/
  | number
  /-- An integer. -/
  | int
  /-- A double. -/
  | double
  /-- A truth value. -/
  | bool
  /-- A text. -/
  | text
  /-- A quotation. -/
  | quotation
  deriving DecidableEq

namespace Kind

/-- The values that an operand of a kind can have. -/
abbrev Value : Kind → Type
  | any => Cell
  | number => Number
  | int => Int64
  | double => Float
  | bool => Bool
  | text => String
  | quotation => List Cell

/-- The requirement that an operand of a kind states. -/
def tag : Kind → TypeTag
  | any => .any
  | number => .num
  | int => .int
  | double => .double
  | bool => .bool
  | text => .text
  | quotation => .quot

/-- The value of a cell as an operand of a kind. -/
def read? : (k : Kind) → Cell → Option k.Value
  | any, c => some c
  | number, c => c.number?
  | int, .int v => some v
  | double, .double v => some v
  | bool, .bool v => some v
  | text, .text v => some v
  | quotation, .quotation v => some v
  | _, _ => none

/-- The value of a cell as an operand of the named instruction. -/
def take (k : Kind) (instruction : String) (c : Cell) : Except EngineError k.Value :=
  match k.read? c with
  | some v => .ok v
  | none => .error (.typeMismatch instruction k.tag c)

end Kind

/-- The results of an operation, top first, or why there are none. -/
abbrev Results := Except EngineError (List Cell)

/-- An operation by its operand kinds, the deepest first, and its function. -/
inductive Action where
  /-- No operands. -/
  | nullary (results : Results)
  /-- One operand. -/
  | unary (x : Kind) (f : x.Value → Results)
  /-- Two operands, `y` on top. -/
  | binary (x y : Kind) (f : x.Value → y.Value → Results)
  /-- Three operands, `z` on top. -/
  | trinary (x y z : Kind) (f : x.Value → y.Value → z.Value → Results)

namespace Action

/-- The requirements on the operands, top first. -/
def inputs : Action → List TypeTag
  | nullary _ => []
  | unary x _ => [x.tag]
  | binary x y _ => [y.tag, x.tag]
  | trinary x y z _ => [z.tag, y.tag, x.tag]

/-- Applies an operation, for the named instruction, to the data stack. -/
def apply (instruction : String) : Action → Stack → Except EngineError Stack
  | nullary results, data => do
    let out ← results
    return out ++ data
  | unary x f, a :: data => do
    let a ← x.take instruction a
    let out ← f a
    return out ++ data
  | binary x y f, b :: a :: data => do
    let b ← y.take instruction b
    let a ← x.take instruction a
    let out ← f a b
    return out ++ data
  | trinary x y z f, c :: b :: a :: data => do
    let c ← z.take instruction c
    let b ← y.take instruction b
    let a ← x.take instruction a
    let out ← f a b c
    return out ++ data
  | action, data => .error (.arity instruction action.inputs.length data.length)

end Action

/-- Whether two cells are equal: numbers by value across their kinds, all else by structure. -/
def Cell.sameValue (x y : Cell) : Bool :=
  match x.number?, y.number? with
  | some a, some b => a.compare b == some .eq
  | _, _ => x == y

/-- The number computed, as the only result of the named instruction. -/
def numeric (instruction : String) : Except Number.Fault Number → Results
  | .ok n => .ok [n.toCell]
  | .error fault => .error (.ofFault instruction fault)

namespace Primitive

/-- What each primitive does, for the named instruction. -/
def action (instruction : String) : Primitive → Action
  | add => .binary .number .number fun x y => numeric instruction (x.add y)
  | sub => .binary .number .number fun x y => numeric instruction (x.sub y)
  | mul => .binary .number .number fun x y => numeric instruction (x.mul y)
  | div => .binary .number .number fun x y => numeric instruction (x.div y)
  | minus => .binary .number .number fun x y => numeric instruction (y.sub x)
  | less => .binary .number .number fun x y => .ok [.bool (x.compare y == some .lt)]
  | greater => .binary .number .number fun x y => .ok [.bool (x.compare y == some .gt)]
  | equal => .binary .any .any fun x y => .ok [.bool (Cell.sameValue x y)]
  | not => .unary .bool fun b => .ok [.bool !b]
  | dup => .unary .any fun x => .ok [x, x]
  | drop => .unary .any fun _ => .ok []
  | swap => .binary .any .any fun x y => .ok [x, y]
  | pick => .binary .any .any fun x y => .ok [x, y, x]
  | rot => .trinary .any .any .any fun x y z => .ok [x, z, y]
  | call => .unary .quotation fun code => .ok [.continuation code]

/-- The requirements on the operands of a primitive, top first. -/
def inputs (op : Primitive) : List TypeTag := (op.action "").inputs

end Primitive

namespace Instruction

/-- A strict operation behind a check that steps over unsuitable operands. -/
def lenient (name : String) (op : Primitive) : Instruction :=
  .checked op.inputs false (.strict name op)

end Instruction
end Restack
