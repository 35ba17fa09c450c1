import Restack.Machine

/-!
# Reconstruction

After a run that recorded its invocations, the data is turned back into one program:
from the bottom up, a record becomes the code that replays it, a dummy disappears,
because the record beside it produces its value, and every other cell becomes a
literal.

## Main definitions

* `Cell.flatten`, `flattenRecord` — the code that a cell, or a record, stands for.
* `reconstructStep`, `reconstruct` — moving data back into the code.
* `reorder` — a run followed by its reconstruction.
-/

namespace Restack

mutual

/-- The code that a data cell stands for, innermost records first. -/
def Cell.flatten : Cell → List Cell
  | .defer record _ => Cell.flattenList record
  | .dummy _ => []
  | c => [c]

/-- The code that cells in code order stand for. -/
def Cell.flattenList : List Cell → List Cell
  | [] => []
  | c :: cs => c.flatten ++ Cell.flattenList cs

end

/-- Expands a record into code that can be run. -/
def flattenRecord (record : List Cell) : List Cell := Cell.flattenList record

/-- Moves the top data cell to the front of the code. States without code on top, or without data,
are left as they are. -/
def reconstructStep : Stack → Stack
  | .quotation code :: c :: data => .quotation (c.flatten ++ code) :: data
  | state => state

/-- The code with all data moved to its front. -/
def gather (code : List Cell) : Stack → List Cell
  | [] => code
  | c :: data => gather (c.flatten ++ code) data

/-- Moves all data into the code. -/
def reconstruct : Stack → Stack
  | .quotation code :: data => [.quotation (gather code data)]
  | state => state

/-- Runs a state and reconstructs a program from the result. -/
def reorder (budget : Option Nat) (state : Stack) (env : Environment) :
    Except EngineError Stack × Environment :=
  match run budget state env with
  | (.ok finished, env) => (.ok (reconstruct finished), env)
  | (.error e, env) => (.error e, env)

/-- Moving one cell does not change what is reconstructed in the end. -/
theorem reconstruct_reconstructStep (state : Stack) :
    reconstruct (reconstructStep state) = reconstruct state := by
  unfold reconstructStep
  split <;> rfl

end Restack
