import Restack.Environment
import Restack.Error

/-!
# Control words

* `cond [then] [else] if` runs the chosen branch; a branch that is not a quotation
  is pushed.
* `[cond] [body] while` runs `cond`, and `body` for as long as it leaves true.
* `value name !` binds a name, given by a symbol or a text. A bound quotation runs
  when its name is met; any other value is pushed.

## Main definitions

* `Cell.invoked` — what a bound value or a chosen branch puts on the data.
* `branch`, `unroll`, `assignment` — the three words.
-/

namespace Restack

/-- What a bound value or a chosen branch puts on the data: code to run, or the value itself. -/
def Cell.invoked : Cell → Cell
  | quotation code => continuation code
  | c => c

/-- Chooses a branch by a truth value. -/
def branch : Stack → Except EngineError Stack
  | otherwise :: chosen :: cond :: data =>
    match cond with
    | .bool true => .ok (chosen.invoked :: data)
    | .bool false => .ok (otherwise.invoked :: data)
    | c => .error (.typeMismatch "if" .bool c)
  | data => .error (.arity "if" 3 data.length)

/-- The code of one round of a loop: the condition, then a choice between another round and
nothing. -/
def loopCode (cond body : List Cell) : List Cell :=
  cond ++
    [.quotation (body ++ [.quotation cond, .quotation body, .symbol "while"]), .quotation [],
      .symbol "if"]

/-- Unrolls one round of a loop. -/
def unroll : Stack → Except EngineError Stack
  | .quotation body :: .quotation cond :: data => .ok (.continuation (loopCode cond body) :: data)
  | .quotation _ :: c :: _ => .error (.typeMismatch "while" .quot c)
  | c :: _ :: _ => .error (.typeMismatch "while" .quot c)
  | data => .error (.arity "while" 2 data.length)

/-- The assignment that the top of the data asks for. -/
structure Assignment where
  /-- The name to bind. -/
  name : String
  /-- The cell that gave the name. -/
  target : Cell
  /-- The value to bind it to. -/
  value : Cell
  /-- The data beneath. -/
  rest : Stack

/-- Reads an assignment off the data. -/
def assignment : Stack → Except EngineError Assignment
  | target :: value :: data =>
    match target with
    | .symbol name => .ok ⟨name, target, value, data⟩
    | .text name => .ok ⟨name, target, value, data⟩
    | c => .error (.typeMismatch "!" .text c)
  | data => .error (.arity "!" 2 data.length)

namespace Assignment

/-- The environment in which the assignment holds. -/
def define (a : Assignment) (env : Environment) : Environment :=
  env.define a.name (.defined a.name a.value)

/-- The record that replays the assignment. -/
def record (a : Assignment) : Cell := .defer [a.value, a.target, .symbol "!"] none

end Assignment

/-- Applies a control word. -/
def Control.apply (word : Control) (data : Stack) (env : Environment) :
    Except EngineError Stack × Environment :=
  match word with
  | branch => (Restack.branch data, env)
  | loop => (unroll data, env)
  | assign =>
    match assignment data with
    | .ok a => (.ok a.rest, a.define env)
    | .error e => (.error e, env)
  | assignRecorded =>
    match assignment data with
    | .ok a => (.ok (a.record :: a.rest), a.define env)
    | .error e => (.error e, env)

end Restack
