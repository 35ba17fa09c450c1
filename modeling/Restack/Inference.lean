import Restack.Machine

/-!
# Reading a stack effect off a run

A finished inference run holds the types that were produced, among them the notes
that instructions left: bindings, which are folded into one substitution, and
residuals, which together are what the program needs from outside, the deepest last.

## Main definitions

* `signatureOf` — the stack effect that a state shows.
* `infer` — a run followed by reading its stack effect.
-/

namespace Restack

/-- The text of a stack effect. -/
def Signature.toText (s : Signature) : String := s.consumes.toText ++ " -> " ++ s.produces.toText

/-- The data of a state, its code on top left out. -/
def dataOf : Stack → Stack
  | .quotation _ :: data => data
  | state => state

/-- The inputs that a cell notes as needed from outside. -/
def Cell.needed : Cell → List Cell
  | residual needs => needs
  | _ => []

/-- The variables that a cell notes as pinned. -/
def Cell.pinned : Cell → List (String × Cell)
  | bindings entries => entries
  | _ => []

/-- Whether a cell is a note of inference rather than something produced. -/
def Cell.isNote : Cell → Bool
  | residual _ => true
  | bindings _ => true
  | _ => false

/-- The stack effect that a state shows. -/
def signatureOf (state : Stack) : Except UnifyError Signature :=
  let data := dataOf state
  match unifyBindings (data.reverse.flatMap Cell.pinned) [] with
  | .ok theta =>
    .ok {
      consumes := (data.reverse.flatMap Cell.needed).map theta.substitute
      produces := (data.filter fun c => !c.isNote).map theta.substitute }
  | .error e => .error e

/-- Runs a state and reads off its stack effect. -/
def infer (budget : Option Nat) (state : Stack) (env : Environment) :
    Except EngineError Signature × Environment :=
  match run budget state env with
  | (.ok finished, env) =>
    match signatureOf finished with
    | .ok signature => (.ok signature, env)
    | .error e => (.error (.unification e), env)
  | (.error e, env) => (.error e, env)

end Restack
