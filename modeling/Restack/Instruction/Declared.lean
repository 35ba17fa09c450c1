import Restack.Environment
import Restack.Unification

/-!
# Declared stack effects

During inference an instruction is known only by its stack effect. Its variables are
renamed at each use. It takes one type per declared input, unifies it with the
declaration, and pushes the declared outputs with every pinned variable replaced.

Notes of earlier uses are passed by and kept: bindings, which also constrain this
use, and residuals. Where the data runs out, the inputs that are still missing are
noted as a residual: the program needs them from outside.

## Main definitions

* `freshen` — a stack effect with its variables renamed.
* `consume` — the declared inputs against the data.
* `applyDeclared` — the data after a use.
-/

namespace Restack

/-- A stack effect, both sides top first. -/
structure Signature where
  /-- What is taken off the stack. -/
  consumes : Stack
  /-- What is left in its place. -/
  produces : Stack

/-- A renaming under construction, and the source of its names. -/
structure Renaming where
  /-- The fresh variable of each variable met so far. -/
  map : Substitution := []
  /-- Where the next fresh name comes from. -/
  names : NameSource

/-- Gives a variable a fresh name, unless it has one. -/
def Renaming.meet (r : Renaming) (v : String) : Renaming :=
  match r.map.get? v with
  | some _ => r
  | none =>
    let (name, names) := r.names.fresh v
    ⟨r.map.bind v (.var name), names⟩

mutual

/-- The variables of a cell, inside quotations too, from left to right. -/
def Cell.vars : Cell → List String
  | .var v => [v]
  | .quotation code => Cell.varsList code
  | _ => []

/-- The variables of the cells, from left to right. -/
def Cell.varsList : List Cell → List String
  | [] => []
  | c :: cs => c.vars ++ Cell.varsList cs

end

/-- Renames every variable of a stack effect to a fresh one. -/
def Signature.freshen (s : Signature) (names : NameSource) : Signature × NameSource :=
  let r := (Cell.varsList (s.consumes ++ s.produces)).foldl Renaming.meet { names }
  (⟨s.consumes.map r.map.substitute, s.produces.map r.map.substitute⟩, r.names)

/-- The type that a data cell stands for, for the named instruction. -/
def Cell.typeFor (instruction : String) : Cell → Except EngineError Cell
  | type tag => .ok (type tag)
  | var name => .ok (var name)
  | c =>
    match c.valueType with
    | some tag => .ok (type tag)
    | none => .error (.untyped instruction c)

/-- What is left after the declared inputs were taken. -/
structure Consumption where
  /-- What the use pins down. -/
  theta : Substitution
  /-- The notes passed by, top first. -/
  aside : List Cell := []
  /-- The declared inputs that were not found, if the data ran out. -/
  missing : Option (List Cell) := none
  /-- The data beneath. -/
  rest : Stack

/-- The same consumption with one more note passed by before it. -/
def Consumption.pass (c : Cell) (taken : Consumption) : Consumption :=
  { taken with aside := c :: taken.aside }

/-- Takes the declared inputs off the data, for the named instruction. -/
def consume (instruction : String) :
    (required : List Cell) → Stack → Substitution → Except EngineError Consumption
  | [], data, theta => .ok { theta, rest := data }
  | required, [], theta => .ok { theta, missing := some required, rest := [] }
  | r :: required, c :: data, theta =>
    match c with
    | .bindings entries =>
      match unifyBindings entries theta with
      | .ok theta => (consume instruction (r :: required) data theta).map (·.pass c)
      | .error e => .error (.unification e)
    | .residual _ => (consume instruction (r :: required) data theta).map (·.pass c)
    | c =>
      match c.typeFor instruction with
      | .error e => .error e
      | .ok actual =>
        match unify r actual theta with
        | .ok theta => consume instruction required data theta
        | .error e => .error (.unification e)

/-- The data after a use that took `taken` and leaves `produces`. -/
def Consumption.leave (taken : Consumption) (produces : Stack) : Stack :=
  produces.map taken.theta.substitute ++
    (if taken.theta.isEmpty then [] else [.bindings taken.theta]) ++
    (match taken.missing with
      | some needs => [.residual needs]
      | none => []) ++
    taken.aside ++ taken.rest

/-- Applies a declared stack effect; the fresh names are spent even if it fails. -/
def applyDeclared (instruction : String) (signature : Signature) (data : Stack)
    (env : Environment) : Except EngineError Stack × Environment :=
  let (fresh, names) := signature.freshen env.names
  let env := { env with names }
  match consume instruction fresh.consumes data [] with
  | .ok taken => (.ok (taken.leave fresh.produces), env)
  | .error e => (.error e, env)

end Restack
