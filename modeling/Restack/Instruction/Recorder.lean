import Restack.Error

/-!
# Recording an invocation

Instead of computing, a recorder leaves a record of what it would have been called
with, typed by its first output, and beneath it one dummy for each further output.

## Main definitions

* `OutputType.resolve` — the type of one output.
* `recordInvocation` — the data after an invocation was recorded.
-/

namespace Restack

/-- The type of an output, given the operands top first. -/
def OutputType.resolve (operands : List Cell) : OutputType → Option TypeTag
  | fixed tag => some tag
  | sameAs depth => operands[depth]?.bind Cell.deferredType
  | promote =>
    match operands with
    | [] => none
    | c :: cs =>
      cs.foldl (fun acc d => acc.bind fun a => d.deferredType.bind a.promote) c.deferredType

/-- The record of an invocation over its dummies; `operands` and `outputs` are listed top first. -/
def record (name : String) (operands : List Cell) (outputs : List OutputType) : List Cell :=
  let types := outputs.map (·.resolve operands)
  .defer (operands.reverse ++ [.symbol name]) (types.head?.bind id) ::
    types.tail.map fun type => .dummy (type.getD .any)

/-- Replaces `arity` operands by the record of their invocation. -/
def recordInvocation (name : String) (arity : Nat) (outputs : List OutputType) (data : Stack) :
    Except EngineError Stack :=
  if data.length < arity then .error (.arity name arity data.length)
  else .ok (record name (data.take arity) outputs ++ data.drop arity)

end Restack
