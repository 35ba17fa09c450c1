import Restack.Instruction.Check
import Restack.Instruction.Control
import Restack.Instruction.Declared
import Restack.Instruction.Recorder
import Restack.Instruction.Strict

/-!
# Applying an instruction

An instruction is applied to the data stack, which is the state without its code. It
returns the next data stack or a fault, and the environment in either case: names
bound and fresh names drawn before a fault stay.
-/

namespace Restack

/-- A recorder behind a check that accepts records; `inputs` and `outputs` are listed top first. -/
def Instruction.recording (name : String) (inputs : List TypeTag) (outputs : List OutputType) :
    Instruction :=
  .checked inputs true (.recorder name inputs.length outputs)

/-- Puts results that were computed from the operands alone back over the rest of the data. -/
def restoreOver (beneath : Stack) :
    Except EngineError Stack × Environment → Except EngineError Stack × Environment
  | (.ok results, env) => (.ok (results ++ beneath), env)
  | (.error e, env) => (.error e, env)

/-- Applies an instruction to the data stack. -/
def Instruction.apply : Instruction → Stack → Environment → Except EngineError Stack × Environment
  | .strict name op, data, env => ((op.action name).apply name data, env)
  | .supplied name key, data, env => ((env.supplied key).apply name data, env)
  | .checked inputs acceptDeferred inner, data, env =>
    match examine acceptDeferred inputs data with
    | .exhausted => (.ok (.symbol inner.name :: data), env)
    | .rejected popped cell _ rest =>
      (.ok (retryBeneath inner.name acceptDeferred inputs popped cell rest), env)
    | .accepted popped rest =>
      if acceptDeferred then
        restoreOver (popped.filter Cell.leavesNothing ++ rest)
          (inner.apply (popped.filter fun c => !c.leavesNothing) env)
      else inner.apply data env
  | .recorder name arity outputs, data, env => (recordInvocation name arity outputs data, env)
  | .declared name consumes produces, data, env => applyDeclared name ⟨consumes, produces⟩ data env
  | .defined _ value, data, env => (.ok (value.invoked :: data), env)
  | .control word, data, env => word.apply data env

end Restack
