import Restack.Inference
import Restack.Reconstruction
import Restack.Settings
import Restack.Source.Reader

/-!
# Sessions

A session evaluates program texts with the settings it was opened with. Names that a
program binds, and the fresh names it draws, persist from one evaluation to the next,
even where the evaluation fails. Reconstruction, replay and inference of a text start
from a fresh environment of their own and neither see nor change the session's.

## Main definitions

* `SessionError`, `Outcome`.
* `Session.eval`, `Session.trace`, `Session.run` — in the session's environment.
* `Session.reorder`, `Session.replay`, `Session.infer` — in fresh ones.
-/

namespace Restack

/-- Why a session cannot be opened, or a text not evaluated. -/
inductive SessionError where
  /-- The text cannot be read. -/
  | parse (error : ParseError)
  /-- The evaluation failed. -/
  | engine (error : EngineError)
  /-- The settings cannot be had. -/
  | settings (error : SettingsError)

/-- The wording of an error. -/
def SessionError.message : SessionError → String
  | parse error => "parse error: " ++ error.message
  | engine error => "evaluation failed: " ++ error.message
  | settings error => error.message

/-- What an evaluation in the mode of a session comes to. -/
inductive Outcome where
  /-- The state at its end. -/
  | state (state : Stack)
  /-- The program reconstructed from it. -/
  | reconstruction (state : Stack)
  /-- The stack effect of the text. -/
  | signature (signature : Signature)

/-- The text of an outcome. -/
def Outcome.toText : Outcome → String
  | state s => s.toText
  | reconstruction s => s.toText
  | signature s => s.toText

/-- The state with a program as its code, and no data. -/
def programState (source : String) : Except SessionError Stack :=
  match Source.parseProgram source with
  | .ok code => .ok [.quotation code]
  | .error e => .error (.parse e)

/-- An evaluation of program texts. -/
structure Session where
  /-- What the session was opened with. -/
  settings : Settings
  /-- The environment that evaluations share. -/
  env : Environment

namespace Session

/-- Opens a session. -/
def ofSettings (settings : Settings) : Session := ⟨settings, settings.mode.environment⟩

/-- The result of a run that ended in `env`, and the session after it. -/
def after {α β : Type} (session : Session) (wrap : α → β) :
    Except EngineError α × Environment → Except SessionError β × Session
  | (.ok a, env) => (.ok (wrap a), { session with env })
  | (.error e, env) => (.error (.engine e), { session with env })

/-- Runs a state in the session's environment. -/
def evalState (session : Session) (state : Stack) : Except SessionError Stack × Session :=
  session.after id (Restack.run session.settings.maxSteps state session.env)

/-- Runs a program text in the session's environment. -/
def eval (session : Session) (source : String) : Except SessionError Stack × Session :=
  match programState source with
  | .ok state => session.evalState state
  | .error e => (.error e, session)

/-- The states of a stream, or the first fault in it. -/
def collect : List (Except EngineError Stack) → Except EngineError (List Stack)
  | [] => .ok []
  | .ok state :: items => (collect items).map (state :: ·)
  | .error e :: _ => .error e

/-- Every state of a run of a program text, starting with the initial one. -/
def trace (session : Session) (source : String) : Except SessionError (List Stack) × Session :=
  match programState source with
  | .ok state =>
    let (items, env) := stream session.settings.maxSteps state session.env
    session.after id (collect items, env)
  | .error e => (.error e, session)

/-- Evaluates a program text in the way that the mode calls for. -/
def run (session : Session) (source : String) : Except SessionError Outcome × Session :=
  match programState source with
  | .ok state =>
    let budget := session.settings.maxSteps
    match session.settings.mode with
    | .strict => session.after .state (Restack.run budget state session.env)
    | .nonStrict => session.after .state (Restack.run budget state session.env)
    | .reorder => session.after .reconstruction (Restack.reorder budget state session.env)
    | .infer => session.after .signature (Restack.infer budget state session.env)
  | .error e => (.error e, session)

/-- A result of the machine as one of a session. -/
def lift {α : Type} : Except EngineError α × Environment → Except SessionError α
  | (.ok a, _) => .ok a
  | (.error e, _) => .error (.engine e)

/-- The program reconstructed from a text: recorded computation first, free data last. -/
def reorder (session : Session) (source : String) : Except SessionError Stack := do
  let state ← programState source
  lift (Restack.reorder session.settings.maxSteps state Mode.reorder.environment)

/-- The state at the end of a strict run of the reconstruction. -/
def replay (session : Session) (source : String) : Except SessionError Stack := do
  let reconstruction ← session.reorder source
  lift (Restack.run session.settings.maxSteps reconstruction Mode.strict.environment)

/-- The stack effect of a text. -/
def infer (session : Session) (source : String) : Except SessionError Signature := do
  let state ← programState source
  lift (Restack.infer session.settings.maxSteps state Mode.infer.environment)

end Session
end Restack
