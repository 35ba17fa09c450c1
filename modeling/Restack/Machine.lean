import Restack.Instruction.Apply

/-!
# The machine

A state is a stack whose top cell is the pending code, a quotation, with the data
beneath it. A step takes the next code cell, applies it if it names or is an
instruction, and pushes it as data otherwise. An instruction may leave a
continuation on top: its code is then put before the pending code. A state is halted
once its code is empty; a state without code on top is malformed, and halts with all
its cells as data.

## Main definitions

* `isHalted`, `step` — one step.
* `run` — steps until halted or out of budget.
* `Walk`, `stream` — every state on the way, handed out one by one.
-/

namespace Restack

/-- Whether a state has run out of code. -/
def isHalted : Stack → Bool
  | .quotation [] :: _ => true
  | _ => false

/-- Splits off a continuation on top of the data. -/
def continuation? : Stack → Option (List Cell × Stack)
  | .continuation code :: data => some (code, data)
  | _ => none

/-- The state with the given data and pending code, a continuation on top of the data put before the
code. -/
def splice (data : Stack) (code : List Cell) : Stack :=
  match continuation? data with
  | some (more, data) => .quotation (more ++ code) :: data
  | none => .quotation code :: data

/-- The instruction that a code cell stands for. -/
def Environment.lookup (env : Environment) : Cell → Option Instruction
  | .symbol name => env.resolve? name
  | .instruction op => some op
  | _ => none

/-- Performs one step. -/
def step (state : Stack) (env : Environment) : Except EngineError Stack × Environment :=
  match state with
  | .quotation [] :: data => (.ok (.quotation [] :: data), env)
  | .quotation (c :: code) :: data =>
    match env.lookup c with
    | some op =>
      match op.apply data env with
      | (.ok data, env) => (.ok (splice data code), env)
      | (.error e, env) => (.error e, env)
    | none => (.ok (.quotation code :: c :: data), env)
  | state => (.ok (.quotation [] :: state), env)

/-- Performs steps until the state is halted, at most `n` of them. -/
def runWithin : Nat → Stack → Environment → Except EngineError Stack × Environment
  | 0, state, env => (.ok state, env)
  | n + 1, state, env =>
    if isHalted state then (.ok state, env)
    else
      match step state env with
      | (.ok state, env) => runWithin n state env
      | (.error e, env) => (.error e, env)

/-- The states met while performing at most `n` steps, the given one first; a fault comes last. -/
def streamWithin : Nat → Stack → Environment → List (Except EngineError Stack) × Environment
  | 0, state, env => ([.ok state], env)
  | n + 1, state, env =>
    if isHalted state then ([.ok state], env)
    else
      match step state env with
      | (.ok next, env) =>
        let (later, env) := streamWithin n next env
        (.ok state :: later, env)
      | (.error e, env) => ([.ok state, .error e], env)

/-- The number of steps that a budget allows. Steps are counted in a 64-bit word, so a run without a
budget is one of `2 ^ 64` steps. -/
def stepLimit (budget : Option Nat) : Nat := budget.getD UInt64.size

/-- Runs a state until it is halted or its budget is spent. -/
def run (budget : Option Nat) (state : Stack) (env : Environment) :
    Except EngineError Stack × Environment :=
  runWithin (stepLimit budget) state env

/-- A run that hands out its states one by one. The step from a state is performed before that state
is handed out. -/
structure Walk where
  /-- What is handed out next, if anything is left. -/
  upcoming : Option (Except EngineError Stack)
  /-- The environment after the steps performed so far. -/
  env : Environment
  /-- The number of steps that may still be performed. -/
  remaining : Nat

namespace Walk

/-- The walk after a state was handed out: one step further, or at its end. -/
def leave (walk : Walk) (state : Stack) : Walk :=
  match isHalted state, walk.remaining with
  | false, n + 1 =>
    let (outcome, env) := step state walk.env
    ⟨some outcome, env, n⟩
  | _, _ => { walk with upcoming := none }

/-- The next item of a walk, and the walk after it. A fault is the last item. -/
def next? (walk : Walk) : Option (Except EngineError Stack × Walk) :=
  match walk.upcoming with
  | none => none
  | some (.ok state) => some (.ok state, walk.leave state)
  | some (.error e) => some (.error e, { walk with upcoming := none })

/-- A bound on the number of items to come. -/
def itemBound (walk : Walk) : Nat :=
  match walk.upcoming with
  | none => 0
  | some (.ok _) => walk.remaining + 2
  | some (.error _) => 1

theorem itemBound_leave_lt (walk : Walk) (state : Stack) :
    (walk.leave state).itemBound < walk.remaining + 2 := by
  unfold leave
  split
  · rename_i n _ hn
    rw [hn]
    unfold itemBound
    split <;> simp
  · exact Nat.succ_pos _

theorem itemBound_lt_of_next? {walk later : Walk} {item : Except EngineError Stack}
    (h : walk.next? = some (item, later)) : later.itemBound < walk.itemBound := by
  unfold next? at h
  split at h
  · cases h
  · rename_i state hup
    cases h
    have hbound : walk.itemBound = walk.remaining + 2 := by rw [itemBound, hup]
    rw [hbound]
    exact walk.itemBound_leave_lt state
  · rename_i e hup
    cases h
    have hbound : walk.itemBound = 1 := by rw [itemBound, hup]
    rw [hbound]
    exact Nat.one_pos

/-- The items of a walk that is followed to its end, and the environment there. -/
def items (walk : Walk) : List (Except EngineError Stack) × Environment :=
  match _h : walk.next? with
  | none => ([], walk.env)
  | some (item, later) =>
    let (rest, env) := later.items
    (item :: rest, env)
  termination_by walk.itemBound
  decreasing_by exact itemBound_lt_of_next? _h

end Walk

/-- Every state of a run, starting with the given one. -/
def stream (budget : Option Nat) (state : Stack) (env : Environment) :
    List (Except EngineError Stack) × Environment :=
  Walk.items ⟨some (.ok state), env, stepLimit budget⟩

end Restack
