import Restack.Proofs.Machine
import Restack.Vocabulary

/-!
# Runs of concatenated code

An instruction sees the data and the environment, never the code that is still pending. So
code that follows the pending one waits until that has run out: each step of a run is
also a step of the run with more code behind. A continuation is put before the pending
code, and in this way runs to its end before anything that followed the instruction.

## Main definitions

* `followedBy` — a state with more code behind the pending one.
* `Reaches`, `FailsAfter` — steps that are not taken from a halted state, and the fault of
  the next one.
* `RunsTo` — the result of a run without a budget.
* `RunsInTurn` — two pieces of code, one run on what the other leaves.

## Main results

* `step_followedBy` — a step does not touch the code behind.
* `Reaches.followedBy`, `FailsAfter.followedBy` — nor do many of them.
* `runsTo_append_iff` — code in two parts runs one part after the other.
* `run_concatenation` — the laws of concatenation and of continuations together.
-/

namespace Restack

variable {n : Nat} {state next last : Stack} {env env₁ env' : Environment} {e : EngineError}
  {first second : List Cell} {data data' : Stack} {result : Except EngineError Stack × Environment}

/-- The state with more code behind the pending code. -/
def followedBy (later : List Cell) : Stack → Stack
  | .quotation code :: data => .quotation (code ++ later) :: data
  | state => state

@[simp] theorem followedBy_code (later code : List Cell) (data : Stack) :
    followedBy later (.quotation code :: data) = .quotation (code ++ later) :: data := rfl

/-- `n` steps lead from one state and environment to another, none of them from a halted state. -/
inductive Reaches : Nat → Stack → Environment → Stack → Environment → Prop
  /-- No step at all. -/
  | refl (state : Stack) (env : Environment) : Reaches 0 state env state env
  /-- A step from a state that is not halted, and then the others. -/
  | head {n : Nat} {state next last : Stack} {env env₁ env' : Environment}
    (hrunning : isHalted state = false) (hstep : step state env = (.ok next, env₁))
    (hrest : Reaches n next env₁ last env') : Reaches (n + 1) state env last env'

/-- The step after `n` steps, none of them from a halted state, fails. -/
def FailsAfter (n : Nat) (state : Stack) (env : Environment) (e : EngineError)
    (env' : Environment) : Prop :=
  ∃ last env₁, Reaches n state env last env₁ ∧ step last env₁ = (.error e, env')

/-- A run without a budget ends: it halts, or a step fails. -/
def RunsTo (state : Stack) (env : Environment)
    (result : Except EngineError Stack × Environment) : Prop :=
  ∃ n, runWithin n state env = result ∧ ∀ last, result.1 = .ok last → isHalted last = true

/-- The result of running one piece of code to its halt and another on what it leaves. -/
inductive RunsInTurn (first second : List Cell) (data : Stack) (env : Environment) :
    Except EngineError Stack × Environment → Prop
  /-- The first halts, and the second is run on its data in its environment. -/
  | both {data' : Stack} {env' : Environment} {result : Except EngineError Stack × Environment}
    (hfirst : RunsTo (.quotation first :: data) env (.ok (.quotation [] :: data'), env'))
    (hsecond : RunsTo (.quotation second :: data') env' result) :
    RunsInTurn first second data env result
  /-- The first fails, and the second is not run. -/
  | fails {e : EngineError} {env' : Environment}
    (hfirst : RunsTo (.quotation first :: data) env (.error e, env')) :
    RunsInTurn first second data env (.error e, env')

/-! ### Steps one after the other -/

theorem Reaches.trans {m : Nat} (h : Reaches m state env next env₁)
    (h' : Reaches n next env₁ last env') : Reaches (m + n) state env last env' := by
  induction h with
  | refl => rwa [Nat.zero_add]
  | head hrunning hstep _ ih =>
    rw [Nat.succ_add]
    exact .head hrunning hstep (ih h')

theorem Reaches.failsAfter {m : Nat} (h : Reaches m state env next env₁)
    (h' : FailsAfter n next env₁ e env') : FailsAfter (m + n) state env e env' := by
  obtain ⟨last, env₂, hreach, hfail⟩ := h'
  exact ⟨last, env₂, h.trans hreach, hfail⟩

/-! ### Steps and the code behind -/

/-- A continuation is put before the pending code, and so before the code behind it. -/
theorem splice_append (data : Stack) (code later : List Cell) :
    splice data (code ++ later) = followedBy later (splice data code) := by
  unfold splice
  split
  · rw [followedBy_code, List.append_assoc]
  · rfl

/-- **A step does not touch the code behind the pending code.** Only a halted state does not let
this be seen: it would go on with the code behind. -/
theorem step_followedBy (c : Cell) (code later : List Cell) (data : Stack) (env : Environment) :
    step (.quotation (c :: code ++ later) :: data) env =
      ((step (.quotation (c :: code) :: data) env).1.map (followedBy later),
        (step (.quotation (c :: code) :: data) env).2) := by
  rw [List.cons_append]
  cases hc : env.lookup c with
  | none =>
    rw [step_push hc, step_push hc]
    rfl
  | some op =>
    rw [step_apply hc, step_apply hc]
    cases (op.apply data env).1 with
    | error e => rfl
    | ok data' => exact congrArg (fun s => (Except.ok s, _)) (splice_append data' code later)

/-! ### Many steps and the code behind -/

/-- What is reached from a state with code on top has code on top. -/
theorem Reaches.exists_code (h : Reaches n (.quotation first :: data) env last env') :
    ∃ code data', last = .quotation code :: data' := by
  induction n generalizing first data env with
  | zero =>
    cases h
    exact ⟨first, data, rfl⟩
  | succ n ih =>
    cases h with
    | head _ hstep hrest =>
      obtain ⟨code, data', rfl⟩ := exists_code_of_step hstep
      exact ih hrest

/-- **Steps that are not taken from a halted state do not touch the code behind.** -/
theorem Reaches.followedBy (later : List Cell)
    (h : Reaches n (.quotation first :: data) env last env') :
    Reaches n (.quotation (first ++ later) :: data) env (followedBy later last) env' := by
  induction n generalizing first data env with
  | zero =>
    cases h
    exact .refl _ _
  | succ n ih =>
    cases h with
    | head hrunning hstep hrest =>
      cases first with
      | nil => cases hrunning
      | cons c code =>
        obtain ⟨code', data', rfl⟩ := exists_code_of_step hstep
        have hlonger := step_followedBy c code later data env
        rw [hstep] at hlonger
        exact .head rfl hlonger (ih hrest)

/-- **A step that fails does so with any code behind.** -/
theorem FailsAfter.followedBy (later : List Cell)
    (h : FailsAfter n (.quotation first :: data) env e env') :
    FailsAfter n (.quotation (first ++ later) :: data) env e env' := by
  obtain ⟨last, env₁, hreach, hfail⟩ := h
  obtain ⟨code, data', rfl⟩ := hreach.exists_code
  refine ⟨_, env₁, hreach.followedBy later, ?_⟩
  cases code with
  | nil => cases hfail
  | cons c code =>
    have hlonger := step_followedBy c code later data' env₁
    rw [hfail] at hlonger
    exact hlonger

/-! ### Runs with and without a budget -/

theorem Reaches.runWithin_eq (h : Reaches n state env last env') :
    runWithin n state env = (.ok last, env') := by
  induction h with
  | refl state env => rfl
  | head hrunning hstep _ ih => rw [runWithin_succ_ok _ hrunning hstep, ih]

theorem FailsAfter.runWithin_eq (h : FailsAfter n state env e env') :
    runWithin (n + 1) state env = (.error e, env') := by
  obtain ⟨last, env₁, hreach, hfail⟩ := h
  have hrunning : isHalted last = false := by
    cases hh : isHalted last with
    | false => rfl
    | true =>
      unfold isHalted at hh
      split at hh
      · cases hfail
      · cases hh
  rw [runWithin_add n 1 hreach.runWithin_eq, runWithin_succ_error 0 hrunning hfail]

/-- A run that succeeds takes some steps, and then rests in a halted state. -/
theorem exists_reaches (h : runWithin n state env = (.ok last, env')) :
    ∃ m, Reaches m state env last env' := by
  induction n generalizing state env with
  | zero =>
    cases h
    exact ⟨0, .refl _ _⟩
  | succ n ih =>
    cases hrunning : isHalted state with
    | true =>
      rw [runWithin_halted _ _ hrunning] at h
      cases h
      exact ⟨0, .refl _ _⟩
    | false =>
      obtain ⟨next, env₁, hstep, hrest⟩ := runWithin_succ_iff.mp h
      obtain ⟨m, hreach⟩ := ih hrest
      exact ⟨m + 1, .head hrunning hstep hreach⟩

/-- A run that fails does so in the step after some steps. -/
theorem exists_failsAfter (h : runWithin n state env = (.error e, env')) :
    ∃ m, FailsAfter m state env e env' := by
  induction n generalizing state env with
  | zero => cases h
  | succ n ih =>
    cases hrunning : isHalted state with
    | true =>
      rw [runWithin_halted _ _ hrunning] at h
      cases h
    | false =>
      cases hs : step state env with
      | mk outcome env₁ =>
        cases outcome with
        | error e' =>
          rw [runWithin_succ_error n hrunning hs] at h
          cases h
          exact ⟨0, state, env, .refl _ _, hs⟩
        | ok next =>
          rw [runWithin_succ_ok n hrunning hs] at h
          obtain ⟨m, last, env₂, hreach, hfail⟩ := ih h
          exact ⟨m + 1, last, env₂, .head hrunning hs hreach, hfail⟩

/-! ### Two pieces of code -/

theorem runsTo_halted (data : Stack) (env : Environment) :
    RunsTo (.quotation [] :: data) env (.ok (.quotation [] :: data), env) :=
  ⟨0, rfl, fun _ h => by cases h; rfl⟩

/-- A run has one result. -/
theorem RunsTo.unique {result' : Except EngineError Stack × Environment}
    (h : RunsTo state env result) (h' : RunsTo state env result') : result = result' := by
  obtain ⟨m, hm, hend⟩ := h
  obtain ⟨n, hn, hend'⟩ := h'
  have hsum : ∀ {k l : Nat} {r : Except EngineError Stack × Environment},
      runWithin k state env = r → (∀ last, r.1 = .ok last → isHalted last = true) →
        runWithin (k + l) state env = r := by
    intro k l r hk hr
    obtain ⟨outcome, env'⟩ := r
    cases outcome with
    | ok last => exact runWithin_of_le hk (hr last rfl) (Nat.le_add_right k l)
    | error e => exact runWithin_add_error k l hk
  rw [← hsum hm hend, Nat.add_comm m n, hsum hn hend']

/-- A run ends as the run from the next state does. -/
theorem runsTo_step_iff (hrunning : isHalted state = false)
    (hstep : step state env = (.ok next, env₁)) :
    RunsTo state env result ↔ RunsTo next env₁ result := by
  constructor
  · rintro ⟨n, hrun, hend⟩
    cases n with
    | zero =>
      subst hrun
      exact absurd (hend state rfl) (by simp [hrunning])
    | succ n =>
      rw [runWithin_succ_ok n hrunning hstep] at hrun
      exact ⟨n, hrun, hend⟩
  · rintro ⟨n, hrun, hend⟩
    exact ⟨n + 1, by rw [runWithin_succ_ok n hrunning hstep, hrun], hend⟩

/-- The second piece of code runs on what the first leaves. -/
theorem RunsInTurn.runsTo (h : RunsInTurn first second data env result) :
    RunsTo (.quotation (first ++ second) :: data) env result := by
  cases h with
  | both hfirst hsecond =>
    obtain ⟨m, hfirst, -⟩ := hfirst
    obtain ⟨n, hsecond, hend⟩ := hsecond
    obtain ⟨m, hreach⟩ := exists_reaches hfirst
    have hlonger := (hreach.followedBy second).runWithin_eq
    exact ⟨m + n, by rw [runWithin_add m n hlonger]; exact hsecond, hend⟩
  | fails hfirst =>
    obtain ⟨m, hfirst, hend⟩ := hfirst
    obtain ⟨m, hfail⟩ := exists_failsAfter hfirst
    exact ⟨m + 1, (hfail.followedBy second).runWithin_eq, hend⟩

/-- A run of both pieces of code comes to the end of the first. -/
theorem RunsTo.runsInTurn (h : RunsTo (.quotation (first ++ second) :: data) env result) :
    RunsInTurn first second data env result := by
  obtain ⟨n, hrun, hend⟩ := h
  -- the first piece is followed step by step, until it has halted or failed
  induction n generalizing first data env with
  | zero =>
    cases first with
    | nil => exact .both (runsTo_halted data env) ⟨0, hrun, hend⟩
    | cons c code =>
      subst hrun
      exact absurd (hend _ rfl) (by simp [isHalted])
  | succ n ih =>
    cases first with
    | nil => exact .both (runsTo_halted data env) ⟨n + 1, hrun, hend⟩
    | cons c code =>
      have hlonger := step_followedBy c code second data env
      cases hs : step (.quotation (c :: code) :: data) env with
      | mk outcome env₁ =>
        rw [hs] at hlonger
        cases outcome with
        | error e =>
          rw [runWithin_succ_error n rfl hlonger] at hrun
          subst hrun
          exact .fails ⟨1, runWithin_succ_error 0 rfl hs, nofun⟩
        | ok next =>
          obtain ⟨code', data', rfl⟩ := exists_code_of_step hs
          rw [runWithin_succ_ok n rfl hlonger] at hrun
          cases ih hrun with
          | both hfirst hsecond => exact .both ((runsTo_step_iff rfl hs).mpr hfirst) hsecond
          | fails hfirst => exact .fails ((runsTo_step_iff rfl hs).mpr hfirst)

/-- **Code in two parts runs one part after the other.** -/
theorem runsTo_append_iff :
    RunsTo (.quotation (first ++ second) :: data) env result ↔
      RunsInTurn first second data env result :=
  ⟨RunsTo.runsInTurn, RunsInTurn.runsTo⟩

/-- **Concatenation.** Steps of a piece of code, none of them from a halted state, are steps of it
with other code behind, with the same data and the same environment; and the next step fails in the
same way. So two pieces of code in a row run one after the other, and the code of a continuation
runs to its end before the code that followed the instruction. -/
theorem run_concatenation (env : Environment) (first second : List Cell) (data : Stack) :
    (∀ n code data' env', Reaches n (.quotation first :: data) env (.quotation code :: data') env' →
      Reaches n (.quotation (first ++ second) :: data) env
        (.quotation (code ++ second) :: data') env') ∧
      (∀ n e env', FailsAfter n (.quotation first :: data) env e env' →
        FailsAfter n (.quotation (first ++ second) :: data) env e env') ∧
      (∀ result, RunsTo (.quotation (first ++ second) :: data) env result ↔
        RunsInTurn first second data env result) ∧
      ∀ c op more data₁ env₁, env.lookup c = some op →
        op.apply data env = (.ok (.continuation more :: data₁), env₁) → ∀ result,
          RunsTo (.quotation (c :: second) :: data) env result ↔
            RunsInTurn more second data₁ env₁ result := by
  refine ⟨fun n code data' env' h => h.followedBy second, fun n e env' h => h.followedBy second,
    fun result => runsTo_append_iff, fun c op more data₁ env₁ hc happly result => ?_⟩
  -- the step puts the code of the continuation before the rest
  have hstep : step (.quotation (c :: second) :: data) env =
      (.ok (.quotation (more ++ second) :: data₁), env₁) :=
    step_iff.mpr (.apply hc happly second)
  rw [runsTo_step_iff rfl hstep, runsTo_append_iff]

/-- The code `3 +` of a called quotation runs before the `4` that follows the call. -/
theorem run_concatenation_called_sum :
    let first : List Cell := [.int 2, .quotation [.int 3, .symbol "+"], .symbol "call"]
    let strict := Mode.strict.environment
    Reaches 3 [.quotation first] strict [.quotation [.int 3, .symbol "+"], .int 2] strict ∧
      Reaches 3 [.quotation (first ++ [.int 4])] strict
        [.quotation [.int 3, .symbol "+", .int 4], .int 2] strict ∧
      RunsTo [.quotation (first ++ [.int 4])] strict
        (.ok [.quotation [], .int 4, .int 5], strict) ∧
      RunsTo [.quotation [.symbol "call", .int 4], .quotation [.int 3, .symbol "+"], .int 2] strict
        (.ok [.quotation [], .int 4, .int 5], strict) ∧
      FailsAfter 0 [.quotation [.symbol "call"]] strict (.arity "call" 1 0) strict ∧
      FailsAfter 0 [.quotation [.symbol "call", .int 4]] strict (.arity "call" 1 0) strict := by
  intro first strict
  have hreach : Reaches 3 [.quotation first] strict
      [.quotation [.int 3, .symbol "+"], .int 2] strict :=
    .head rfl rfl (.head rfl rfl (.head rfl rfl (.refl _ _)))
  have hfirst : RunsTo [.quotation first] strict (.ok [.quotation [], .int 5], strict) :=
    ⟨5, rfl, fun _ h => by cases h; rfl⟩
  have hcalled : RunsTo [.quotation [.int 3, .symbol "+"], .int 2] strict
      (.ok [.quotation [], .int 5], strict) := ⟨2, rfl, fun _ h => by cases h; rfl⟩
  have hsecond : RunsTo [.quotation [.int 4], .int 5] strict
      (.ok [.quotation [], .int 4, .int 5], strict) := ⟨1, rfl, fun _ h => by cases h; rfl⟩
  have hfail : FailsAfter 0 [.quotation [.symbol "call"]] strict (.arity "call" 1 0) strict :=
    ⟨_, _, .refl _ _, rfl⟩
  have hlaws := run_concatenation strict first [.int 4] []
  have hcall := run_concatenation strict [.symbol "call"] [.int 4]
  exact ⟨hreach, hlaws.1 _ _ _ _ hreach, (hlaws.2.2.1 _).mpr (.both hfirst hsecond),
    ((hcall _).2.2.2 (.symbol "call") _ _ _ _ rfl rfl _).mpr (.both hcalled hsecond),
    hfail, (hcall []).2.1 _ _ _ hfail⟩

end Restack
