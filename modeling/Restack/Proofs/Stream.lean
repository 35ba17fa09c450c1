import Restack.Proofs.Machine
import Restack.Session

/-!
# Streams and runs

A stream performs the step from a state before it hands that state out, and counts its budget
down; a run counts the steps up. Both perform the same steps in the same environments, so
the stream hands out the states that runs of `0`, `1`, `2`, … steps end in, and its last item
and the environment it leaves are those of the run.

## Main definitions

* `HasEnded` — a run has halted or failed.

## Main results

* `run_induction` — induction along a run with a budget.
* `items_eq_streamWithin` — a walk hands out what `streamWithin` lists.
* `getElem?_streamWithin`, `succ_lt_length_iff` — what the items are, and when another follows.
* `getLast?_streamWithin`, `snd_streamWithin` — how a stream ends.
* `runWithin_sum` — two runs in a row, as one.
* `stream_agrees_with_run` — a stream against the run with the same budget.
-/

namespace Restack

variable {state next : Stack} {env env' : Environment} {n i : Nat}

/-- To prove a fact of every run with a budget, prove it where the budget is spent, where the state
is halted, where the first step fails, and of a run whose rest has it after the first step. -/
theorem run_induction {motive : Nat → Stack → Environment → Prop}
    (spent : ∀ state env, motive 0 state env)
    (halted : ∀ n state env, isHalted state = true → motive (n + 1) state env)
    (failed : ∀ n state env e env', isHalted state = false → step state env = (.error e, env') →
      motive (n + 1) state env)
    (goesOn : ∀ n state env next env', isHalted state = false → step state env = (.ok next, env') →
      motive n next env' → motive (n + 1) state env)
    (n : Nat) (state : Stack) (env : Environment) : motive n state env := by
  induction n generalizing state env with
  | zero => exact spent state env
  | succ n ih =>
    cases hhalt : isHalted state with
    | true => exact halted n state env hhalt
    | false =>
      cases hstep : step state env with
      | mk outcome env' =>
        cases outcome with
        | ok next => exact goesOn n state env next env' hhalt hstep (ih next env')
        | error e => exact failed n state env e env' hhalt hstep

/-! ### The items of a stream -/

theorem streamWithin_halted (n : Nat) (env : Environment) (h : isHalted state = true) :
    streamWithin n state env = ([.ok state], env) := by
  cases n with
  | zero => rfl
  | succ n => rw [streamWithin, if_pos h]

theorem streamWithin_succ_ok (n : Nat) (h : isHalted state = false)
    (hstep : step state env = (.ok next, env')) :
    streamWithin (n + 1) state env =
      (.ok state :: (streamWithin n next env').1, (streamWithin n next env').2) := by
  rw [streamWithin, if_neg (by simp [h]), hstep]

theorem streamWithin_succ_error {e : EngineError} (n : Nat) (h : isHalted state = false)
    (hstep : step state env = (.error e, env')) :
    streamWithin (n + 1) state env = ([.ok state, .error e], env') := by
  rw [streamWithin, if_neg (by simp [h]), hstep]

/-- Nothing comes after the end of a walk. -/
theorem items_none (env : Environment) (n : Nat) : Walk.items ⟨none, env, n⟩ = ([], env) := by
  rw [Walk.items]
  rfl

/-- A fault is the last item of a walk. -/
theorem items_error (e : EngineError) (env : Environment) (n : Nat) :
    Walk.items ⟨some (.error e), env, n⟩ = ([.error e], env) := by
  rw [Walk.items]
  simp only [Walk.next?, items_none]

/-- **A walk lists the states of a run**, though it is always one step ahead. -/
theorem items_eq_streamWithin (n : Nat) (state : Stack) (env : Environment) :
    Walk.items ⟨some (.ok state), env, n⟩ = streamWithin n state env := by
  induction n, state, env using run_induction with
  | spent state env =>
    have hleave : Walk.leave ⟨some (.ok state), env, 0⟩ state = ⟨none, env, 0⟩ := by
      simp [Walk.leave]
    rw [Walk.items]
    simp only [Walk.next?, hleave, items_none]
    rfl
  | halted n state env hhalt =>
    rw [Walk.items, streamWithin_halted _ _ hhalt]
    simp only [Walk.next?, Walk.leave, hhalt, items_none]
  | failed n state env e env' hhalt hstep =>
    rw [Walk.items, streamWithin_succ_error n hhalt hstep]
    simp only [Walk.next?, Walk.leave, hhalt, hstep, items_error]
  | goesOn n state env next env' hhalt hstep ih =>
    rw [Walk.items, streamWithin_succ_ok n hhalt hstep, ← ih]
    simp only [Walk.next?, Walk.leave, hhalt, hstep]

theorem stream_eq (budget : Option Nat) (state : Stack) (env : Environment) :
    stream budget state env = streamWithin (stepLimit budget) state env :=
  items_eq_streamWithin _ state env

/-- The input comes first. -/
theorem exists_streamWithin_cons (n : Nat) (state : Stack) (env : Environment) :
    ∃ later, (streamWithin n state env).1 = .ok state :: later := by
  induction n, state, env using run_induction with
  | spent state env => exact ⟨[], rfl⟩
  | halted n state env hhalt => exact ⟨[], by rw [streamWithin_halted _ _ hhalt]⟩
  | failed n state env e env' hhalt hstep =>
    exact ⟨[.error e], by rw [streamWithin_succ_error n hhalt hstep]⟩
  | goesOn n state env next env' hhalt hstep ih =>
    exact ⟨_, by rw [streamWithin_succ_ok n hhalt hstep]⟩

/-- The item after `i` others is what a run of `i` steps ends in. -/
theorem getElem?_streamWithin (hi : i < (streamWithin n state env).1.length) :
    (streamWithin n state env).1[i]? = some (runWithin i state env).1 := by
  induction n, state, env using run_induction generalizing i with
  | spent state env =>
    obtain rfl : i = 0 := by simpa [streamWithin] using hi
    rfl
  | halted n state env hhalt =>
    rw [streamWithin_halted _ _ hhalt] at hi ⊢
    obtain rfl : i = 0 := by simpa using hi
    rfl
  | failed n state env e env' hhalt hstep =>
    rw [streamWithin_succ_error n hhalt hstep] at hi ⊢
    cases i with
    | zero => rfl
    | succ i =>
      obtain rfl : i = 0 := by
        simp only [List.length_cons, List.length_nil] at hi
        omega
      rw [runWithin_succ_error 0 hhalt hstep]
      rfl
  | goesOn n state env next env' hhalt hstep ih =>
    rw [streamWithin_succ_ok n hhalt hstep] at hi ⊢
    cases i with
    | zero => rfl
    | succ i =>
      rw [List.getElem?_cons_succ, runWithin_succ_ok i hhalt hstep]
      exact ih (Nat.lt_of_succ_lt_succ hi)

/-- **Another item follows a state exactly when it is not halted and there is budget left.** -/
theorem succ_lt_length_iff {s : Stack} (hs : (streamWithin n state env).1[i]? = some (.ok s)) :
    i + 1 < (streamWithin n state env).1.length ↔ isHalted s = false ∧ i < n := by
  induction n, state, env using run_induction generalizing i with
  | spent state env =>
    have hlen : (streamWithin 0 state env).1.length = 1 := rfl
    omega
  | halted n state env hhalt =>
    rw [streamWithin_halted _ _ hhalt] at hs ⊢
    cases i with
    | zero =>
      cases hs
      simp [hhalt]
    | succ i => cases hs
  | failed n state env e env' hhalt hstep =>
    rw [streamWithin_succ_error n hhalt hstep] at hs ⊢
    cases i with
    | zero =>
      cases hs
      simp [hhalt]
    | succ i => cases i <;> cases hs
  | goesOn n state env next env' hhalt hstep ih =>
    rw [streamWithin_succ_ok n hhalt hstep] at hs ⊢
    cases i with
    | zero =>
      cases hs
      obtain ⟨later, hlater⟩ := exists_streamWithin_cons n next env'
      simp [hlater, hhalt]
    | succ i =>
      have hnext := ih hs
      rw [List.length_cons, Nat.add_lt_add_iff_right, Nat.add_lt_add_iff_right]
      exact hnext

/-- A fault is the last item. -/
theorem succ_eq_length_of_error {e : EngineError}
    (he : (streamWithin n state env).1[i]? = some (.error e)) :
    i + 1 = (streamWithin n state env).1.length := by
  induction n, state, env using run_induction generalizing i with
  | spent state env =>
    cases i with
    | zero => cases he
    | succ i => cases he
  | halted n state env hhalt =>
    rw [streamWithin_halted _ _ hhalt] at he
    cases i with
    | zero => cases he
    | succ i => cases he
  | failed n state env e' env' hhalt hstep =>
    rw [streamWithin_succ_error n hhalt hstep] at he ⊢
    cases i with
    | zero => cases he
    | succ i =>
      cases i with
      | zero => rfl
      | succ i => cases he
  | goesOn n state env next env' hhalt hstep ih =>
    rw [streamWithin_succ_ok n hhalt hstep] at he ⊢
    cases i with
    | zero => cases he
    | succ i => rw [List.length_cons, ih he]

/-! ### How a stream ends -/

/-- A stream leaves the environment that the run leaves. -/
theorem snd_streamWithin (n : Nat) (state : Stack) (env : Environment) :
    (streamWithin n state env).2 = (runWithin n state env).2 := by
  induction n, state, env using run_induction with
  | spent state env => rfl
  | halted n state env hhalt => rw [streamWithin_halted _ _ hhalt, runWithin_halted _ _ hhalt]
  | failed n state env e env' hhalt hstep =>
    rw [streamWithin_succ_error n hhalt hstep, runWithin_succ_error n hhalt hstep]
  | goesOn n state env next env' hhalt hstep ih =>
    rw [streamWithin_succ_ok n hhalt hstep, runWithin_succ_ok n hhalt hstep, ih]

/-- **The last item of a stream is the result of the run.** -/
theorem getLast?_streamWithin (n : Nat) (state : Stack) (env : Environment) :
    (streamWithin n state env).1.getLast? = some (runWithin n state env).1 := by
  induction n, state, env using run_induction with
  | spent state env => rfl
  | halted n state env hhalt =>
    rw [streamWithin_halted _ _ hhalt, runWithin_halted _ _ hhalt]
    rfl
  | failed n state env e env' hhalt hstep =>
    rw [streamWithin_succ_error n hhalt hstep, runWithin_succ_error n hhalt hstep]
    rfl
  | goesOn n state env next env' hhalt hstep ih =>
    rw [streamWithin_succ_ok n hhalt hstep, runWithin_succ_ok n hhalt hstep, List.getLast?_cons, ih]
    rfl

/-- What has halted, or failed, has come to its end. -/
def HasEnded : Except EngineError Stack → Prop
  | .ok state => isHalted state = true
  | .error _ => True

/-- A run that has come to its end takes the same states under every greater budget. -/
theorem streamWithin_of_le {m : Nat} (h : HasEnded (runWithin m state env).1) (hle : m ≤ n) :
    streamWithin n state env = streamWithin m state env := by
  induction m, state, env using run_induction generalizing n with
  | spent state env =>
    have hhalt : isHalted state = true := h
    rw [streamWithin_halted n env hhalt, streamWithin_halted 0 env hhalt]
  | halted m state env hhalt =>
    rw [streamWithin_halted _ env hhalt, streamWithin_halted _ env hhalt]
  | failed m state env e env' hhalt hstep =>
    obtain ⟨n, rfl⟩ : ∃ k, n = k + 1 := ⟨n - 1, by omega⟩
    rw [streamWithin_succ_error n hhalt hstep, streamWithin_succ_error m hhalt hstep]
  | goesOn m state env next env' hhalt hstep ih =>
    obtain ⟨n, rfl⟩ : ∃ k, n = k + 1 := ⟨n - 1, by omega⟩
    rw [runWithin_succ_ok m hhalt hstep] at h
    rw [streamWithin_succ_ok n hhalt hstep, streamWithin_succ_ok m hhalt hstep,
      ih h (Nat.le_of_succ_le_succ hle)]

/-- Two runs in a row are one run with the sum of their budgets; a run that failed stays failed. -/
theorem runWithin_sum (m k : Nat) (state : Stack) (env : Environment) :
    runWithin (m + k) state env =
      match runWithin m state env with
      | (.ok mid, env') => runWithin k mid env'
      | (.error e, env') => (.error e, env') := by
  cases hm : runWithin m state env with
  | mk outcome env' =>
    cases outcome with
    | ok mid => exact runWithin_add m k hm
    | error e => exact runWithin_add_error m k hm

/-- One step more. -/
theorem runWithin_succ_of_ok {s : Stack} (h : runWithin i state env = (.ok s, env'))
    (hhalt : isHalted s = false) : runWithin (i + 1) state env = step s env' := by
  rw [runWithin_add i 1 h]
  cases hstep : step s env' with
  | mk outcome env'' =>
    cases outcome with
    | ok next => rw [runWithin_succ_ok 0 hhalt hstep, runWithin]
    | error e => exact runWithin_succ_error 0 hhalt hstep

/-- A run that has come to its end is the same under every greater budget. -/
theorem runWithin_of_hasEnded {m : Nat} (h : HasEnded (runWithin m state env).1) (hle : m ≤ n) :
    runWithin n state env = runWithin m state env := by
  have hsame := streamWithin_of_le h hle
  have hlast := getLast?_streamWithin n state env
  rw [hsame, getLast?_streamWithin] at hlast
  refine Prod.ext (Option.some.inj hlast).symm ?_
  rw [← snd_streamWithin, hsame, snd_streamWithin]

/-! ### Traces of a session -/

/-- The states of a stream are collected unless it ends in a fault, and the last of them is the one
that the run ends in. -/
theorem collect_streamWithin (n : Nat) (state : Stack) (env : Environment) :
    (Session.collect (streamWithin n state env).1).map List.getLast? =
      (runWithin n state env).1.map some := by
  induction n, state, env using run_induction with
  | spent state env => rfl
  | halted n state env hhalt =>
    rw [streamWithin_halted _ _ hhalt, runWithin_halted _ _ hhalt]
    rfl
  | failed n state env e env' hhalt hstep =>
    rw [streamWithin_succ_error n hhalt hstep, runWithin_succ_error n hhalt hstep]
    rfl
  | goesOn n state env next env' hhalt hstep ih =>
    rw [streamWithin_succ_ok n hhalt hstep, runWithin_succ_ok n hhalt hstep, ← ih,
      Session.collect]
    cases hlater : Session.collect (streamWithin n next env').1 with
    | error e => rfl
    | ok states =>
      -- the rest has a last state, so it does not matter what stands before it
      rw [hlater] at ih
      cases hrun : (runWithin n next env').1 with
      | error e =>
        rw [hrun] at ih
        cases ih
      | ok last =>
        rw [hrun] at ih
        have hlast : states.getLast? = some last := Except.ok.inj ih
        simp only [Except.map, List.getLast?_cons, hlast, Option.getD_some]

/-- A trace ends in what the evaluation of the same text comes to, and leaves the session as the
evaluation leaves it. -/
theorem trace_ends_as_eval (session : Session) (source : String) :
    (session.trace source).2 = (session.eval source).2 ∧
      (session.trace source).1.map List.getLast? = (session.eval source).1.map some := by
  rw [Session.trace, Session.eval]
  cases programState source with
  | error e => exact ⟨rfl, rfl⟩
  | ok state =>
    have hlast := collect_streamWithin (stepLimit session.settings.maxSteps) state session.env
    have henv := snd_streamWithin (stepLimit session.settings.maxSteps) state session.env
    simp only [Session.evalState, run, stream_eq]
    cases hrun : runWithin (stepLimit session.settings.maxSteps) state session.env with
    | mk outcome env' =>
      rw [hrun] at hlast henv
      simp only [henv]
      cases hitems : Session.collect (streamWithin (stepLimit session.settings.maxSteps) state
          session.env).1 with
      | error e =>
        rw [hitems] at hlast
        cases outcome with
        | ok last => cases hlast
        | error e' =>
          cases hlast
          exact ⟨rfl, rfl⟩
      | ok states =>
        rw [hitems] at hlast
        cases outcome with
        | error e' => cases hlast
        | ok last => exact ⟨rfl, congrArg Except.ok (Except.ok.inj hlast)⟩

/-! ### Streams against runs -/

/-- **A stream agrees with the run that has the same budget.** The environment it leaves and its
last item are those of the run. It hands out the given state first; a state that it hands out is
followed by another item exactly if it is not halted and the budget allows for one more step, and
that item is what the step leads to, in the environment that the steps before it have left; a fault
is the last item. Where the run ends by itself, both stay the same under every greater budget. Two
runs in a row are one run with the sum of their budgets. And a session's trace of a text ends as the
evaluation of the text does. -/
theorem stream_agrees_with_run (budget : Option Nat) (state : Stack) (env : Environment) :
    let items := (stream budget state env).1
    (stream budget state env).2 = (run budget state env).2 ∧
    items.getLast? = some (run budget state env).1 ∧
    items.head? = some (.ok state) ∧
    (∀ i s, items[i]? = some (.ok s) →
      (i + 1 < items.length ↔ isHalted s = false ∧ i < stepLimit budget) ∧
      (i + 1 < items.length →
        items[i + 1]? = some (step s (run (some i) state env).2).1)) ∧
    (∀ i e, items[i]? = some (.error e) → i + 1 = items.length) ∧
    (∀ greater, HasEnded (run budget state env).1 → stepLimit budget ≤ stepLimit greater →
      stream greater state env = stream budget state env ∧
        run greater state env = run budget state env) ∧
    (∀ m k, run (some (m + k)) state env =
      match run (some m) state env with
      | (.ok mid, env') => run (some k) mid env'
      | (.error e, env') => (.error e, env')) ∧
    ∀ (session : Session) (source : String),
      (session.trace source).2 = (session.eval source).2 ∧
        (session.trace source).1.map List.getLast? = (session.eval source).1.map some := by
  intro items
  have hitems : items = (streamWithin (stepLimit budget) state env).1 := by
    rw [← stream_eq]
  refine ⟨?_, ?_, ?_, ?_, ?_, ?_, ?_, ?_⟩
  · rw [stream_eq, snd_streamWithin, run]
  · rw [hitems, getLast?_streamWithin, run]
  · obtain ⟨later, hlater⟩ := exists_streamWithin_cons (stepLimit budget) state env
    rw [hitems, hlater]
    rfl
  · intro i s hs
    rw [hitems] at hs ⊢
    refine ⟨succ_lt_length_iff hs, fun hi => ?_⟩
    -- both items are ends of runs, of which the second is one step longer
    have hhalt : isHalted s = false := ((succ_lt_length_iff hs).mp hi).1
    rw [getElem?_streamWithin (Nat.lt_of_succ_lt hi)] at hs
    have hrun : runWithin i state env = (.ok s, (runWithin i state env).2) :=
      Prod.ext (Option.some.inj hs) rfl
    rw [getElem?_streamWithin hi, runWithin_succ_of_ok hrun hhalt]
    rfl
  · intro i e he
    rw [hitems] at he ⊢
    exact succ_eq_length_of_error he
  · intro greater hended hle
    rw [stream_eq, stream_eq, streamWithin_of_le hended hle]
    exact ⟨rfl, runWithin_of_hasEnded hended hle⟩
  · exact fun m k => runWithin_sum m k state env
  · exact trace_ends_as_eval

/-- The strict run of `1 "x" ! +` fails in its fourth step, with `x` bound. So does the stream,
after the four states that lead there, with and without a budget. -/
theorem stream_agrees_with_run_failing_sum :
    let code : List Cell := [.int 1, .text "x", .symbol "!", .symbol "+"]
    let strict := Mode.strict.environment
    let streamed := stream (some 6) [.quotation code] strict
    streamed.1.length = 5 ∧ streamed.1.getLast? = some (.error (.arity "+" 2 0)) ∧
      streamed.2 = (run (some 6) [.quotation code] strict).2 ∧ streamed.2.isDefined "x" = true ∧
      streamed.1[3]? = some (.ok [.quotation [.symbol "+"]]) ∧
      stream none [.quotation code] strict = streamed := by
  intro code strict streamed
  have hfail : (run (some 6) [.quotation code] strict).1 = .error (.arity "+" 2 0) := rfl
  have hdefined : (run (some 6) [.quotation code] strict).2.isDefined "x" = true := rfl
  have hassigned : streamed.1[2]? = some (.ok [.quotation (code.drop 2), .text "x", .int 1]) := by
    rw [show streamed = _ from stream_eq ..]
    rfl
  have hlength : streamed.1.length = 5 := by
    rw [show streamed = _ from stream_eq ..]
    rfl
  obtain ⟨henv, hlast, -, hnext, -, hgreater, -⟩ :=
    stream_agrees_with_run (some 6) [.quotation code] strict
  refine ⟨hlength, hlast.trans (congrArg some hfail), henv, henv ▸ hdefined, ?_, ?_⟩
  · rw [(hnext 2 _ hassigned).2 (by rw [hlength]; decide)]
    rfl
  · exact (hgreater none (by rw [hfail]; trivial) (by decide)).1

end Restack
