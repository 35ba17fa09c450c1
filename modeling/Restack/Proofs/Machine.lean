import Restack.Machine

/-!
# Laws of runs

A run of so many steps is a run of fewer steps followed by the rest of them, and a run
that has halted stays where it is.

## Main definitions

* `StepsTo` — what a step leads to when it succeeds.

## Main results

* `step_iff` — a step succeeds exactly as `StepsTo` says.
* `runWithin_succ_iff` — a run that succeeds is a step and then a run.
* `runWithin_add` — two runs, one after the other.
* `runWithin_halted` — a halted state does not move.
* `runWithin_rest` — what is left of a run that halts.
* `runWithin_push` — cells that are pushed in a row.
-/

namespace Restack

variable {state next : Stack} {env env' : Environment}

/-! ### One step -/

/-- A cell that the environment does not know is pushed. -/
theorem step_push {c : Cell} (h : env.lookup c = none) (code : List Cell) (data : Stack) :
    step (.quotation (c :: code) :: data) env = (.ok (.quotation code :: c :: data), env) := by
  simp only [step, h]

/-- A cell that stands for an instruction has it applied to the data. -/
theorem step_apply {c : Cell} {op : Instruction} (h : env.lookup c = some op) (code : List Cell)
    (data : Stack) :
    step (.quotation (c :: code) :: data) env =
      ((op.apply data env).1.map (splice · code), (op.apply data env).2) := by
  simp only [step, h]
  cases op.apply data env with
  | mk result env₁ => cases result <;> rfl

/-- What a step with code on top leads to when it succeeds. -/
inductive StepsTo (env : Environment) : List Cell → Stack → Stack → Environment → Prop
  /-- Without code, nothing happens. -/
  | halted (data : Stack) : StepsTo env [] data (.quotation [] :: data) env
  /-- A cell that the environment does not know is pushed. -/
  | push {c : Cell} (h : env.lookup c = none) (code : List Cell) (data : Stack) :
    StepsTo env (c :: code) data (.quotation code :: c :: data) env
  /-- An instruction is applied, and what it leaves is spliced with the code. -/
  | apply {c : Cell} {op : Instruction} (h : env.lookup c = some op) {data left : Stack}
    {env' : Environment} (happly : op.apply data env = (.ok left, env')) (code : List Cell) :
    StepsTo env (c :: code) data (splice left code) env'

/-- **A step with code on top succeeds exactly as `StepsTo` says.** -/
theorem step_iff {code : List Cell} {data : Stack} :
    step (.quotation code :: data) env = (.ok next, env') ↔ StepsTo env code data next env' := by
  constructor
  · intro h
    cases code with
    | nil =>
      cases h
      exact .halted data
    | cons c code =>
      cases hc : env.lookup c with
      | none =>
        rw [step_push hc] at h
        cases h
        exact .push hc code data
      | some op =>
        rw [step_apply hc] at h
        cases happly : op.apply data env with
        | mk outcome env₁ =>
          rw [happly] at h
          cases outcome with
          | error e => cases h
          | ok left =>
            cases h
            exact .apply hc happly code
  · intro h
    cases h with
    | halted data => rfl
    | push hc code data => exact step_push hc code data
    | apply hc happly code =>
      rw [step_apply hc, happly]
      rfl

/-- There is code on top after a splice. -/
theorem exists_splice (data : Stack) (code : List Cell) :
    ∃ code' data', splice data code = .quotation code' :: data' := by
  unfold splice
  split <;> exact ⟨_, _, rfl⟩

/-- A state with code on top leads to one with code on top. -/
theorem exists_code_of_step {code : List Cell} {data : Stack}
    (h : step (.quotation code :: data) env = (.ok next, env')) :
    ∃ code' data', next = .quotation code' :: data' := by
  cases step_iff.mp h with
  | halted data => exact ⟨[], data, rfl⟩
  | push hc code data => exact ⟨code, _ :: data, rfl⟩
  | apply hc happly code => exact exists_splice _ code

/-! ### Runs -/

theorem runWithin_halted (n : Nat) (env : Environment) (h : isHalted state = true) :
    runWithin n state env = (.ok state, env) := by
  cases n with
  | zero => rfl
  | succ n => rw [runWithin, if_pos h]

theorem runWithin_succ_ok (n : Nat) (h : isHalted state = false)
    (hstep : step state env = (.ok next, env')) :
    runWithin (n + 1) state env = runWithin n next env' := by
  rw [runWithin, if_neg (by simp [h]), hstep]

theorem runWithin_succ_error {e : EngineError} (n : Nat) (h : isHalted state = false)
    (hstep : step state env = (.error e, env')) :
    runWithin (n + 1) state env = (.error e, env') := by
  rw [runWithin, if_neg (by simp [h]), hstep]

/-- A run that succeeds is a step that succeeds and a run from there. A halted state is its own
successor, so `runWithin` performs as many steps as it is given. -/
theorem runWithin_succ_iff {n : Nat} {last : Stack} {env'' : Environment} :
    runWithin (n + 1) state env = (.ok last, env'') ↔
      ∃ next env', step state env = (.ok next, env') ∧
        runWithin n next env' = (.ok last, env'') := by
  cases hh : isHalted state with
  | true =>
    have hstep : step state env = (.ok state, env) := by
      unfold isHalted at hh
      split at hh
      · rfl
      · cases hh
    rw [runWithin_halted _ _ hh, hstep]
    constructor
    · intro h
      exact ⟨state, env, rfl, by rw [runWithin_halted _ _ hh, h]⟩
    · rintro ⟨_, _, hsame, h⟩
      cases hsame
      rwa [runWithin_halted _ _ hh] at h
  | false =>
    cases hs : step state env with
    | mk result env₁ =>
      cases result with
      | error e =>
        rw [runWithin_succ_error n hh hs]
        constructor
        · intro h
          cases h
        · rintro ⟨_, _, hstep, -⟩
          cases hstep
      | ok s =>
        rw [runWithin_succ_ok n hh hs]
        constructor
        · intro h
          exact ⟨s, env₁, rfl, h⟩
        · rintro ⟨_, _, hstep, h⟩
          cases hstep
          exact h

/-- **A run is a shorter run followed by the rest of it.** -/
theorem runWithin_add (m n : Nat) (h : runWithin m state env = (.ok next, env')) :
    runWithin (m + n) state env = runWithin n next env' := by
  induction m generalizing state env with
  | zero =>
    obtain ⟨rfl, rfl⟩ : state = next ∧ env = env' := by simpa [runWithin] using h
    rw [Nat.zero_add]
  | succ m ih =>
    cases hh : isHalted state with
    | true =>
      rw [runWithin_halted _ _ hh] at h
      obtain ⟨rfl, rfl⟩ : state = next ∧ env = env' := by simpa using h
      rw [runWithin_halted _ _ hh, runWithin_halted _ _ hh]
    | false =>
      rw [Nat.succ_add]
      cases hs : step state env with
      | mk r env₁ =>
        cases r with
        | error e =>
          rw [runWithin_succ_error _ hh hs] at h
          cases h
        | ok s =>
          rw [runWithin_succ_ok _ hh hs] at h ⊢
          exact ih h

/-- A run that halts within some steps ends in the same state within more of them. -/
theorem runWithin_of_le {m n : Nat} (h : runWithin m state env = (.ok next, env'))
    (hhalt : isHalted next = true) (hle : m ≤ n) : runWithin n state env = (.ok next, env') := by
  obtain ⟨k, rfl⟩ := Nat.exists_eq_add_of_le hle
  rw [runWithin_add m k h, runWithin_halted k _ hhalt]

/-- A run that halts within some steps halts within the rest of them from any state it reaches. -/
theorem runWithin_rest {m k : Nat} {last : Stack} {env'' : Environment}
    (h : runWithin m state env = (.ok last, env'')) (hlast : isHalted last = true)
    (hk : runWithin k state env = (.ok next, env')) :
    runWithin (m - k) next env' = (.ok last, env'') := by
  by_cases hle : k ≤ m
  · rw [← runWithin_add k (m - k) hk, Nat.add_sub_cancel' hle, h]
  · -- the run has halted before it comes to `next`
    have hend := runWithin_of_le h hlast (Nat.le_of_not_le hle)
    rw [hk] at hend
    cases hend
    exact runWithin_halted _ _ hlast

/-- A run that fails within some steps fails in the same way within more of them. -/
theorem runWithin_add_error (m n : Nat) {e : EngineError}
    (h : runWithin m state env = (.error e, env')) :
    runWithin (m + n) state env = (.error e, env') := by
  induction m generalizing state env with
  | zero => cases h
  | succ m ih =>
    cases hh : isHalted state with
    | true =>
      rw [runWithin_halted _ _ hh] at h
      cases h
    | false =>
      rw [Nat.succ_add]
      cases hs : step state env with
      | mk r env₁ =>
        cases r with
        | error e' =>
          rw [runWithin_succ_error _ hh hs] at h ⊢
          exact h
        | ok s =>
          rw [runWithin_succ_ok _ hh hs] at h ⊢
          exact ih h

/-- A run that succeeds passes through a state after each smaller number of steps. -/
theorem exists_runWithin_of_le {k n : Nat} (h : runWithin n state env = (.ok next, env'))
    (hle : k ≤ n) : ∃ mid env₁, runWithin k state env = (.ok mid, env₁) := by
  obtain ⟨m, rfl⟩ := Nat.exists_eq_add_of_le hle
  cases hk : runWithin k state env with
  | mk outcome env₁ =>
    cases outcome with
    | ok mid => exact ⟨mid, env₁, rfl⟩
    | error e =>
      rw [runWithin_add_error k m hk] at h
      cases h

/-- The first step of a run that halts later on. -/
theorem runWithin_tail {n : Nat} {last : Stack} {env'' : Environment}
    (hhalt : isHalted state = false) (hstep : step state env = (.ok next, env'))
    (hrun : runWithin n state env = (.ok last, env'')) (hlast : isHalted last = true) :
    ∃ m, n = m + 1 ∧ runWithin m next env' = (.ok last, env'') := by
  cases n with
  | zero =>
    obtain ⟨rfl, -⟩ : state = last ∧ env = env'' := by simpa [runWithin] using hrun
    rw [hhalt] at hlast
    cases hlast
  | succ m =>
    rw [runWithin_succ_ok _ hhalt hstep] at hrun
    exact ⟨m, rfl, hrun⟩

/-- Cells that the environment does not know are pushed one after the other. -/
theorem runWithin_push {cells : List Cell}
    (h : ∀ c ∈ cells, env.lookup c = none) (code : List Cell) (data : Stack) :
    runWithin cells.length (.quotation (cells ++ code) :: data) env =
      (.ok (.quotation code :: (cells.reverse ++ data)), env) := by
  induction cells generalizing data with
  | nil => rfl
  | cons c cells ih =>
    have hstep := step_push (h c List.mem_cons_self) (cells ++ code) data
    rw [List.length_cons, List.cons_append, runWithin_succ_ok _ rfl hstep,
      ih fun d hd => h d (List.mem_cons_of_mem c hd)]
    simp

end Restack
