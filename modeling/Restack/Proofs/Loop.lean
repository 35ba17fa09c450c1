import Restack.Proofs.Concatenation

/-!
# Loops

`while` does not loop. It takes a condition and a body and leaves code for one round: the
condition, and a choice between nothing and the body with the whole loop behind it. So a round
is a piece of the run in which the machine is busy with the condition, with the choice and with
the body in turn, and at its end the same loop stands before the same code, over other data and
in an environment that may know other names.

The loop itself is described without the machine's code: run the condition, look at the truth
value on top, and run the body if it is true. That `while` and `if` are still the built-in words
when they are met has to be asked for, because the condition and the body may assign to any name.

## Main definitions

* `HaltsWith`, `FailsWith` — what code does when it is run on its own.
* `Rounds` — rounds of a loop.
* `LoopWordsHold` — `while` and `if` are the built-in words wherever the loop meets them.

## Main results

* `exists_reaches_round` — the machine performs one round.
* `Rounds.exists_reaches` — and any number of them.
* `while_computes_loop` — how the run of a loop goes on after its last round.
-/

namespace Restack

variable {k : Nat} {env env₁ env₂ env' : Environment} {e : EngineError}
  {code cond body : List Cell} {data data₁ data₂ data' : Stack}

/-! ### Code that is run on its own -/

/-- Code that is run over the data halts and leaves the other data. -/
def HaltsWith (code : List Cell) (data : Stack) (env : Environment) (data' : Stack)
    (env' : Environment) : Prop :=
  RunsTo (.quotation code :: data) env (.ok (.quotation [] :: data'), env')

/-- Code that is run over the data fails. -/
def FailsWith (code : List Cell) (data : Stack) (env : Environment) (e : EngineError)
    (env' : Environment) : Prop :=
  RunsTo (.quotation code :: data) env (.error e, env')

/-- Code that halts comes to the code behind it. -/
theorem HaltsWith.exists_reaches (h : HaltsWith code data env data' env') (later : List Cell) :
    ∃ n, Reaches n (.quotation (code ++ later) :: data) env (.quotation later :: data') env' := by
  obtain ⟨n, hrun, -⟩ := h
  obtain ⟨m, hreach⟩ := Restack.exists_reaches hrun
  exact ⟨m, hreach.followedBy later⟩

/-- Code that fails does so before the code behind it. -/
theorem FailsWith.exists_failsAfter (h : FailsWith code data env e env') (later : List Cell) :
    ∃ n, FailsAfter n (.quotation (code ++ later) :: data) env e env' := by
  obtain ⟨n, hrun, -⟩ := h
  obtain ⟨m, hfail⟩ := Restack.exists_failsAfter hrun
  exact ⟨m, hfail.followedBy later⟩

/-! ### Loops without the machine -/

/-- So many rounds of a loop lead from one stack of data and environment to another: in each, the
condition leaves true, and the body is run on what is beneath. -/
inductive Rounds (cond body : List Cell) :
    Nat → Stack → Environment → Stack → Environment → Prop
  /-- No round at all. -/
  | none (data : Stack) (env : Environment) : Rounds cond body 0 data env data env
  /-- One round, and then the others. -/
  | more {k : Nat} {data data₁ data₂ data' : Stack} {env env₁ env₂ env' : Environment}
    (hcond : HaltsWith cond data env (.bool true :: data₁) env₁)
    (hbody : HaltsWith body data₁ env₁ data₂ env₂)
    (hrest : Rounds cond body k data₂ env₂ data' env') :
    Rounds cond body (k + 1) data env data' env'

/-- `while` is the built-in word at the start of every round, and `if` is after the condition. -/
def LoopWordsHold (cond body : List Cell) (data : Stack) (env : Environment) : Prop :=
  ∀ k data₁ env₁, Rounds cond body k data env data₁ env₁ →
    env₁.resolve? "while" = some (.control .loop) ∧
      ∀ data₂ env₂, HaltsWith cond data₁ env₁ data₂ env₂ →
        env₂.resolve? "if" = some (.control .branch)

/-- The words hold from the next round on. -/
theorem LoopWordsHold.rest (h : LoopWordsHold cond body data env)
    (hcond : HaltsWith cond data env (.bool true :: data₁) env₁)
    (hbody : HaltsWith body data₁ env₁ data₂ env₂) : LoopWordsHold cond body data₂ env₂ :=
  fun k data₃ env₃ hrounds => h (k + 1) data₃ env₃ (.more hcond hbody hrounds)

/-! ### One round of the machine -/

/-- The code of a loop. -/
def loopCall (cond body : List Cell) : List Cell :=
  [.quotation cond, .quotation body, .symbol "while"]

/-- The choice between another round and nothing, which stands behind the condition. -/
def loopChoice (cond body : List Cell) : List Cell :=
  [.quotation (body ++ loopCall cond body), .quotation [], .symbol "if"]

/-- The loop puts its condition and its choice before the code behind it. -/
theorem reaches_unrolled (hwhile : env.resolve? "while" = some (.control .loop))
    (cond body later : List Cell) (data : Stack) :
    Reaches 3 (.quotation (loopCall cond body ++ later) :: data) env
      (.quotation (cond ++ (loopChoice cond body ++ later)) :: data) env := by
  have hlookup : env.lookup (.symbol "while") = some (.control .loop) := hwhile
  have hunroll : step (.quotation (.symbol "while" :: later) :: .quotation body ::
      .quotation cond :: data) env =
        (.ok (.quotation (cond ++ (loopChoice cond body ++ later)) :: data), env) := by
    rw [step_apply hlookup, ← List.append_assoc]
    rfl
  exact .head rfl (step_push rfl _ _) (.head rfl (step_push rfl _ _)
    (.head rfl hunroll (.refl _ _)))

/-- The choice puts its two branches on what the condition has left, and comes to `if`. -/
theorem reaches_branches (cond body later : List Cell) (data : Stack) (env : Environment) :
    Reaches 2 (.quotation (loopChoice cond body ++ later) :: data) env
      (.quotation (.symbol "if" :: later) :: .quotation [] ::
        .quotation (body ++ loopCall cond body) :: data) env :=
  .head rfl (step_push rfl _ _) (.head rfl (step_push rfl _ _) (.refl _ _))

/-- The loop comes to its choice, over what the condition has left. -/
theorem exists_reaches_choice (hwhile : env.resolve? "while" = some (.control .loop))
    (hcond : HaltsWith cond data env data₁ env₁) (body later : List Cell) :
    ∃ n, Reaches n (.quotation (loopCall cond body ++ later) :: data) env
      (.quotation (.symbol "if" :: later) :: .quotation [] ::
        .quotation (body ++ loopCall cond body) :: data₁) env₁ := by
  obtain ⟨n, hreach⟩ := hcond.exists_reaches (loopChoice cond body ++ later)
  exact ⟨_, (reaches_unrolled hwhile cond body later data).trans
    (hreach.trans (reaches_branches cond body later data₁ env₁))⟩

/-- `if` asks for a truth value under the two branches. -/
theorem step_if (hif : env.resolve? "if" = some (.control .branch)) (later : List Cell)
    (data : Stack) : step (.quotation (.symbol "if" :: later) :: data) env =
      ((branch data).map (splice · later), env) := by
  have hlookup : env.lookup (.symbol "if") = some (.control .branch) := hif
  rw [step_apply hlookup]
  rfl

theorem branch_mismatch {c otherwise chosen : Cell} (hc : ∀ truth, c ≠ .bool truth) :
    branch (otherwise :: chosen :: c :: data) = .error (.typeMismatch "if" .bool c) := by
  cases c with
  | bool truth => exact absurd rfl (hc truth)
  | _ => rfl

/-- After a condition that leaves true, the body is run with the loop behind it. -/
theorem exists_reaches_body (hwhile : env.resolve? "while" = some (.control .loop))
    (hcond : HaltsWith cond data env (.bool true :: data₁) env₁)
    (hif : env₁.resolve? "if" = some (.control .branch)) (body later : List Cell) :
    ∃ n, Reaches n (.quotation (loopCall cond body ++ later) :: data) env
      (.quotation (body ++ (loopCall cond body ++ later)) :: data₁) env₁ := by
  obtain ⟨n, hreach⟩ := exists_reaches_choice hwhile hcond body later
  have hchosen := step_if hif later (.quotation [] :: .quotation (body ++ loopCall cond body) ::
    .bool true :: data₁)
  rw [← List.append_assoc]
  exact ⟨n + 1, hreach.trans (.head rfl hchosen (.refl _ _))⟩

/-- **The machine performs one round**: the same loop is reached again, over the data that the body
has left and in its environment. -/
theorem exists_reaches_round (hwhile : env.resolve? "while" = some (.control .loop))
    (hcond : HaltsWith cond data env (.bool true :: data₁) env₁)
    (hif : env₁.resolve? "if" = some (.control .branch))
    (hbody : HaltsWith body data₁ env₁ data₂ env₂) (later : List Cell) :
    ∃ n, Reaches n (.quotation (loopCall cond body ++ later) :: data) env
      (.quotation (loopCall cond body ++ later) :: data₂) env₂ := by
  obtain ⟨m, hfirst⟩ := exists_reaches_body hwhile hcond hif body later
  obtain ⟨n, hsecond⟩ := hbody.exists_reaches (loopCall cond body ++ later)
  exact ⟨m + n, hfirst.trans hsecond⟩

/-! ### Any number of rounds -/

/-- **The machine performs any number of rounds.** -/
theorem Rounds.exists_reaches (h : Rounds cond body k data env data' env')
    (hwords : LoopWordsHold cond body data env) (later : List Cell) :
    ∃ n, Reaches n (.quotation (loopCall cond body ++ later) :: data) env
      (.quotation (loopCall cond body ++ later) :: data') env' := by
  induction h with
  | none data env => exact ⟨0, .refl _ _⟩
  | more hcond hbody _ ih =>
    obtain ⟨hwhile, hif⟩ := hwords 0 _ _ (.none _ _)
    obtain ⟨m, hround⟩ := exists_reaches_round hwhile hcond (hif _ _ hcond) hbody later
    obtain ⟨n, hrest⟩ := ih (hwords.rest hcond hbody)
    exact ⟨m + n, hround.trans hrest⟩

/-- **`while` computes the loop.** Take a condition, a body and the code behind the loop, and let
`while` and `if` be the built-in words wherever the loop meets them. After any number of rounds:

* if the condition leaves false, the run comes to the code behind the loop, over the data beneath
  the truth value;
* if the condition fails, the run fails in the same way;
* if the condition leaves true and the body fails, the run fails in the same way;
* if the condition leaves something other than a truth value on top, the run fails with a type
  mismatch; and if it leaves nothing at all, `if` lacks an operand. -/
theorem while_computes_loop (hwords : LoopWordsHold cond body data env)
    (hrounds : Rounds cond body k data env data₁ env₁) (later : List Cell) :
    (∀ data' env', HaltsWith cond data₁ env₁ (.bool false :: data') env' →
      ∃ n, Reaches n (.quotation (loopCall cond body ++ later) :: data) env
        (.quotation later :: data') env') ∧
    (∀ e env', FailsWith cond data₁ env₁ e env' →
      ∃ n, FailsAfter n (.quotation (loopCall cond body ++ later) :: data) env e env') ∧
    (∀ data₂ env₂ e env', HaltsWith cond data₁ env₁ (.bool true :: data₂) env₂ →
      FailsWith body data₂ env₂ e env' →
        ∃ n, FailsAfter n (.quotation (loopCall cond body ++ later) :: data) env e env') ∧
    (∀ c data₂ env₂, (∀ truth, c ≠ .bool truth) → HaltsWith cond data₁ env₁ (c :: data₂) env₂ →
      ∃ n, FailsAfter n (.quotation (loopCall cond body ++ later) :: data) env
        (.typeMismatch "if" .bool c) env₂) ∧
    (∀ env₂, HaltsWith cond data₁ env₁ [] env₂ →
      ∃ n, FailsAfter n (.quotation (loopCall cond body ++ later) :: data) env
        (.arity "if" 3 2) env₂) := by
  obtain ⟨m, hreach⟩ := hrounds.exists_reaches hwords later
  obtain ⟨hwhile, hif⟩ := hwords k data₁ env₁ hrounds
  refine ⟨fun data' env' hcond => ?_, fun e env' hcond => ?_,
    fun data₂ env₂ e env' hcond hbody => ?_, fun c data₂ env₂ hc hcond => ?_, fun env₂ hcond => ?_⟩
  · obtain ⟨n, hchoice⟩ := exists_reaches_choice hwhile hcond body later
    have hchosen := step_if (hif _ _ hcond) later (.quotation [] ::
      .quotation (body ++ loopCall cond body) :: .bool false :: data')
    exact ⟨_, hreach.trans (hchoice.trans (.head rfl hchosen (.refl _ _)))⟩
  · obtain ⟨n, hfail⟩ := hcond.exists_failsAfter (loopChoice cond body ++ later)
    exact ⟨_, hreach.failsAfter ((reaches_unrolled hwhile cond body later data₁).failsAfter hfail)⟩
  · obtain ⟨n, hstart⟩ := exists_reaches_body hwhile hcond (hif _ _ hcond) body later
    obtain ⟨l, hfail⟩ := hbody.exists_failsAfter (loopCall cond body ++ later)
    exact ⟨_, hreach.failsAfter (hstart.failsAfter hfail)⟩
  · obtain ⟨n, hchoice⟩ := exists_reaches_choice hwhile hcond body later
    have hmismatch := step_if (hif _ _ hcond) later (.quotation [] ::
      .quotation (body ++ loopCall cond body) :: c :: data₂)
    rw [branch_mismatch hc] at hmismatch
    exact ⟨_, hreach.failsAfter ⟨_, _, hchoice, hmismatch⟩⟩
  · obtain ⟨n, hchoice⟩ := exists_reaches_choice hwhile hcond body later
    have hlacking := step_if (hif _ _ hcond) later [.quotation [],
      .quotation (body ++ loopCall cond body)]
    exact ⟨_, hreach.failsAfter ⟨_, _, hchoice, hlacking⟩⟩

/-- The theorem at `0 [dup 1 <] [1 + dup "n" !] while n`: one round counts to one and assigns to
`n`, and the loop stops before the `n` behind it. -/
theorem while_computes_loop_counting :
    let cond : List Cell := [.symbol "dup", .int 1, .symbol "<"]
    let body : List Cell := [.int 1, .symbol "+", .symbol "dup", .text "n", .symbol "!"]
    let strict := Mode.strict.environment
    let counted := strict.define "n" (.defined "n" (.int 1))
    LoopWordsHold cond body [.int 0] strict ∧
      Rounds cond body 1 [.int 0] strict [.int 1] counted ∧
      ∃ n, Reaches n [.quotation (loopCall cond body ++ [.symbol "n"]), .int 0] strict
        [.quotation [.symbol "n"], .int 1] counted := by
  intro cond body strict counted
  have hfirst : HaltsWith cond [.int 0] strict [.bool true, .int 0] strict :=
    ⟨3, rfl, fun _ h => by cases h; rfl⟩
  have hbody : HaltsWith body [.int 0] strict [.int 1] counted :=
    ⟨5, rfl, fun _ h => by cases h; rfl⟩
  have hlast : HaltsWith cond [.int 1] counted [.bool false, .int 1] counted :=
    ⟨3, rfl, fun _ h => by cases h; rfl⟩
  have hwords : LoopWordsHold cond body [.int 0] strict := by
    intro k data₁ env₁ hrounds
    cases hrounds with
    | none =>
      refine ⟨rfl, fun data₂ env₂ hcond => ?_⟩
      cases hcond.unique hfirst
      rfl
    | more hcond hbody' hrest =>
      cases hcond.unique hfirst
      cases hbody'.unique hbody
      cases hrest with
      | none =>
        refine ⟨rfl, fun data₂ env₂ hcond => ?_⟩
        cases hcond.unique hlast
        rfl
      | more hcond => cases hcond.unique hlast
  have hrounds : Rounds cond body 1 [.int 0] strict [.int 1] counted :=
    .more hfirst hbody (.none _ _)
  exact ⟨hwords, hrounds, (while_computes_loop hwords hrounds [.symbol "n"]).1 _ _ hlast⟩

end Restack
