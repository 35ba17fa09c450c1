import Restack.Proofs.Environment
import Restack.Proofs.Freshening
import Restack.Proofs.Stream

/-!
# What a run changes in its environment

An instruction is handed the whole environment, and may fail after it has worked on it. Still only
two things ever happen to the environment: an assignment that succeeds binds its name in the first
table, and a use of a stack effect draws fresh names. So the tables after a run are those before
it, but for the names that were assigned to in the first one, the operations that are supplied from
outside stay the same, and a step that fails has touched no table at all.

## Main definitions

* `assignmentsWithin` — the assignments that a run makes.
* `Touches` — what an instruction or a step does to the environment.
* `Environment.After` — an environment after some assignments were made in it.

## Main results

* `Instruction.apply_touches`, `step_touches` — one application, and one step.
* `runWithin_after` — a run.
* `run_touches_only_assigned_names` — what a run leaves alone, and what it keeps.
-/

namespace Restack

variable {state : Stack} {env env' env'' : Environment} {outcome : Except EngineError Stack}
  {made later : List Assignment} {name : String}

/-! ### The assignments that are made -/

/-- The assignment that applying an instruction makes, if that succeeds. A check makes the
assignment of what it guards, once every requirement is met. -/
def Instruction.assignment? : Instruction → Stack → Option Assignment
  | .control .assign, data => (assignment data).toOption
  | .control .assignRecorded, data => (assignment data).toOption
  | .checked inputs acceptDeferred inner, data =>
    match examine acceptDeferred inputs data with
    | .accepted popped _ =>
      inner.assignment? (if acceptDeferred then popped.filter fun c => !c.leavesNothing else data)
    | _ => none
  | _, _ => none

/-- The assignment that the next step makes, if it makes one and succeeds. -/
def nextAssignment? (state : Stack) (env : Environment) : Option Assignment :=
  match state with
  | .quotation (c :: _) :: data => (env.lookup c).bind (·.assignment? data)
  | _ => none

/-- The assignments that are made while performing at most `n` steps, in their order. -/
def assignmentsWithin : Nat → Stack → Environment → List Assignment
  | 0, _, _ => []
  | n + 1, state, env =>
    if isHalted state then []
    else
      match step state env with
      | (.ok next, env') => (nextAssignment? state env).toList ++ assignmentsWithin n next env'
      | (.error _, _) => []

/-- What the last assignment to a name makes it stand for. -/
def latest? (made : List Assignment) (name : String) : Option Instruction :=
  (made.reverse.find? (·.name = name)).map fun a => .defined a.name a.value

theorem latest?_append (made later : List Assignment) (name : String) :
    latest? (made ++ later) name = (latest? later name).or (latest? made name) := by
  rw [latest?, List.reverse_append, List.find?_append, Option.map_or]
  rfl

/-- What was never assigned to has no latest assignment. -/
theorem latest?_eq_none (h : ∀ a ∈ made, a.name ≠ name) : latest? made name = none := by
  rw [latest?, Option.map_eq_none_iff, List.find?_eq_none]
  intro a ha
  simpa using h a (List.mem_reverse.mp ha)

/-! ### One application, and one step -/

/-- What an instruction or a step does to the environment `env`, by the assignment that it makes. -/
inductive Touches (env : Environment) :
    Option Assignment → Except EngineError Stack × Environment → Prop
  /-- An assignment is made, and then there is no fault. -/
  | binds (a : Assignment) (data : Stack) : Touches env (some a) (.ok data, a.define env)
  /-- No assignment is made; fresh names may have been drawn, with or without a fault. -/
  | draws (outcome : Except EngineError Stack) (names : NameSource)
    (h : env.names.next ≤ names.next) : Touches env none (outcome, { env with names })

theorem Touches.nothing (env : Environment) (outcome : Except EngineError Stack) :
    Touches env none (outcome, env) :=
  .draws outcome env.names le_rfl

/-- What becomes of the data does not matter. -/
theorem Touches.map {a? : Option Assignment} {result : Except EngineError Stack × Environment}
    (h : Touches env a? result) (f : Stack → Stack) :
    Touches env a? (result.1.map f, result.2) := by
  cases h with
  | binds a data => exact .binds a (f data)
  | draws outcome names h => exact .draws _ names h

/-- A fault comes with no assignment, and with tables that were not touched. -/
theorem Touches.of_error {a? : Option Assignment} {e : EngineError}
    (h : Touches env a? (.error e, env')) : a? = none ∧ env'.tables = env.tables := by
  cases h
  exact ⟨rfl, rfl⟩

theorem restoreOver_eq_map (beneath : Stack) (result : Except EngineError Stack × Environment) :
    restoreOver beneath result = (result.1.map (· ++ beneath), result.2) := by
  obtain ⟨outcome, env⟩ := result
  cases outcome <;> rfl

/-- An assignment touches the environment as it is read off the data. -/
theorem Control.apply_touches (word : Control) (data : Stack) (env : Environment) :
    Touches env ((Instruction.control word).assignment? data) (word.apply data env) := by
  cases word with
  | branch | loop => exact .nothing env _
  | assign | assignRecorded =>
    rw [Instruction.assignment?, Control.apply]
    cases assignment data with
    | ok a => exact .binds a _
    | error e => exact .nothing env _

/-- A use of a stack effect only draws names, also where it fails. -/
theorem applyDeclared_touches (name : String) (s : Signature) (data : Stack) (env : Environment) :
    Touches env none (applyDeclared name s data env) := by
  have hnext : env.names.next ≤ (s.freshen env.names).2.next := by
    rw [s.freshen_names]
    exact Nat.le_add_right _ _
  simp only [applyDeclared]
  split
  · exact .draws _ _ hnext
  · exact .draws _ _ hnext

/-- **Applying an instruction binds the name of its assignment, or draws fresh names.** -/
theorem Instruction.apply_touches : (op : Instruction) → (data : Stack) → (env : Environment) →
    Touches env (op.assignment? data) (op.apply data env)
  | .strict _ _, _, env => .nothing env _
  | .supplied _ _, _, env => .nothing env _
  | .checked inputs acceptDeferred inner, data, env => by
    rw [Instruction.assignment?, Instruction.apply]
    cases examine acceptDeferred inputs data with
    | exhausted => exact .nothing env _
    | rejected popped cell required rest => exact .nothing env _
    | accepted popped rest =>
      cases acceptDeferred with
      | false => exact inner.apply_touches data env
      | true =>
        -- records without a value are put back around what the inner instruction leaves
        dsimp only
        rw [if_pos rfl, if_pos rfl, restoreOver_eq_map]
        exact (inner.apply_touches _ env).map _
  | .recorder _ _ _, _, env => .nothing env _
  | .declared name consumes produces, data, env =>
    applyDeclared_touches name ⟨consumes, produces⟩ data env
  | .defined _ _, _, env => .nothing env _
  | .control word, data, env => word.apply_touches data env

/-- **A step binds the name of its assignment, or draws fresh names.** -/
theorem step_touches (state : Stack) (env : Environment) :
    Touches env (nextAssignment? state env) (step state env) := by
  unfold nextAssignment?
  split
  · rename_i c code data
    cases hlook : env.lookup c with
    | none =>
      rw [step_push hlook]
      exact .nothing env _
    | some op =>
      rw [step_apply hlook]
      exact (op.apply_touches data env).map _
  · rename_i hcode
    unfold step
    split
    · exact .nothing env _
    · exact absurd rfl (hcode _ _ _)
    · exact .nothing env _

/-- **A step that fails leaves all tables as they were.** -/
theorem tables_eq_of_step_error {e : EngineError} (h : step state env = (.error e, env')) :
    env'.tables = env.tables := by
  have htouch := step_touches state env
  rw [h] at htouch
  exact htouch.of_error.2

/-! ### Environments after assignments -/

/-- The table at a depth, empty if there is none. -/
def Environment.table (env : Environment) (depth : Nat) : Table := env.tables.getD depth {}

namespace Environment

/-- A definition goes into the first table. -/
theorem table_define_zero (env : Environment) (name : String) (op : Instruction) :
    (env.define name op).table 0 = (env.table 0).insert name op := by
  obtain ⟨tables, names, supplied⟩ := env
  cases tables <;> rfl

/-- A definition leaves the tables below the first alone. -/
theorem tail_define (env : Environment) (name : String) (op : Instruction) :
    (env.define name op).tables.tail = env.tables.tail := by
  obtain ⟨tables, names, supplied⟩ := env
  cases tables <;> rfl

/-- A definition changes nothing but the tables. -/
theorem define_eq_withTables (env : Environment) (name : String) (op : Instruction) :
    env.define name op = { env with tables := (env.define name op).tables } := by
  obtain ⟨tables, names, supplied⟩ := env
  cases tables <;> rfl

theorem table_succ (env : Environment) (depth : Nat) :
    env.table (depth + 1) = env.tables.tail.getD depth {} := by
  obtain ⟨tables, names, supplied⟩ := env
  cases tables <;> rfl

/-- The second environment is the first after some assignments were made in it. -/
structure After (made : List Assignment) (env env' : Environment) : Prop where
  /-- Below the first, the tables are the same. -/
  below : env'.tables.tail = env.tables.tail
  /-- In the first, a name stands for its latest assignment, or for what it stood for before. -/
  first : ∀ name, (env'.table 0).get? name = (latest? made name).or ((env.table 0).get? name)
  /-- No fresh name is drawn for a second time. -/
  drawn : env.names.next ≤ env'.names.next
  /-- The keys of supplied operations stand for the same. -/
  supplied : env'.supplied = env.supplied

namespace After

theorem refl (env : Environment) : After [] env env := ⟨rfl, fun _ => rfl, le_rfl, rfl⟩

theorem trans (h : After made env env') (h' : After later env' env'') :
    After (made ++ later) env env'' where
  below := h'.below.trans h.below
  first name := by rw [h'.first, h.first, latest?_append, Option.or_assoc]
  drawn := h.drawn.trans h'.drawn
  supplied := h'.supplied.trans h.supplied

/-- A name that was not assigned to has its entry still. -/
theorem get?_of_notAssigned (h : After made env env') (hname : ∀ a ∈ made, a.name ≠ name) :
    (env'.table 0).get? name = (env.table 0).get? name := by
  rw [h.first, latest?_eq_none hname, Option.none_or]

/-- No name is removed from any table. -/
theorem contains_table (h : After made env env') {depth : Nat}
    (hname : (env.table depth).contains name = true) :
    (env'.table depth).contains name = true := by
  cases depth with
  | zero =>
    rw [Table.contains] at hname ⊢
    rw [h.first, Option.isSome_or, hname, Bool.or_true]
  | succ depth => rwa [table_succ, h.below, ← table_succ]

end After

end Environment

/-- What was touched is the environment after the assignment that was made. -/
theorem Touches.after {a? : Option Assignment} (h : Touches env a? (outcome, env')) :
    Environment.After a?.toList env env' := by
  cases h with
  | binds a data =>
    have htables : a.define env = { env with tables := (a.define env).tables } :=
      env.define_eq_withTables _ _
    have hnames : (a.define env).names = env.names := by rw [htables]
    have hsupplied : (a.define env).supplied = env.supplied := by rw [htables]
    refine ⟨env.tail_define _ _, fun name => ?_, hnames ▸ le_rfl, hsupplied⟩
    rw [Assignment.define, env.table_define_zero, Table.get?_insert]
    by_cases hname : name = a.name
    · simp [latest?, hname]
    · simp [latest?, hname, Ne.symm hname]
  | draws outcome names hnext => exact ⟨rfl, fun _ => rfl, hnext, rfl⟩

/-! ### Runs -/

/-- **A run leaves its environment as it is after the assignments that the run made.** -/
theorem runWithin_after (n : Nat) (state : Stack) (env : Environment) :
    Environment.After (assignmentsWithin n state env) env (runWithin n state env).2 := by
  refine run_induction (motive := fun n state env =>
    Environment.After (assignmentsWithin n state env) env (runWithin n state env).2)
    ?spent ?halted ?failed ?goesOn n state env
  case spent =>
    intro state env
    exact .refl env
  case halted =>
    intro n state env hhalt
    rw [assignmentsWithin, if_pos hhalt, runWithin_halted _ _ hhalt]
    exact .refl env
  case failed =>
    intro n state env e env' hhalt hstep
    have htouch := step_touches state env
    rw [hstep] at htouch
    rw [assignmentsWithin, if_neg (by simp [hhalt]), hstep, runWithin_succ_error n hhalt hstep]
    have hafter := htouch.after
    rw [htouch.of_error.1] at hafter
    exact hafter
  case goesOn =>
    intro n state env next env' hhalt hstep ih
    have htouch := step_touches state env
    rw [hstep] at htouch
    rw [assignmentsWithin, if_neg (by simp [hhalt]), hstep, runWithin_succ_ok n hhalt hstep]
    exact htouch.after.trans ih

/-- **Runs only touch what they define.** However a run ends, every table below the first is the one
from before the run; in the first, every name that was not assigned to keeps its entry, and every
other one stands for its latest assignment; no name is gone from any table; and the number of the
next fresh name is no smaller. A step that fails leaves all tables as they were before it. -/
theorem run_touches_only_assigned_names {n : Nat}
    (hrun : runWithin n state env = (outcome, env')) :
    env'.tables.tail = env.tables.tail ∧
    (∀ name, (∀ a ∈ assignmentsWithin n state env, a.name ≠ name) →
      (env'.table 0).get? name = (env.table 0).get? name) ∧
    (∀ a before later, assignmentsWithin n state env = before ++ a :: later →
      (∀ b ∈ later, b.name ≠ a.name) →
      (env'.table 0).get? a.name = some (.defined a.name a.value)) ∧
    (∀ depth name, (env.table depth).contains name = true →
      (env'.table depth).contains name = true) ∧
    env.names.next ≤ env'.names.next ∧
    ∀ mid e before after, step mid before = (.error e, after) → after.tables = before.tables := by
  have hafter := runWithin_after n state env
  rw [hrun] at hafter
  refine ⟨hafter.below, fun _ => hafter.get?_of_notAssigned, ?_, fun _ _ => hafter.contains_table,
    hafter.drawn, fun _ _ _ _ => tables_eq_of_step_error⟩
  intro a before later hmade hlast
  rw [hafter.first, hmade, latest?_append, ← List.singleton_append, latest?_append,
    latest?_eq_none hlast]
  simp [latest?]

/-- The lenient run of `4 "dup" ! dup 0 /` binds `dup` anew and then divides by zero. The strict
table beneath still has its `dup`, and the first table its `+`. -/
theorem run_touches_only_assigned_names_failing :
    let env := Mode.nonStrict.environment
    let program : List Cell :=
      [.int 4, .text "dup", .symbol "!", .symbol "dup", .int 0, .symbol "/", .symbol "+"]
    let last := (runWithin 9 [.quotation program] env).2
    runWithin 9 [.quotation program] env = (.error .divisionByZero, last) ∧
      assignmentsWithin 9 [.quotation program] env = [⟨"dup", .text "dup", .int 4, []⟩] ∧
      last.tables.tail = env.tables.tail ∧
      (last.table 0).get? "+" = (env.table 0).get? "+" ∧
      (last.table 0).get? "dup" = some (.defined "dup" (.int 4)) ∧
      (last.table 1).contains "dup" = true := by
  intro env program last
  have hrun : runWithin 9 [.quotation program] env = (.error .divisionByZero, last) := rfl
  have hmade : assignmentsWithin 9 [.quotation program] env =
      [⟨"dup", .text "dup", .int 4, []⟩] := rfl
  obtain ⟨hbelow, hothers, hassigned, hkept, -, -⟩ := run_touches_only_assigned_names hrun
  refine ⟨hrun, hmade, hbelow, hothers "+" ?_, hassigned _ [] [] hmade nofun, hkept 1 "dup" rfl⟩
  rw [hmade]
  simp

end Restack
