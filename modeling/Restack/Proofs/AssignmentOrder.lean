import Restack.Proofs.Conservation
import Restack.Proofs.Inheritance
import Restack.Proofs.Stream

/-!
# The order of assignments

A recorded assignment leaves nothing on the data, so later words step over its record, carry it back
into the code or move it beneath their own record. Read from the bottom of the data up and then on
through the code, the records stand in the order in which the assignments were performed, until a
word skips a record together with its dummies: assignments recorded between these dummies are then
carried past those that the word has stepped over above them.

## Main definitions

* `IsAssigning` — programs that assign scalars.
* `recorded`, `performed` — the assignments recorded in a state, and those made on the way to it.
* `exchanged`, `KeepsOrder` — what a step carries past what.
* `OnCourse` — what holds of every state of such a run.

## Main results

* `assignmentsIn_flattenList` — the assignments in the code that replays records.
* `OnCourse.proceeds` — what one step does to the recorded assignments.
* `recorded_eq_performed_iff` — the order of the records along a run.
* `assignments_in_order` — the order of the assignments in what is reconstructed.
-/

namespace Restack

open scoped List

variable {env env' : Environment} {data : Stack} {code program cells : List Cell} {name : String}
  {op : Primitive}

/-! ### Programs that assign scalars -/

/-- What names the target of an assignment. -/
inductive Cell.IsTarget : Cell → Prop
  /-- A text. -/
  | text (name : String) : Cell.IsTarget (.text name)
  /-- A symbol that no table knows at the beginning. -/
  | free {name : String} (h : IsFree name) : Cell.IsTarget (.symbol name)

/-- A program of literals, free symbols, words and assignments of scalars. -/
inductive IsAssigning : List Cell → Prop
  /-- Nothing is left to do. -/
  | nil : IsAssigning []
  /-- A literal, a free symbol or a word. -/
  | plain {c : Cell} {code : List Cell} (hc : c.IsPlain) (h : IsAssigning code) :
    IsAssigning (c :: code)
  /-- An assignment. -/
  | assign {value target : Cell} {code : List Cell} (hvalue : value.IsScalar)
    (htarget : target.IsTarget) (h : IsAssigning code) :
    IsAssigning (value :: target :: .symbol "!" :: code)

theorem not_isFree_assign : ¬ IsFree "!" := fun h => nomatch h .strict

theorem IsWord.ne_assign (h : IsWord name op) : name ≠ "!" := by
  cases h <;> decide

theorem Cell.IsPlain.ne_assign {c : Cell} (h : c.IsPlain) : c ≠ .symbol "!" := by
  rintro rfl
  cases h with
  | inert h =>
    cases h with
    | literal h => cases h
    | free h => exact not_isFree_assign h
  | word h => exact h.ne_assign rfl

/-- A literal or a free symbol is no `!`. -/
theorem Cell.IsInert.ne_assign {c : Cell} (h : c.IsInert) : c ≠ .symbol "!" :=
  Cell.IsPlain.ne_assign (.inert h)

theorem Cell.IsScalar.inert {c : Cell} (h : c.IsScalar) : c.IsInert := .literal h.1

theorem Cell.IsTarget.inert {c : Cell} (h : c.IsTarget) : c.IsInert := by
  cases h with
  | text name => exact .literal rfl
  | free h => exact .free h

/-- A scalar is pushed as it is, also where a name stands for it. -/
theorem Cell.IsScalar.invoked {c : Cell} (h : c.IsScalar) : c.invoked = c := by
  cases c with
  | quotation code => cases h.2
  | _ => rfl

/-! ### Assignments in records and in code -/

/-- The value and the target of a recorded assignment. -/
def Cell.assignment? : Cell → Option (Cell × Cell)
  | .defer [value, target, .symbol name] none => if name = "!" then some (value, target) else none
  | _ => none

@[simp] theorem assignment?_symbol (name : String) : (Cell.symbol name).assignment? = none := rfl

/-- The assignments that cells record, from the first cell to the last. -/
def recordedIn (cells : List Cell) : List (Cell × Cell) := cells.filterMap Cell.assignment?

/-- The assignments in code: each `!`, with the two cells before it. -/
def assignmentsIn : List Cell → List (Cell × Cell)
  | [] => []
  | value :: code =>
    match code with
    | target :: .symbol name :: _ =>
      if name = "!" then (value, target) :: assignmentsIn code else assignmentsIn code
    | _ => assignmentsIn code

@[simp] theorem recordedIn_nil : recordedIn [] = [] := rfl

theorem recordedIn_append (xs ys : List Cell) :
    recordedIn (xs ++ ys) = recordedIn xs ++ recordedIn ys :=
  List.filterMap_append

theorem recordedIn_cons (c : Cell) (cells : List Cell) :
    recordedIn (c :: cells) = c.assignment?.toList ++ recordedIn cells := by
  unfold recordedIn
  cases hc : c.assignment? with
  | none => simp [hc]
  | some a => simp [hc]

theorem recordedIn_eq_nil (h : ∀ c ∈ cells, c.assignment? = none) : recordedIn cells = [] :=
  List.filterMap_eq_nil_iff.mpr h

/-- The record of an assignment leaves nothing. -/
theorem assignment?_of_leaves {c : Cell} (h : c.leavesNothing = false) : c.assignment? = none := by
  unfold Cell.assignment?
  split
  · cases h
  · rfl

/-- Only records that leave nothing record assignments. -/
theorem recordedIn_filter (cells : List Cell) :
    recordedIn (cells.filter Cell.leavesNothing) = recordedIn cells := by
  induction cells with
  | nil => rfl
  | cons c cells ih =>
    cases hc : c.leavesNothing with
    | true => rw [List.filter_cons_of_pos hc, recordedIn_cons, recordedIn_cons, ih]
    | false =>
      rw [List.filter_cons_of_neg (by simp [hc]), ih, recordedIn_cons, assignment?_of_leaves hc]
      rfl

/-- A cell of a run that assigns scalars: one that replays no assignment, or the record of one. -/
inductive Cell.IsTraced : Cell → Prop
  /-- A cell that replays no assignment. -/
  | quiet {c : Cell} (h : c.IsTame) (hquiet : .symbol "!" ∉ c.flatten) : Cell.IsTraced c
  /-- The record of an assignment. -/
  | assignment {value target : Cell} (hvalue : value.IsScalar) (htarget : target.IsInert) :
    Cell.IsTraced (.defer [value, target, .symbol "!"] none)

/-- The assignments recorded in quiet cells: none. -/
theorem assignment?_of_quiet {c : Cell} (h : .symbol "!" ∉ c.flatten) : c.assignment? = none := by
  unfold Cell.assignment?
  split
  · rename_i value target name
    by_cases hname : name = "!"
    · subst hname
      refine absurd ?_ h
      simp [Cell.flatten, Cell.flattenList]
    · exact if_neg hname
  · rfl

/-- Code whose first two cells are no `!`: no assignment reaches into it from before. -/
def BeginsAfresh (code : List Cell) : Prop :=
  code[0]? ≠ some (.symbol "!") ∧ code[1]? ≠ some (.symbol "!")

theorem assignmentsIn_cons (h : code[1]? ≠ some (.symbol "!")) (c : Cell) :
    assignmentsIn (c :: code) = assignmentsIn code := by
  rw [assignmentsIn.eq_def]
  split
  · contradiction
  · rename_i hcode
    cases hcode
    split
    · rename_i target name rest
      have hname : name ≠ "!" := by
        rintro rfl
        exact h rfl
      exact if_neg hname
    · rfl

/-- Quiet code makes no assignment, and none begins in it. -/
theorem assignmentsIn_quiet (hcells : .symbol "!" ∉ cells) (h : BeginsAfresh code) :
    assignmentsIn (cells ++ code) = assignmentsIn code ∧ BeginsAfresh (cells ++ code) := by
  induction cells with
  | nil => exact ⟨rfl, h⟩
  | cons c cells ih =>
    rw [List.mem_cons, not_or] at hcells
    obtain ⟨hc, hcells⟩ := hcells
    obtain ⟨heq, hafresh⟩ := ih hcells
    refine ⟨?_, ?_, hafresh.1⟩
    · rw [List.cons_append, assignmentsIn_cons hafresh.2, heq]
    · exact fun hbang => hc (Option.some.inj hbang).symm

/-- **The assignments in the code that replays cells are those that the cells record.** -/
theorem assignmentsIn_flattenList (h : ∀ c ∈ cells, c.IsTraced) :
    assignmentsIn (Cell.flattenList cells) = recordedIn cells ∧
      BeginsAfresh (Cell.flattenList cells) := by
  induction cells with
  | nil => exact ⟨rfl, nofun, nofun⟩
  | cons c cells ih =>
    obtain ⟨hc, hcells⟩ := List.forall_mem_cons.mp h
    obtain ⟨heq, hafresh⟩ := ih hcells
    rw [Cell.flattenList]
    cases hc with
    | quiet hc hquiet =>
      obtain ⟨heq', hafresh'⟩ := assignmentsIn_quiet hquiet hafresh
      refine ⟨?_, hafresh'⟩
      rw [heq', heq, recordedIn, recordedIn, List.filterMap_cons_none (assignment?_of_quiet hquiet)]
    | @assignment value target hvalue htarget =>
      have hflat : Cell.flatten (.defer [value, target, .symbol "!"] none) =
          [value, target, .symbol "!"] := by
        simp [Cell.flatten, Cell.flattenList, hvalue.inert.flatten, htarget.flatten]
      have hbang : assignmentsIn (.symbol "!" :: Cell.flattenList cells) = recordedIn cells := by
        rw [assignmentsIn_cons hafresh.2, heq]
      have htail : assignmentsIn (target :: .symbol "!" :: Cell.flattenList cells) =
          recordedIn cells := by
        rw [assignmentsIn_cons hafresh.1, hbang]
      rw [hflat]
      refine ⟨?_, ?_, ?_⟩
      · show assignmentsIn (value :: target :: .symbol "!" :: Cell.flattenList cells) =
          (value, target) :: recordedIn cells
        rw [← htail]
        rfl
      · exact fun h => hvalue.inert.ne_assign (Option.some.inj h)
      · exact fun h => htarget.ne_assign (Option.some.inj h)

/-! ### The assignments of a run -/

/-- The assignments recorded in a state: from the bottom of the data up, and on through the code. -/
def recorded : Stack → List (Cell × Cell)
  | .quotation code :: data => recordedIn (data.reverse ++ code)
  | _ => []

theorem recorded_eq (code : List Cell) (data : Stack) :
    recorded (.quotation code :: data) = recordedIn data.reverse ++ recordedIn code :=
  recordedIn_append ..

/-- The assignment that the next step performs, if it performs one. -/
def assigned (state : Stack) (env : Environment) : List (Cell × Cell) :=
  match state with
  | .quotation (c :: _) :: data =>
    match env.lookup c, assignment data with
    | some (.control .assign), .ok a => [(a.value, a.target)]
    | some (.control .assignRecorded), .ok a => [(a.value, a.target)]
    | _, _ => []
  | _ => []

/-- The assignments that the first `n` steps of a run perform, in their order. -/
def performed (n : Nat) (state : Stack) (env : Environment) : List (Cell × Cell) :=
  (List.range n).flatMap fun k =>
    match runWithin k state env with
    | (.ok mid, env') => assigned mid env'
    | (.error _, _) => []

/-- The recorded assignments that the next step carries back into the code, and those that it
carries them past: where a check skips a record, the assignments recorded between the dummies of
that record, and those that the check has stepped over above it. -/
def exchanged (state : Stack) (env : Environment) : List (Cell × Cell) × List (Cell × Cell) :=
  match state with
  | .quotation (c :: _) :: data =>
    match env.lookup c with
    | some (.checked inputs true _) =>
      match examine true inputs data with
      | .rejected popped cell _ rest =>
        let group := skippedDummies true cell rest
        if partsDummy true inputs cell group then ([], [])
        else (recordedIn group.reverse, recordedIn popped.reverse)
      | _ => ([], [])
    | _ => ([], [])
  | _ => ([], [])

/-- The next step leaves the recorded assignments in their order. -/
def KeepsOrder (state : Stack) (env : Environment) : Prop :=
  (exchanged state env).1 ++ (exchanged state env).2 =
    (exchanged state env).2 ++ (exchanged state env).1

/-- A step that carries no recorded assignment, or carries them past none, keeps their order. -/
theorem keepsOrder_of_isEmpty {state : Stack}
    (h : ((exchanged state env).1.isEmpty || (exchanged state env).2.isEmpty) = true) :
    KeepsOrder state env := by
  unfold KeepsOrder
  rcases Bool.or_eq_true_iff.mp h with h | h
  · simp [List.isEmpty_iff.mp h]
  · simp [List.isEmpty_iff.mp h]

/-- What a step does to the recorded assignments: those that it carries change places with those
that it carries them past, and the one that it performs comes last. -/
def Retraces (env : Environment) (state next : Stack) : Prop :=
  ∃ before after,
    recorded state = before ++ ((exchanged state env).1 ++ (exchanged state env).2) ++ after ∧
    recorded next = before ++ ((exchanged state env).2 ++ (exchanged state env).1) ++ after ++
      assigned state env

theorem Retraces.perm {state next : Stack} (h : Retraces env state next) :
    recorded next ~ recorded state ++ assigned state env := by
  obtain ⟨before, after, hstate, hnext⟩ := h
  rw [hstate, hnext]
  exact (((List.perm_append_comm).append_left before).append_right after).append_right _

/-- **A step keeps the order exactly if what it carries commutes with what it is carried past.** -/
theorem Retraces.keepsOrder_iff {state next : Stack} (h : Retraces env state next) :
    recorded next = recorded state ++ assigned state env ↔ KeepsOrder state env := by
  obtain ⟨before, after, hstate, hnext⟩ := h
  rw [hstate, hnext, List.append_cancel_right_eq, List.append_cancel_right_eq,
    List.append_cancel_left_eq]
  exact eq_comm

/-- A step that exchanges nothing. -/
theorem Retraces.of_eq {state next : Stack} (hexchanged : exchanged state env = ([], []))
    (h : recorded next = recorded state ++ assigned state env) : Retraces env state next := by
  refine ⟨recorded state, [], ?_, ?_⟩
  · simp [hexchanged]
  · simp [hexchanged, h]

/-! ### One step -/

/-- The environment of a run that has bound names to scalars. -/
abbrev BindsScalars (env : Environment) : Prop :=
  Environment.GrownFrom Cell.IsScalar Mode.reorder.environment env

/-- A tame cell is a word that records itself, is not known, or was bound to a scalar. -/
theorem BindsScalars.lookup_cases (henv : BindsScalars env) {c : Cell} (hc : c.IsTame) :
    (∃ name op, IsWord name op ∧ c = .symbol name ∧
        env.lookup c = some (.recording name op.inputs op.outputs)) ∨
      env.lookup c = none ∨
      ∃ name value, value.IsScalar ∧ env.lookup c = some (.defined name value) := by
  cases hlook : env.lookup c with
  | none => exact .inr (.inl rfl)
  | some op =>
    rcases Environment.GrownFrom.lookup_cases henv hlook with hbase | ⟨name, value, hvalue, rfl⟩
    · rcases hc.word_or_lookup with ⟨name, prim, hw, rfl⟩ | hnone
      · refine .inl ⟨name, prim, hw, rfl, ?_⟩
        rw [← hbase]
        exact hw.resolve_recording
      · rw [hnone .reorder] at hbase
        cases hbase
    · exact .inr (.inr ⟨name, value, hvalue, rfl⟩)

/-- A literal or a free symbol is not known, or was bound to a scalar. -/
theorem BindsScalars.lookup_inert (henv : BindsScalars env) {c : Cell} (hc : c.IsInert) :
    env.lookup c = none ∨
      ∃ name value, value.IsScalar ∧ env.lookup c = some (.defined name value) := by
  rcases henv.lookup_cases (.plain (.inert hc)) with ⟨name, op, hw, rfl, -⟩ | hputs
  · have hnone : Mode.reorder.environment.resolve? name = none := hc.lookup .reorder
    rw [hw.resolve_recording] at hnone
    cases hnone
  · exact hputs

/-- Assignment records itself, unless `!` was bound to a scalar. -/
theorem BindsScalars.lookup_assign (henv : BindsScalars env) :
    env.lookup (.symbol "!") = some (.control .assignRecorded) ∨
      ∃ name value, value.IsScalar ∧ env.lookup (.symbol "!") = some (.defined name value) := by
  induction henv with
  | base => exact .inl rfl
  | @define env h bound value hvalue ih =>
    simp only [Environment.lookup, Environment.resolve?_define] at ih ⊢
    split
    · exact .inr ⟨bound, value, hvalue, rfl⟩
    · exact ih

theorem Cell.IsTraced.tame {c : Cell} (h : c.IsTraced) : c.IsTame := by
  cases h with
  | quiet h hquiet => exact h
  | assignment hvalue htarget => exact .defer _ _

theorem Cell.IsPlain.traced {c : Cell} (h : c.IsPlain) : c.IsTraced := by
  refine .quiet (.plain h) ?_
  have hflat : c.flatten = [c] := by
    cases h with
    | inert h => exact h.flatten
    | word h => simp [Cell.flatten]
  rw [hflat, List.mem_singleton]
  exact h.ne_assign.symm

theorem Cell.IsScalar.traced {c : Cell} (h : c.IsScalar) : c.IsTraced :=
  Cell.IsPlain.traced (.inert h.inert)

theorem Cell.IsPlain.assignment?_eq_none {c : Cell} (h : c.IsPlain) : c.assignment? = none := by
  cases h with
  | inert h =>
    have hnot := h.not_isDeferred
    cases c with
    | defer record result => cases hnot
    | _ => rfl
  | word h => rfl

/-- The record of a word replays no assignment: no operand does. -/
theorem quiet_record (hw : IsWord name op) {operands : List Cell}
    (hoperands : ∀ c ∈ operands, c.IsTraced) (hleave : ∀ c ∈ operands, c.leavesNothing = false)
    (outputs : List OutputType) :
    ∀ c ∈ record name operands outputs, c.IsTame ∧ .symbol "!" ∉ c.flatten := by
  intro c hc
  rcases List.mem_cons.mp hc with rfl | hc
  · refine ⟨.defer _ _, ?_⟩
    rw [Cell.flatten, Cell.flattenList_append, Cell.flattenList_singleton]
    intro hmem
    rcases List.mem_append.mp hmem with hmem | hmem
    · obtain ⟨d, hd, hmem⟩ := Cell.mem_flattenList hmem
      rw [List.mem_reverse] at hd
      cases hoperands d hd with
      | quiet _ hquiet => exact hquiet hmem
      | assignment _ _ => cases hleave _ hd
    · have hname : Cell.symbol "!" = .symbol name := by simpa [Cell.flatten] using hmem
      exact hw.ne_assign (Cell.symbol.inj hname).symm
  · obtain ⟨type, -, rfl⟩ := List.mem_map.mp hc
    exact ⟨.dummy _, by simp [Cell.flatten]⟩

/-- A cell that goes from the front of the code to the top of the data. -/
theorem recorded_put {c put : Cell} (h : put.assignment? = c.assignment?) (code : List Cell)
    (data : Stack) :
    recorded (.quotation code :: put :: data) = recorded (.quotation (c :: code) :: data) := by
  simp [recorded_eq, recordedIn_append, recordedIn_cons, h]

/-- A name that was bound to a scalar puts it on the data. -/
theorem step_bound {c value : Cell} (hvalue : value.IsScalar)
    (hlook : env.lookup c = some (.defined name value)) (code : List Cell) (data : Stack) :
    step (.quotation (c :: code) :: data) env = (.ok (.quotation code :: value :: data), env) ∧
      Retraces env (.quotation (c :: code) :: data) (.quotation code :: value :: data) := by
  refine ⟨?_, .of_eq (by simp [exchanged, hlook]) ?_⟩
  · have hcontinues : continuation? (value :: data) = none := by
      cases value with
      | continuation code => cases hvalue.1
      | _ => rfl
    rw [step_apply hlook, Instruction.apply, hvalue.invoked]
    simp only [Except.map, splice, hcontinues]
  · -- only a symbol can have been bound
    have hsymbol : c.assignment? = none := by
      cases c with
      | defer record result => cases hlook
      | _ => rfl
    have hnone : value.assignment? = none :=
      Cell.IsPlain.assignment?_eq_none (.inert hvalue.inert)
    rw [recorded_put (hnone.trans hsymbol.symm)]
    simp [assigned, hlook]

/-- A cell that is not known, or was bound to a scalar, puts one cell on the data. -/
theorem step_puts {c : Cell}
    (h : env.lookup c = none ∨
      ∃ name value, value.IsScalar ∧ env.lookup c = some (.defined name value))
    (code : List Cell) (data : Stack) :
    ∃ put, (put = c ∨ put.IsScalar) ∧
      step (.quotation (c :: code) :: data) env = (.ok (.quotation code :: put :: data), env) ∧
      Retraces env (.quotation (c :: code) :: data) (.quotation code :: put :: data) := by
  rcases h with hnone | ⟨name, value, hvalue, hlook⟩
  · refine ⟨c, .inl rfl, step_push hnone code data, .of_eq (by simp [exchanged, hnone]) ?_⟩
    rw [recorded_put rfl]
    simp [assigned, hnone]
  · obtain ⟨hstep, htrace⟩ := step_bound hvalue hlook code data
    exact ⟨value, .inr hvalue, hstep, htrace⟩

/-- What the next step leaves of a run: code before the rest of the code, and data. -/
def LeadsOn (env : Environment) (c : Cell) (code : List Cell) (data : Stack) : Prop :=
  ∃ carried data', step (.quotation (c :: code) :: data) env =
      (.ok (.quotation (carried ++ code) :: data'), env) ∧
    (∀ d ∈ carried, d.IsTraced) ∧ (∀ d ∈ data', d.IsTraced) ∧
    Retraces env (.quotation (c :: code) :: data) (.quotation (carried ++ code) :: data')

section Word

variable (hw : IsWord name op)
  (hlook : env.lookup (.symbol name) = some (.recording name op.inputs op.outputs))

include hlook in
theorem assigned_word (code : List Cell) (data : Stack) :
    assigned (.quotation (.symbol name :: code) :: data) env = [] := by
  simp [assigned, hlook, Instruction.recording]

include hw hlook in
/-- A word that is left on the data. -/
theorem leadsOn_left (hdata : ∀ d ∈ data, d.IsTraced)
    (hexchanged : exchanged (.quotation (.symbol name :: code) :: data) env = ([], []))
    (hstep : step (.quotation (.symbol name :: code) :: data) env =
      (.ok (.quotation code :: .symbol name :: data), env)) :
    LeadsOn env (.symbol name) code data := by
  have hword : (Cell.symbol name).IsTraced := Cell.IsPlain.traced (.word hw)
  refine ⟨[], _, hstep, nofun, List.forall_mem_cons.mpr ⟨hword, hdata⟩, .of_eq hexchanged ?_⟩
  rw [assigned_word hlook, List.append_nil]
  exact recorded_put rfl code data

include hw hlook in
/-- A word that skips a cell: the assignments between the dummies that are skipped along go past
those above the cell. -/
theorem leadsOn_skip {popped group below : List Cell} {cell : Cell}
    (hdata : ∀ d ∈ popped ++ cell :: (group ++ below), d.IsTraced)
    (hcell : cell.leavesNothing = false)
    (hexchanged : exchanged (.quotation (.symbol name :: code) ::
      (popped ++ cell :: (group ++ below))) env =
        (recordedIn group.reverse, recordedIn popped.reverse))
    (hstep : step (.quotation (.symbol name :: code) :: (popped ++ cell :: (group ++ below))) env =
      (.ok (.quotation (.symbol name :: (group.reverse ++ cell :: code)) :: (popped ++ below)),
        env)) :
    LeadsOn env (.symbol name) code (popped ++ cell :: (group ++ below)) := by
  have hnone : cell.assignment? = none := assignment?_of_leaves hcell
  refine ⟨.symbol name :: (group.reverse ++ [cell]), popped ++ below, ?_, ?_, ?_, ?_⟩
  · rw [hstep]
    simp
  · intro d hd
    simp only [List.mem_cons, List.mem_append, List.mem_reverse, List.not_mem_nil, or_false] at hd
    rcases hd with rfl | hd | rfl
    · exact Cell.IsPlain.traced (.word hw)
    · exact hdata d (by simp [hd])
    · exact hdata d (by simp)
  · intro d hd
    rcases List.mem_append.mp hd with hd | hd
    · exact hdata d (by simp [hd])
    · exact hdata d (by simp [hd])
  · refine ⟨recordedIn below.reverse, recordedIn code, ?_, ?_⟩
    · simp [hexchanged, recorded_eq, recordedIn_append, recordedIn_cons, hnone]
    · simp [hexchanged, assigned_word hlook, recorded_eq, recordedIn_append, recordedIn_cons, hnone]

include hw hlook in
/-- A word that is recorded: the assignments that it steps over stay where they are. -/
theorem leadsOn_record {popped rest : List Cell} (hdata : ∀ d ∈ popped ++ rest, d.IsTraced)
    (hexchanged : exchanged (.quotation (.symbol name :: code) :: (popped ++ rest)) env = ([], []))
    (hstep : step (.quotation (.symbol name :: code) :: (popped ++ rest)) env =
      (.ok (.quotation code :: (record name (operandsOf true popped) op.outputs ++
        (popped.filter Cell.leavesNothing ++ rest))), env)) :
    LeadsOn env (.symbol name) code (popped ++ rest) := by
  have hpopped : ∀ d ∈ popped, d.IsTraced := fun d hd => hdata d (List.mem_append_left _ hd)
  have hleave : ∀ d ∈ operandsOf true popped, d.leavesNothing = false := by
    intro d hd
    have hover := (List.mem_filter.mp hd).2
    simpa [Cell.steppedOver] using hover
  have hrecord := quiet_record hw (fun d hd => hpopped d (List.mem_of_mem_filter hd)) hleave
    op.outputs
  refine ⟨[], _, hstep, List.forall_mem_nil _, ?_, .of_eq hexchanged ?_⟩
  · intro d hd
    rcases List.mem_append.mp hd with hd | hd
    · obtain ⟨htame, hquiet⟩ := hrecord d hd
      exact .quiet htame hquiet
    · rcases List.mem_append.mp hd with hd | hd
      · exact hpopped d (List.mem_of_mem_filter hd)
      · exact hdata d (List.mem_append_right _ hd)
  · have hnone : recordedIn (record name (operandsOf true popped) op.outputs).reverse = [] :=
      recordedIn_eq_nil fun d hd => assignment?_of_quiet (hrecord d (List.mem_reverse.mp hd)).2
    have hstepped : recordedIn (popped.filter Cell.leavesNothing).reverse =
        recordedIn popped.reverse := by
      rw [← List.filter_reverse, recordedIn_filter]
    rw [assigned_word hlook, List.append_nil]
    simp [recorded_eq, recordedIn_append, recordedIn_cons, hnone, hstepped]

include hw hlook in
/-- A word that records itself takes the recorded assignments along. -/
theorem leadsOn_word (hdata : ∀ d ∈ data, d.IsTraced) (code : List Cell) :
    LeadsOn env (.symbol name) code data := by
  have hstep := step_recording hlook code data
  have hfits := examine_fits true op.inputs data
  cases he : examine true op.inputs data with
  | exhausted =>
    rw [he] at hstep
    exact leadsOn_left hw hlook hdata (by simp [exchanged, hlook, Instruction.recording, he]) hstep
  | rejected popped cell required rest =>
    obtain ⟨hsplit, hover, -⟩ := he ▸ hfits
    have hcell : cell.leavesNothing = false := hover
    rw [he, recordingNext] at hstep
    by_cases hparts : partsDummy true op.inputs cell (skippedDummies true cell rest) = true
    · rw [if_pos hparts] at hstep
      exact leadsOn_left hw hlook hdata
        (by simp [exchanged, hlook, Instruction.recording, he, hparts]) hstep
    · rw [if_neg hparts] at hstep
      have hexchanged : exchanged (.quotation (.symbol name :: code) :: data) env =
          (recordedIn (skippedDummies true cell rest).reverse, recordedIn popped.reverse) := by
        simp [exchanged, hlook, Instruction.recording, he, hparts]
      have hrest := skippedDummies_append_drop true cell rest
      generalize skippedDummies true cell rest = group at hstep hexchanged hrest
      generalize rest.drop group.length = below at hstep hrest
      subst hrest hsplit
      exact leadsOn_skip hw hlook hdata hcell hexchanged hstep
  | accepted popped rest =>
    obtain ⟨rfl, -⟩ := he ▸ hfits
    rw [he, recordingNext] at hstep
    exact leadsOn_record hw hlook hdata (by simp [exchanged, hlook, Instruction.recording, he])
      hstep

end Word

/-- **A cell of the run, at the front of the code, takes the recorded assignments along.** -/
theorem leadsOn_of_traced (henv : BindsScalars env) {c : Cell} (hc : c.IsTraced)
    (hdata : ∀ d ∈ data, d.IsTraced) (code : List Cell) : LeadsOn env c code data := by
  rcases henv.lookup_cases hc.tame with ⟨name, op, hw, rfl, hlook⟩ | hputs
  · exact leadsOn_word hw hlook hdata code
  · obtain ⟨put, hput, hstep, htrace⟩ := step_puts hputs code data
    have hputTraced : put.IsTraced := by
      rcases hput with rfl | hscalar
      · exact hc
      · exact hscalar.traced
    exact ⟨[], put :: data, hstep, nofun, List.forall_mem_cons.mpr ⟨hputTraced, hdata⟩, htrace⟩

/-! ### Runs that assign scalars -/

/-- What is still to run: cells that were skipped and the rest of a program, or a program in the
middle of an assignment. -/
inductive Ahead : Stack → List Cell → Prop
  /-- Between two cells of the program. -/
  | program {data : Stack} {carried program : List Cell} (hcarried : ∀ c ∈ carried, c.IsTraced)
    (h : IsAssigning program) : Ahead data (carried ++ program)
  /-- After the value of an assignment. -/
  | target {data : Stack} {value target : Cell} {program : List Cell} (hvalue : value.IsScalar)
    (htarget : target.IsTarget) (h : IsAssigning program) :
    Ahead (value :: data) (target :: .symbol "!" :: program)
  /-- After the target of an assignment, or what it was bound to. -/
  | assign {data : Stack} {value target : Cell} {program : List Cell} (hvalue : value.IsScalar)
    (htarget : target.IsInert) (h : IsAssigning program) :
    Ahead (target :: value :: data) (.symbol "!" :: program)

/-- What holds of every state of a run that assigns scalars. -/
structure OnCourse (env : Environment) (data : Stack) (code : List Cell) : Prop where
  /-- Names were bound to scalars only. -/
  binds : BindsScalars env
  /-- The data replays no assignments but those it records. -/
  traced : ∀ c ∈ data, c.IsTraced
  /-- The code is what the program has left. -/
  ahead : Ahead data code

/-- A program records nothing yet. -/
theorem recordedIn_assigning (h : IsAssigning program) : recordedIn program = [] := by
  induction h with
  | nil => rfl
  | plain hc _ ih => simp [recordedIn_cons, ih, hc.assignment?_eq_none]
  | assign hvalue htarget _ ih =>
    have hplain : ∀ {c : Cell}, c.IsInert → c.assignment? = none := fun hc =>
      Cell.IsPlain.assignment?_eq_none (.inert hc)
    simp [recordedIn_cons, ih, hplain hvalue.inert, hplain htarget.inert]

theorem Cell.IsInert.traced {c : Cell} (h : c.IsInert) : c.IsTraced :=
  Cell.IsPlain.traced (.inert h)

/-- What a step of a run leads to. -/
def Proceeds (env : Environment) (state next : Stack) (env' : Environment) : Prop :=
  ∃ code data, next = .quotation code :: data ∧ OnCourse env' data code ∧ Retraces env state next

section Step

variable {c : Cell} {next : Stack} (henv : BindsScalars env) (hdata : ∀ d ∈ data, d.IsTraced)
  (hstep : step (.quotation (c :: code) :: data) env = (.ok next, env'))

include henv hdata hstep in
/-- A cell that was skipped, or one of the program. -/
theorem proceeds_front {carried : List Cell} (hc : c.IsTraced)
    (hcarried : ∀ d ∈ carried, d.IsTraced) (hprogram : IsAssigning program)
    (hcode : code = carried ++ program) :
    Proceeds env (.quotation (c :: code) :: data) next env' := by
  obtain ⟨more, data', hstep', hmore, hdata', htrace⟩ := leadsOn_of_traced henv hc hdata code
  rw [hstep'] at hstep
  cases hstep
  refine ⟨_, _, rfl, ⟨henv, hdata', ?_⟩, htrace⟩
  rw [hcode, ← List.append_assoc]
  exact .program (fun d hd => (List.mem_append.mp hd).elim (hmore d) (hcarried d)) hprogram

include henv hdata hstep in
/-- The value or the target of an assignment. -/
theorem proceeds_inert (hc : c.IsInert)
    (hahead : ∀ put, put = c ∨ put.IsScalar → Ahead (put :: data) code) :
    Proceeds env (.quotation (c :: code) :: data) next env' := by
  obtain ⟨put, hput, hstep', htrace⟩ := step_puts (henv.lookup_inert hc) code data
  rw [hstep'] at hstep
  cases hstep
  have hputTraced : put.IsTraced := by
    rcases hput with rfl | hscalar
    · exact hc.traced
    · exact hscalar.traced
  exact ⟨_, _, rfl, ⟨henv, List.forall_mem_cons.mpr ⟨hputTraced, hdata⟩, hahead put hput⟩, htrace⟩

end Step

/-- The end of an assignment. -/
theorem proceeds_assign {value target : Cell} {next : Stack} (henv : BindsScalars env)
    (hdata : ∀ d ∈ data, d.IsTraced) (hvalue : value.IsScalar) (htarget : target.IsInert)
    (hprogram : IsAssigning program)
    (hstep : step (.quotation (.symbol "!" :: program) :: target :: value :: data) env =
      (.ok next, env')) :
    Proceeds env (.quotation (.symbol "!" :: program) :: target :: value :: data) next env' := by
  have htop : ∀ d ∈ target :: value :: data, d.IsTraced :=
    List.forall_mem_cons.mpr ⟨htarget.traced, List.forall_mem_cons.mpr ⟨hvalue.traced, hdata⟩⟩
  rcases henv.lookup_assign with hlook | ⟨name, put, hput, hlook⟩
  · cases step_iff.mp hstep with
    | push hnone => rw [hlook] at hnone; cases hnone
    | apply h happly =>
      rw [hlook] at h
      cases h
      cases Control.apply_iff.mp happly with
      | assignRecorded hname value rest =>
        have hrecord : (Cell.defer [value, target, .symbol "!"] none).IsTraced :=
          .assignment hvalue htarget
        refine ⟨program, _, rfl, ⟨.define henv _ hvalue, ?_, ?_⟩, .of_eq ?_ ?_⟩
        · exact List.forall_mem_cons.mpr ⟨hrecord, hdata⟩
        · exact .program (List.forall_mem_nil _) hprogram
        · simp [exchanged, hlook]
        · have hassigned : assigned (.quotation (.symbol "!" :: program) :: target :: value :: data)
              env = [(value, target)] := by
            rcases hname with rfl | rfl <;> simp [assigned, hlook, Restack.assignment]
          have hvalue' : value.assignment? = none :=
            Cell.IsPlain.assignment?_eq_none (.inert hvalue.inert)
          have htarget' : target.assignment? = none :=
            Cell.IsPlain.assignment?_eq_none (.inert htarget)
          have hrecord' : (Cell.defer [value, target, .symbol "!"] none).assignment? =
              some (value, target) := rfl
          show recorded (.quotation program :: .defer [value, target, .symbol "!"] none :: data) = _
          rw [hassigned]
          simp [recorded_eq, recordedIn_append, recordedIn_cons, hvalue', htarget', hrecord',
            recordedIn_assigning hprogram]
  · -- `!` stands for a scalar
    obtain ⟨hstep', htrace⟩ := step_bound hput hlook program (target :: value :: data)
    rw [hstep'] at hstep
    cases hstep
    refine ⟨_, _, rfl, ⟨henv, List.forall_mem_cons.mpr ⟨hput.traced, htop⟩, ?_⟩, htrace⟩
    exact .program (List.forall_mem_nil _) hprogram

/-- **A step of a run that assigns scalars.** -/
theorem OnCourse.proceeds {c : Cell} {next : Stack} (h : OnCourse env data (c :: code))
    (hstep : step (.quotation (c :: code) :: data) env = (.ok next, env')) :
    Proceeds env (.quotation (c :: code) :: data) next env' := by
  obtain ⟨henv, hdata, hahead⟩ := h
  generalize hcs : c :: code = cs at hahead
  cases hahead with
  | @program _ carried program hcarried hprogram =>
    cases carried with
    | cons d carried =>
      cases hcs
      obtain ⟨hc, hcarried⟩ := List.forall_mem_cons.mp hcarried
      exact proceeds_front henv hdata hstep hc hcarried hprogram rfl
    | nil =>
      cases hprogram with
      | nil => cases hcs
      | plain hc hprogram =>
        cases hcs
        exact proceeds_front henv hdata hstep hc.traced (List.forall_mem_nil _) hprogram
          (List.nil_append _).symm
      | assign hvalue htarget hprogram =>
        cases hcs
        refine proceeds_inert henv hdata hstep hvalue.inert fun put hput => ?_
        rcases hput with rfl | hscalar
        · exact .target hvalue htarget hprogram
        · exact .target hscalar htarget hprogram
  | target hvalue htarget hprogram =>
    cases hcs
    refine proceeds_inert henv hdata hstep htarget.inert fun put hput => ?_
    rcases hput with rfl | hscalar
    · exact .assign hvalue htarget.inert hprogram
    · exact .assign hvalue hscalar.inert hprogram
  | assign hvalue htarget hprogram =>
    cases hcs
    obtain ⟨-, hdata⟩ := List.forall_mem_cons.mp hdata
    obtain ⟨-, hdata⟩ := List.forall_mem_cons.mp hdata
    exact proceeds_assign henv hdata hvalue htarget hprogram hstep

/-! ### Whole runs -/

section Run

variable {state last next : Stack} {n k : Nat}

theorem performed_succ {mid : Stack} (h : runWithin n state env = (.ok mid, env')) :
    performed (n + 1) state env = performed n state env ++ assigned mid env' := by
  simp [performed, List.range_succ, h]

/-- A state without code takes no step. -/
theorem retraces_halted (env : Environment) (data : Stack) :
    Retraces env (.quotation [] :: data) (.quotation [] :: data) :=
  .of_eq rfl (List.append_nil _).symm

/-- One step more of a run. -/
theorem OnCourse.proceeds_run (h : OnCourse env' data code)
    (hmid : runWithin n state env = (.ok (.quotation code :: data), env')) {env₁ : Environment}
    (hnext : runWithin (n + 1) state env = (.ok next, env₁)) :
    Proceeds env' (.quotation code :: data) next env₁ := by
  cases code with
  | nil =>
    rw [runWithin_of_le hmid rfl (Nat.le_succ n)] at hnext
    cases hnext
    exact ⟨[], data, rfl, h, retraces_halted env' data⟩
  | cons c code =>
    rw [runWithin_succ_of_ok hmid rfl] at hnext
    exact h.proceeds hnext

/-- The run of a program stays on course. -/
theorem onCourse_run (hprogram : IsAssigning program) {last : Stack}
    (hrun : runWithin n [.quotation program] Mode.reorder.environment = (.ok last, env')) :
    ∃ code data, last = .quotation code :: data ∧ OnCourse env' data code := by
  induction n generalizing last env' with
  | zero =>
    cases hrun
    exact ⟨program, [], rfl, .base, nofun, .program (List.forall_mem_nil _) hprogram⟩
  | succ n ih =>
    obtain ⟨mid, env₁, hmid⟩ := exists_runWithin_of_le hrun (Nat.le_succ n)
    obtain ⟨code, data, rfl, hcourse⟩ := ih hmid
    obtain ⟨code', data', hlast, hcourse', -⟩ := hcourse.proceeds_run hmid hrun
    exact ⟨code', data', hlast, hcourse'⟩

/-- **Every step of the run of a program retraces the recorded assignments.** -/
theorem retraces_run (hprogram : IsAssigning program) {mid next : Stack} {env₁ : Environment}
    (hmid : runWithin n [.quotation program] Mode.reorder.environment = (.ok mid, env'))
    (hnext : runWithin (n + 1) [.quotation program] Mode.reorder.environment = (.ok next, env₁)) :
    Retraces env' mid next := by
  obtain ⟨code, data, rfl, hcourse⟩ := onCourse_run hprogram hmid
  obtain ⟨-, -, -, -, htrace⟩ := hcourse.proceeds_run hmid hnext
  exact htrace

/-- No assignment is lost on the way, and none is made up. -/
theorem recorded_perm_performed (hprogram : IsAssigning program) {last : Stack}
    (hrun : runWithin n [.quotation program] Mode.reorder.environment = (.ok last, env')) :
    recorded last ~ performed n [.quotation program] Mode.reorder.environment := by
  induction n generalizing last env' with
  | zero =>
    cases hrun
    have hnone : recorded [.quotation program] = [] := recordedIn_assigning hprogram
    rw [hnone]
    exact .nil
  | succ n ih =>
    obtain ⟨mid, env₁, hmid⟩ := exists_runWithin_of_le hrun (Nat.le_succ n)
    rw [performed_succ hmid]
    exact (retraces_run hprogram hmid hrun).perm.trans ((ih hmid).append_right _)

/-- **The order of the records along a run.** They are in the order of the assignments after each
step exactly if each step keeps their order. -/
theorem recorded_eq_performed_iff (hprogram : IsAssigning program) {last : Stack}
    (hrun : runWithin n [.quotation program] Mode.reorder.environment = (.ok last, env')) :
    (∀ k ≤ n, ∀ mid env₁,
        runWithin k [.quotation program] Mode.reorder.environment = (.ok mid, env₁) →
        recorded mid = performed k [.quotation program] Mode.reorder.environment) ↔
      ∀ k < n, ∀ mid env₁,
        runWithin k [.quotation program] Mode.reorder.environment = (.ok mid, env₁) →
        KeepsOrder mid env₁ := by
  constructor
  · intro h k hk mid env₁ hmid
    obtain ⟨next, env₂, hnext⟩ := exists_runWithin_of_le hrun hk
    have hnow := h k (Nat.le_of_lt hk) mid env₁ hmid
    have hthen := h (k + 1) hk next env₂ hnext
    rw [performed_succ hmid, ← hnow] at hthen
    exact (retraces_run hprogram hmid hnext).keepsOrder_iff.mp hthen
  · intro h k hk
    induction k with
    | zero =>
      intro mid env₁ hmid
      cases hmid
      exact recordedIn_assigning hprogram
    | succ k ih =>
      intro next env₂ hnext
      obtain ⟨mid, env₁, hmid⟩ := exists_runWithin_of_le hnext (Nat.le_succ k)
      have hkeeps := h k hk mid env₁ hmid
      rw [performed_succ hmid, ← ih (Nat.le_of_lt hk) mid env₁ hmid]
      exact (retraces_run hprogram hmid hnext).keepsOrder_iff.mpr hkeeps

/-- The assignments in what is reconstructed from a halted run are those that its data records. -/
theorem assignmentsIn_reconstruct (hprogram : IsAssigning program) {last : Stack}
    (hrun : runWithin n [.quotation program] Mode.reorder.environment = (.ok last, env'))
    (hhalted : isHalted last = true) :
    ∃ rebuilt, reconstruct last = [.quotation rebuilt] ∧ assignmentsIn rebuilt = recorded last := by
  obtain ⟨code, data, rfl, hcourse⟩ := onCourse_run hprogram hrun
  cases code with
  | cons c code => cases hhalted
  | nil =>
    refine ⟨replayCode data, reconstruct_halted data, ?_⟩
    have htraced : ∀ c ∈ data.reverse, c.IsTraced :=
      fun c hc => hcourse.traced c (List.mem_reverse.mp hc)
    rw [replayCode, (assignmentsIn_flattenList htraced).1, recorded_eq, recordedIn_nil,
      List.append_nil]

end Run

/-- **When assignments keep their order.** Take a program of literals, free symbols, words and
assignments of scalars, and some steps of its recording run. The assignments recorded then are those
that were performed, in some order; and they are in the order in which they were performed, after
each of the steps, exactly if no step carries recorded assignments past others. When the run has
halted, the same assignments stand in what is reconstructed, and in the order in which they were
performed if all steps were of that kind. -/
theorem assignments_in_order (hprogram : IsAssigning program) {n : Nat} {last : Stack}
    (hrun : runWithin n [.quotation program] Mode.reorder.environment = (.ok last, env')) :
    let env := Mode.reorder.environment
    let start : Stack := [.quotation program]
    recorded last ~ performed n start env ∧
    ((∀ k ≤ n, ∀ mid env₁, runWithin k start env = (.ok mid, env₁) →
        recorded mid = performed k start env) ↔
      ∀ k < n, ∀ mid env₁, runWithin k start env = (.ok mid, env₁) → KeepsOrder mid env₁) ∧
    (isHalted last = true → ∃ rebuilt,
      (∀ budget, n ≤ stepLimit budget →
        (reorder budget start env).1 = .ok [.quotation rebuilt]) ∧
      assignmentsIn rebuilt ~ performed n start env ∧
      ((∀ k < n, ∀ mid env₁, runWithin k start env = (.ok mid, env₁) → KeepsOrder mid env₁) →
        assignmentsIn rebuilt = performed n start env)) := by
  intro env start
  have hperm := recorded_perm_performed hprogram hrun
  have hiff := recorded_eq_performed_iff hprogram hrun
  refine ⟨hperm, hiff, fun hhalted => ?_⟩
  obtain ⟨rebuilt, hreconstruct, hsame⟩ := assignmentsIn_reconstruct hprogram hrun hhalted
  refine ⟨rebuilt, fun budget hbudget => ?_, hsame ▸ hperm, fun hkeeps => ?_⟩
  · rw [reorder, run, runWithin_of_le hrun hhalted hbudget]
    simp only [hreconstruct]
  · rw [hsame]
    exact hiff.mpr hkeeps n (Nat.le_refl n) last env' hrun

/-- The theorem at `5 z ! 3 4 true dup 1 x ! not +`: the sum carries the second assignment back into
the code, past no other, and the reconstruction `5 z ! 3 4 + 1 x ! true dup not` makes both in their
order. -/
theorem assignments_in_order_skipped_copy :
    let program : List Cell :=
      [.int 5, .symbol "z", .symbol "!", .int 3, .int 4, .bool true, .symbol "dup", .int 1,
        .symbol "x", .symbol "!", .symbol "not", .symbol "+"]
    let env := Mode.reorder.environment
    ∃ rebuilt, (∀ budget, 16 ≤ stepLimit budget →
        (reorder budget [.quotation program] env).1 = .ok [.quotation rebuilt]) ∧
      assignmentsIn rebuilt = [(.int 5, .symbol "z"), (.int 1, .symbol "x")] := by
  intro program env
  have hz : IsFree "z" := isFree_iff.mpr rfl
  have hx : IsFree "x" := isFree_iff.mpr rfl
  have hprogram : IsAssigning program :=
    .assign ⟨rfl, rfl⟩ (.free hz) <| .plain (.inert (.literal rfl)) <|
    .plain (.inert (.literal rfl)) <| .plain (.inert (.literal rfl)) <| .plain (.word .dup) <|
    .assign ⟨rfl, rfl⟩ (.free hx) <| .plain (.word .not) <| .plain (.word .add) .nil
  obtain ⟨last, env', hrun, hhalted⟩ : ∃ last env',
      runWithin 16 [.quotation program] env = (.ok last, env') ∧ isHalted last = true :=
    ⟨_, _, rfl, rfl⟩
  have hcheck : ((List.range 16).all fun k =>
      match runWithin k [.quotation program] env with
      | (.ok mid, env') => (exchanged mid env').1.isEmpty || (exchanged mid env').2.isEmpty
      | (.error _, _) => true) = true := rfl
  have hkeeps : ∀ k < 16, ∀ mid env₁, runWithin k [.quotation program] env = (.ok mid, env₁) →
      KeepsOrder mid env₁ := by
    intro k hk mid env₁ hmid
    have hempty := List.all_eq_true.mp hcheck k (List.mem_range.mpr hk)
    rw [hmid] at hempty
    exact keepsOrder_of_isEmpty hempty
  obtain ⟨-, -, hrebuilt⟩ := assignments_in_order hprogram hrun
  obtain ⟨rebuilt, hreorder, -, hordered⟩ := hrebuilt hhalted
  exact ⟨rebuilt, hreorder, hordered hkeeps⟩

/-- The run of `3 4 true dup 1 x ! not 2 y ! +` assigns to `x` and then to `y`. The sum steps over
the assignment to `y`, and skips the negation together with the copy of `true` and the assignment to
`x` above that copy: the reconstruction `2 y ! 3 4 + 1 x ! true dup not` assigns to `y` first. -/
theorem assignments_exchanged_skipped_copy :
    let program : List Cell :=
      [.int 3, .int 4, .bool true, .symbol "dup", .int 1, .symbol "x", .symbol "!", .symbol "not",
        .int 2, .symbol "y", .symbol "!", .symbol "+"]
    let env := Mode.reorder.environment
    IsAssigning program ∧
      ∃ last env' rebuilt, runWithin 16 [.quotation program] env = (.ok last, env') ∧
        isHalted last = true ∧ reconstruct last = [.quotation rebuilt] ∧
        performed 16 [.quotation program] env =
          [(.int 1, .symbol "x"), (.int 2, .symbol "y")] ∧
        assignmentsIn rebuilt = [(.int 2, .symbol "y"), (.int 1, .symbol "x")] ∧
        assignmentsIn rebuilt ≠ performed 16 [.quotation program] env := by
  intro program env
  have hx : IsFree "x" := isFree_iff.mpr rfl
  have hy : IsFree "y" := isFree_iff.mpr rfl
  have hprogram : IsAssigning program :=
    .plain (.inert (.literal rfl)) <| .plain (.inert (.literal rfl)) <|
    .plain (.inert (.literal rfl)) <| .plain (.word .dup) <| .assign ⟨rfl, rfl⟩ (.free hx) <|
    .plain (.word .not) <| .assign ⟨rfl, rfl⟩ (.free hy) <| .plain (.word .add) .nil
  refine ⟨hprogram, _, _, _, rfl, rfl, rfl, rfl, rfl, ?_⟩
  intro h
  injection h with h _
  injection h with h _
  injection h with h
  exact absurd h (by decide)

end Restack
