import Restack.Proofs.Environment
import Restack.Proofs.WordStep

/-!
# The search for operands

For each of its requirements in turn, a lenient word takes the topmost cell that meets it, beneath
the operand that it took before. The cells in between are passed over. The machine does this one
cell at a time: each cell that is passed over goes into the code behind the word, and the word
starts again with the operands it had. When the search is over the word is applied, or left where
there is nothing more to find, and the cells come back on top in the order in which they lay.

## Main definitions

* `Selection`, `select` — what a search from the top finds.

## Main results

* `select_taking`, `select_passing` — a search beneath operands and beneath cells that are passed
  over.
* `Selection.Fits`, `select_fits` — what the operands and the requirements have to do with each
  other.
* `runWithin_select` — the steps in which a word passes over cells.
* `lenient_word_searches` — what a lenient word does.
-/

namespace Restack

variable {acceptDeferred : Bool} {inputs met : List TypeTag} {required : TypeTag}
  {us skipped : List Cell} {data : Stack}

/-! ### What a search finds -/

/-- What a search for operands finds. All cells are listed top first. -/
structure Selection where
  /-- The cells that meet the requirements, one each. -/
  operands : List Cell := []
  /-- The cells that were passed over. -/
  skipped : List Cell := []
  /-- The cells beneath the last operand. -/
  beneath : Stack := []
  /-- The requirements for which there was no cell left. -/
  missing : List TypeTag := []

namespace Selection

/-- The same search beneath operands that were found before. -/
def taking (cells : List Cell) (s : Selection) : Selection :=
  { s with operands := cells ++ s.operands }

/-- The same search beneath cells that were passed over before. -/
def passing (cells : List Cell) (s : Selection) : Selection :=
  { s with skipped := cells ++ s.skipped }

end Selection

/-- Searches the data for operands: the topmost cell that meets the first requirement, and beneath
it the operands for the others. -/
def select (acceptDeferred : Bool) : List TypeTag → Stack → Selection
  | [], data => { beneath := data }
  | required :: inputs, [] => { missing := required :: inputs }
  | required :: inputs, c :: data =>
    if c.meets acceptDeferred required then (select acceptDeferred inputs data).taking [c]
    else (select acceptDeferred (required :: inputs) data).passing [c]

@[simp] theorem select_nil (data : Stack) :
    select acceptDeferred [] data = { beneath := data } := by
  cases data <;> rfl

theorem select_take {c : Cell} (h : c.meets acceptDeferred required = true)
    (inputs : List TypeTag) (data : Stack) :
    select acceptDeferred (required :: inputs) (c :: data) =
      (select acceptDeferred inputs data).taking [c] := by
  rw [select, if_pos h]

theorem select_pass {c : Cell} (h : c.meets acceptDeferred required = false)
    (inputs : List TypeTag) (data : Stack) :
    select acceptDeferred (required :: inputs) (c :: data) =
      (select acceptDeferred (required :: inputs) data).passing [c] := by
  rw [select, if_neg (by simp [h])]

/-- A search whose first operands lie on top goes on beneath them. -/
theorem select_taking
    (h : List.Forall₂ (fun required c => c.meets acceptDeferred required = true) met us)
    (inputs : List TypeTag) (data : Stack) :
    select acceptDeferred (met ++ inputs) (us ++ data) =
      (select acceptDeferred inputs data).taking us := by
  induction h with
  | nil => rfl
  | cons hc _ ih =>
    rw [List.cons_append, List.cons_append, select_take hc, ih]
    rfl

/-- A search passes over cells that do not meet its first requirement. -/
theorem select_passing (h : ∀ c ∈ skipped, c.meets acceptDeferred required = false)
    (inputs : List TypeTag) (data : Stack) :
    select acceptDeferred (required :: inputs) (skipped ++ data) =
      (select acceptDeferred (required :: inputs) data).passing skipped := by
  induction skipped with
  | nil => rfl
  | cons c skipped ih =>
    obtain ⟨hc, hskipped⟩ := List.forall_mem_cons.mp h
    rw [List.cons_append, select_pass hc, ih hskipped]
    rfl

/-- The operands meet the requirements that are not missing, and only a search that has found all
its operands leaves cells beneath them. -/
structure Selection.Fits (acceptDeferred : Bool) (inputs : List TypeTag) (s : Selection) :
    Prop where
  /-- The operands meet the first requirements, and the others are missing. -/
  meets : ∃ met, inputs = met ++ s.missing ∧
    List.Forall₂ (fun required c => c.meets acceptDeferred required = true) met s.operands
  /-- A search that lacks operands has gone to the bottom of the data. -/
  exhausted : s.missing ≠ [] → s.beneath = []

theorem select_fits (acceptDeferred : Bool) (inputs : List TypeTag) (data : Stack) :
    (select acceptDeferred inputs data).Fits acceptDeferred inputs := by
  induction data generalizing inputs with
  | nil =>
    cases inputs with
    | nil => exact ⟨⟨[], rfl, .nil⟩, fun h => absurd rfl h⟩
    | cons required inputs => exact ⟨⟨[], rfl, .nil⟩, fun _ => rfl⟩
  | cons c data ih =>
    cases inputs with
    | nil => exact ⟨⟨[], rfl, .nil⟩, fun h => absurd rfl h⟩
    | cons required inputs =>
      cases hc : c.meets acceptDeferred required with
      | true =>
        obtain ⟨⟨met, hinputs, hmeet⟩, hexhausted⟩ := ih inputs
        rw [select_take hc]
        exact ⟨⟨required :: met, congrArg (required :: ·) hinputs, .cons hc hmeet⟩, hexhausted⟩
      | false =>
        rw [select_pass hc]
        exact ⟨(ih (required :: inputs)).meets, (ih (required :: inputs)).exhausted⟩

/-- A search loses nothing: every cell is an operand, was passed over, or lies beneath. -/
theorem select_perm (acceptDeferred : Bool) (inputs : List TypeTag) (data : Stack) {s : Selection}
    (hs : select acceptDeferred inputs data = s) :
    (s.operands ++ (s.skipped ++ s.beneath)).Perm data := by
  subst hs
  induction data generalizing inputs with
  | nil => cases inputs <;> exact .refl _
  | cons c data ih =>
    cases inputs with
    | nil => exact .refl _
    | cons required inputs =>
      cases hc : c.meets acceptDeferred required with
      | true =>
        rw [select_take hc]
        exact (ih inputs).cons c
      | false =>
        rw [select_pass hc]
        exact List.perm_middle.trans ((ih (required :: inputs)).cons c)

/-! ### The machine searches -/

section Word

variable {name : String} {op : Primitive}

/-- **A lenient word passes over cells one at a time**, and has them behind it in the code when it
comes to its last operand. -/
theorem runWithin_select (hw : IsWord name op) (hinputs : op.inputs = met ++ inputs)
    (hus : List.Forall₂ (fun required c => c.meets false required = true) met us)
    (hdata : NoContinuation (us ++ data)) (code : List Cell) {s : Selection}
    (hs : select false inputs data = s) :
    runWithin s.skipped.length (.quotation (.symbol name :: code) :: (us ++ data))
        Mode.nonStrict.environment =
      (.ok (.quotation (.symbol name :: (s.skipped.reverse ++ code)) ::
        (us ++ (s.operands ++ s.beneath))), Mode.nonStrict.environment) := by
  subst hs
  -- along the data; the operands found so far are `us`, and they meet the requirements `met`
  induction data generalizing met inputs us code with
  | nil => cases inputs <;> rfl
  | cons c data ih =>
    cases inputs with
    | nil => rfl
    | cons required inputs =>
      cases hc : c.meets false required with
      | true =>
        have hinputs' : op.inputs = (met ++ [required]) ++ inputs := by simp [hinputs]
        have hus' := forall₂_append hus (.cons hc .nil)
        have hih := ih hinputs' hus' (by simpa using hdata) code
        rw [select_take hc]
        simpa [Selection.taking] using hih
      | false =>
        have hexamine : examine false op.inputs (us ++ c :: data) =
            .rejected us c required data := by
          rw [hinputs]
          exact examine_rejected hus hc
        have hstep := step_lenient_word hw hdata code
        rw [hexamine, lenientNext] at hstep
        have hrest : NoContinuation (us ++ data) := by
          intro d hd
          refine hdata d ?_
          rcases List.mem_append.mp hd with hd | hd
          · exact List.mem_append_left _ hd
          · exact List.mem_append_right _ (List.mem_cons_of_mem c hd)
        have hih := ih hinputs hus hrest (c :: code)
        rw [select_pass hc]
        simp only [Selection.passing, List.singleton_append, List.length_cons, List.reverse_cons,
          List.append_assoc]
        rw [runWithin_succ_ok _ rfl hstep]
        exact hih

/-- A word that has found its operands is applied to them alone. -/
theorem step_found (hw : IsWord name op) {s : Selection} (hs : s.Fits false op.inputs)
    (hfound : s.missing = []) (hdata : NoContinuation (s.operands ++ s.beneath))
    (code : List Cell) :
    step (.quotation (.symbol name :: code) :: (s.operands ++ s.beneath))
        Mode.nonStrict.environment =
      ((strictStep (.symbol name) s.operands).map fun results =>
        .quotation code :: (results ++ s.beneath), Mode.nonStrict.environment) := by
  obtain ⟨met, hinputs, hmeet⟩ := hs.meets
  rw [hfound, List.append_nil] at hinputs
  subst hinputs
  have hlen : s.operands.length = (op.action name).inputs.length := by
    rw [← hmeet.length_eq, hw.length_inputs_action]
  rw [step_lenient_word hw hdata, examine_accepted hmeet, lenientNext, strictStep_word hw,
    Action.apply_append _ hlen]
  cases (op.action name).apply name s.operands <;> rfl

/-- A word that lacks operands is left on those that it has found. -/
theorem step_missing (hw : IsWord name op) {s : Selection} (hs : s.Fits false op.inputs)
    (hmissing : s.missing ≠ []) (hdata : NoContinuation s.operands) (code : List Cell) :
    step (.quotation (.symbol name :: code) :: s.operands) Mode.nonStrict.environment =
      (.ok (.quotation code :: .symbol name :: s.operands), Mode.nonStrict.environment) := by
  obtain ⟨met, hinputs, hmeet⟩ := hs.meets
  rw [step_lenient_word hw hdata, hinputs, examine_exhausted hmeet hmissing, lenientNext]

end Word

/-- **What a lenient word does.** Take a word of the lenient vocabulary with some code behind it, on
data that the lenient environment does not know and that does not ask to be run. Let `s` be what a
search for its operands finds, and let it pass over `m` cells. If all operands are found and the
strict word succeeds on them, the word and all it has put into the code are gone after `2 * m + 1`
steps, and on the data are the cells beneath the operands, the results, and the cells that were
passed over. If operands are missing, they are gone after as many steps too, and on the data are the
operands that were found, the name of the word, and the cells that were passed over. If the strict
word fails on the operands, the lenient run fails in the same way in the step after the first `m`.
-/
theorem lenient_word_searches {name : String} {inner : Instruction}
    (hf : Vocabulary.lenient.get? name = some (.checked inputs false inner))
    (hlookup : ∀ c ∈ data, Mode.nonStrict.environment.lookup c = none)
    (hdata : NoContinuation data) (code : List Cell) {s : Selection}
    (hs : select false inputs data = s) :
    (s.missing = [] → ∀ results, strictStep (.symbol name) s.operands = .ok results →
      runWithin (2 * s.skipped.length + 1) (.quotation (.symbol name :: code) :: data)
          Mode.nonStrict.environment =
        (.ok (.quotation code :: (s.skipped ++ (results ++ s.beneath))),
          Mode.nonStrict.environment)) ∧
    (s.missing ≠ [] →
      runWithin (2 * s.skipped.length + 1) (.quotation (.symbol name :: code) :: data)
          Mode.nonStrict.environment =
        (.ok (.quotation code :: (s.skipped ++ .symbol name :: s.operands)),
          Mode.nonStrict.environment)) ∧
    (s.missing = [] → ∀ e, strictStep (.symbol name) s.operands = .error e →
      (∃ reached, runWithin s.skipped.length (.quotation (.symbol name :: code) :: data)
          Mode.nonStrict.environment = (.ok reached, Mode.nonStrict.environment)) ∧
        runWithin (s.skipped.length + 1) (.quotation (.symbol name :: code) :: data)
          Mode.nonStrict.environment = (.error e, Mode.nonStrict.environment)) := by
  obtain ⟨op, hw, heq⟩ := lenient_cases hf
  cases heq
  have hfits := select_fits false op.inputs data
  have hperm := select_perm false op.inputs data hs
  rw [hs] at hfits
  have hreach := runWithin_select hw (List.nil_append op.inputs).symm .nil hdata code hs
  rw [List.nil_append, List.nil_append] at hreach
  have hfound : NoContinuation (s.operands ++ s.beneath) := by
    intro c hc
    have hsub := (List.sublist_append_right s.skipped s.beneath).append_left s.operands
    exact hdata c (hperm.subset (hsub.subset hc))
  have hskipped : ∀ c ∈ s.skipped.reverse, Mode.nonStrict.environment.lookup c = none := by
    intro c hc
    refine hlookup c (hperm.subset (List.mem_append_right _ (List.mem_append_left _ ?_)))
    exact List.mem_reverse.mp hc
  -- after the step of the word itself, the cells that were passed over are pushed again
  have hends : ∀ left, step (.quotation (.symbol name :: (s.skipped.reverse ++ code)) ::
      (s.operands ++ s.beneath)) Mode.nonStrict.environment =
        (.ok (.quotation (s.skipped.reverse ++ code) :: left), Mode.nonStrict.environment) →
      runWithin (2 * s.skipped.length + 1) (.quotation (.symbol name :: code) :: data)
          Mode.nonStrict.environment =
        (.ok (.quotation code :: (s.skipped ++ left)), Mode.nonStrict.environment) := by
    intro left hleft
    have hpush := runWithin_push hskipped code left
    rw [List.length_reverse, List.reverse_reverse] at hpush
    have hsteps : 2 * s.skipped.length + 1 = s.skipped.length + (s.skipped.length + 1) := by omega
    rw [hsteps, runWithin_add _ _ hreach, runWithin_succ_ok _ rfl hleft, hpush]
  refine ⟨fun hnone results hresults => ?_, fun hmissing => ?_, fun hnone e herror => ?_⟩
  · have hstep := step_found hw hfits hnone hfound (s.skipped.reverse ++ code)
    rw [hresults] at hstep
    exact hends _ hstep
  · have hbeneath := hfits.exhausted hmissing
    rw [hbeneath, List.append_nil] at hfound hends
    exact hends _ (step_missing hw hfits hmissing hfound _)
  · have hstep := step_found hw hfits hnone hfound (s.skipped.reverse ++ code)
    rw [herror] at hstep
    refine ⟨⟨_, hreach⟩, ?_⟩
    rw [runWithin_add _ 1 hreach]
    exact runWithin_succ_error 0 rfl hstep

/-- The three outcomes on `y 6 0 x`: the difference passes over `x`, the rotation lacks an operand
and passes over both symbols, and the quotient fails. -/
theorem lenient_word_searches_past_symbol :
    let data : Stack := [.symbol "x", .int 0, .int 6, .symbol "y"]
    runWithin 3 (.quotation [.symbol "-", .symbol "dup"] :: data) Mode.nonStrict.environment =
        (.ok [.quotation [.symbol "dup"], .symbol "x", .int 6, .symbol "y"],
          Mode.nonStrict.environment) ∧
      runWithin 5 (.quotation [.symbol "rot"] :: data) Mode.nonStrict.environment =
        (.ok [.quotation [], .symbol "x", .symbol "y", .symbol "rot", .int 0, .int 6],
          Mode.nonStrict.environment) ∧
      runWithin 2 (.quotation [.symbol "/"] :: data) Mode.nonStrict.environment =
        (.error .divisionByZero, Mode.nonStrict.environment) := by
  intro data
  have hdifference : Vocabulary.lenient.get? "-" =
      some (.checked [.num, .num] false (.strict "-" .sub)) := rfl
  have hrotation : Vocabulary.lenient.get? "rot" =
      some (.checked [.any, .any, .any] false (.strict "rot" .rot)) := rfl
  have hquotient : Vocabulary.lenient.get? "/" =
      some (.checked [.num, .num] false (.strict "/" .div)) := rfl
  have hlookup : ∀ c ∈ data, Mode.nonStrict.environment.lookup c = none := by
    simp only [data, List.forall_mem_cons]
    exact ⟨rfl, rfl, rfl, rfl, nofun⟩
  have hdata : NoContinuation data := by
    simp only [data, NoContinuation, List.forall_mem_cons]
    exact ⟨nofun, nofun, nofun, nofun, nofun⟩
  refine ⟨?_, ?_, ?_⟩
  · exact (lenient_word_searches hdifference hlookup hdata [.symbol "dup"] rfl).1 rfl [.int 6] rfl
  · exact (lenient_word_searches hrotation hlookup hdata [] rfl).2.1 (List.cons_ne_nil _ _)
  · exact ((lenient_word_searches hquotient hlookup hdata [] rfl).2.2 rfl .divisionByZero rfl).2

end Restack
