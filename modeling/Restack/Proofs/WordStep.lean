import Restack.Proofs.Check
import Restack.Proofs.StrictRun

/-!
# One step of a checked word

In the lenient and the recording vocabulary a word stands behind an operand check. What
one step does then follows from the finding of the check: the word is left on the data,
goes back into the code with the cells it has to skip, or is applied. A recorder is only
ever handed as many operands as it asks for, so it does not fail.

## Main definitions

* `Cell.IsTame` — the cells that such runs have in their code and on their data.

## Main results

* `Cell.IsTame.word_or_lookup` — a tame cell is a word, or nothing that is looked up.
* `apply_recording` — what a recorder behind its check leaves.
* `step_lenient_word`, `step_recording` — what a word does, by the finding of its check.
* `runWithin_skip` — a lenient word skips cells one at a time.
-/

namespace Restack

variable {name : String} {op : Primitive} {data : Stack} {code : List Cell}

/-- A cell of a program, or one that stands in for a recorded computation. -/
inductive Cell.IsTame : Cell → Prop
  /-- A literal, a free symbol or a word. -/
  | plain {c : Cell} (h : c.IsPlain) : Cell.IsTame c
  /-- A record. -/
  | defer (record : List Cell) (result : Option TypeTag) : Cell.IsTame (.defer record result)
  /-- A dummy. -/
  | dummy (tag : TypeTag) : Cell.IsTame (.dummy tag)

theorem Cell.IsPlain.ne_continuation {c : Cell} (h : c.IsPlain) (code : List Cell) :
    c ≠ .continuation code := by
  rintro rfl
  cases h with
  | inert h =>
    cases h with
    | literal h => cases h

/-- Tame cells never ask to be run. -/
theorem noContinuation_of_tame (h : ∀ c ∈ data, c.IsTame) : NoContinuation data := by
  intro c hc code hcode
  subst hcode
  cases h _ hc with
  | plain hp => exact hp.ne_continuation code rfl

/-- Plain cells never ask to be run. -/
theorem noContinuation_of_plain (h : ∀ c ∈ data, c.IsPlain) : NoContinuation data :=
  noContinuation_of_tame fun c hc => .plain (h c hc)

/-! ### Cells that are no word -/

/-- A tame cell is a word, or nothing that any vocabulary knows. -/
theorem Cell.IsTame.word_or_lookup {c : Cell} (h : c.IsTame) :
    (∃ name op, IsWord name op ∧ c = .symbol name) ∨
      ∀ mode : Mode, mode.environment.lookup c = none := by
  cases h with
  | plain hp =>
    cases hp with
    | inert hi => exact .inr hi.lookup
    | word hw => exact .inl ⟨_, _, hw, rfl⟩
  | defer record result => exact .inr fun _ => rfl
  | dummy tag => exact .inr fun _ => rfl

/-! ### Words in the lenient vocabulary -/

/-- The state after a lenient word, by the finding of its check. -/
def lenientNext (name : String) (op : Primitive) (code : List Cell) (data : Stack) :
    Examination → Except EngineError Stack
  | .exhausted => .ok (.quotation code :: .symbol name :: data)
  | .rejected popped cell _ rest =>
    .ok (.quotation (.symbol name :: cell :: code) :: (popped ++ rest))
  | .accepted _ _ => ((op.action name).apply name data).map (.quotation code :: ·)

theorem step_lenient_word (hw : IsWord name op) (hdata : NoContinuation data)
    (code : List Cell) :
    step (.quotation (.symbol name :: code) :: data) Mode.nonStrict.environment =
      (lenientNext name op code data (examine false op.inputs data),
        Mode.nonStrict.environment) := by
  have hlook : Mode.nonStrict.environment.lookup (.symbol name) =
      some (.checked op.inputs false (.strict name op)) := hw.resolve_lenient
  simp only [step, hlook, Instruction.apply]
  cases examine false op.inputs data with
  | exhausted => rfl
  | rejected popped cell required rest =>
    simp [retryBeneath, partsDummy, splice, continuation?, lenientNext, Instruction.name]
  | accepted popped rest =>
    simp only [lenientNext, Bool.false_eq_true, if_false]
    cases hr : (op.action name).apply name data with
    | error e => rfl
    | ok data' =>
      -- the results hold no continuation, so the code goes on as it is
      have hstrict : strictStep (.symbol name) data = .ok data' := by
        rw [strictStep_word hw, hr]
      have hnext := noContinuation_strictStep (.word hw) hdata hstrict
      simp only [splice_noContinuation hnext, Except.map]

/-- A lenient word skips cells one at a time. -/
theorem runWithin_skip (hw : IsWord name op) {met missing : List TypeTag}
    {required : TypeTag} (hinputs : op.inputs = met ++ required :: missing) {us skipped ws : Stack}
    (hus : List.Forall₂ (fun required v => v.meets false required = true) met us)
    (hskipped : ∀ v ∈ skipped, v.meets false required = false)
    (hdata : NoContinuation (us ++ (skipped ++ ws))) (code : List Cell) :
    runWithin skipped.length (.quotation (.symbol name :: code) :: (us ++ (skipped ++ ws)))
        Mode.nonStrict.environment =
      (.ok (.quotation (.symbol name :: (skipped.reverse ++ code)) :: (us ++ ws)),
        Mode.nonStrict.environment) := by
  induction skipped generalizing code with
  | nil => rfl
  | cons v skipped ih =>
    have hexamine : examine false op.inputs (us ++ (v :: skipped ++ ws)) =
        .rejected us v required (skipped ++ ws) := by
      rw [hinputs]
      exact examine_rejected hus (hskipped v List.mem_cons_self)
    have hstep := step_lenient_word hw hdata code
    rw [hexamine, lenientNext] at hstep
    have hdata' : NoContinuation (us ++ (skipped ++ ws)) := by
      intro c hc
      refine hdata c ?_
      rcases List.mem_append.mp hc with hc | hc
      · exact List.mem_append_left _ hc
      · exact List.mem_append_right _ (List.mem_cons_of_mem v hc)
    rw [List.length_cons, runWithin_succ_ok _ rfl hstep,
      ih (fun u hu => hskipped u (List.mem_cons_of_mem v hu)) hdata']
    simp

/-! ### Words in the recording vocabulary -/

/-- The state after a recording word, by the finding of its check. -/
def recordingNext (name : String) (op : Primitive) (code : List Cell) (data : Stack) :
    Examination → Stack
  | .exhausted => .quotation code :: .symbol name :: data
  | .rejected popped cell _ rest =>
    if partsDummy true op.inputs cell (skippedDummies true cell rest) then
      .quotation code :: .symbol name :: data
    else
      .quotation (.symbol name :: ((skippedDummies true cell rest).reverse ++ cell :: code)) ::
        (popped ++ rest.drop (skippedDummies true cell rest).length)
  | .accepted popped rest =>
    .quotation code :: (record name (operandsOf true popped) op.outputs ++
      (popped.filter Cell.leavesNothing ++ rest))

/-- The operands that a check accepts are as many as it asks for. -/
theorem length_operands {acceptDeferred : Bool} {inputs : List TypeTag} {popped : List Cell}
    (h : Meet acceptDeferred inputs popped) :
    (operandsOf acceptDeferred popped).length = inputs.length :=
  h.length_eq.symm

theorem recordInvocation_operands {operands : List Cell} {arity : Nat}
    (h : operands.length = arity) (name : String) (outputs : List OutputType) :
    recordInvocation name arity outputs operands = .ok (record name operands outputs) := by
  subst h
  simp [recordInvocation]

/-- The data after a recorder behind its check, by the finding of the check. -/
def recordedData (name : String) (inputs : List TypeTag) (outputs : List OutputType)
    (data : Stack) : Examination → Stack
  | .exhausted => .symbol name :: data
  | .rejected popped cell _ rest => retryBeneath name true inputs popped cell rest
  | .accepted popped rest =>
    record name (operandsOf true popped) outputs ++ (popped.filter Cell.leavesNothing ++ rest)

/-- A recorder behind its check does not fail, and leaves the environment as it is. -/
theorem apply_recording (name : String) (inputs : List TypeTag) (outputs : List OutputType)
    (data : Stack) (env : Environment) :
    (Instruction.recording name inputs outputs).apply data env =
      (.ok (recordedData name inputs outputs data (examine true inputs data)), env) := by
  have hfits := examine_fits true inputs data
  simp only [Instruction.recording, Instruction.apply]
  cases he : examine true inputs data with
  | exhausted => rfl
  | rejected popped cell required rest => rfl
  | accepted popped rest =>
    obtain ⟨-, hmeet⟩ := he ▸ hfits
    have hrec := recordInvocation_operands (length_operands hmeet) name outputs
    have hops : (popped.filter fun c => !c.leavesNothing) = operandsOf true popped := rfl
    simp only [if_true, hops, hrec, restoreOver, recordedData]

/-- What a recorder behind its check does, whatever else the environment knows. -/
theorem step_recording {env : Environment} {c : Cell}
    (hlook : env.lookup c = some (.recording name op.inputs op.outputs)) (code : List Cell)
    (data : Stack) :
    step (.quotation (c :: code) :: data) env =
      (.ok (recordingNext name op code data (examine true op.inputs data)), env) := by
  have hfits := examine_fits true op.inputs data
  rw [step_apply hlook, apply_recording]
  cases he : examine true op.inputs data with
  | exhausted => rfl
  | rejected popped cell required rest =>
    obtain ⟨hdata, -⟩ := he ▸ hfits
    simp only [recordingNext, recordedData, retryBeneath]
    split
    · simp only [Except.map, splice, continuation?, ← hdata]
    · simp [Except.map, splice, continuation?]
  | accepted popped rest => rfl

theorem step_recording_word (hw : IsWord name op) (code : List Cell) (data : Stack) :
    step (.quotation (.symbol name :: code) :: data) Mode.reorder.environment =
      (.ok (recordingNext name op code data (examine true op.inputs data)),
        Mode.reorder.environment) := by
  have hlook : Mode.reorder.environment.lookup (.symbol name) =
      some (.recording name op.inputs op.outputs) := hw.resolve_recording
  exact step_recording hlook code data

end Restack
