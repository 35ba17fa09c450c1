import Restack.Proofs.Prediction

/-!
# Recording in step with the lenient run

Arithmetic, comparison and logic leave one result each. A program that uses no other words
makes no dummies and no records without a result, so its recording run goes step by step
with its lenient run: wherever the lenient run has a cell, on the data or among the cells
to be pushed again, the recording run has the same cell or a record whose replay leaves
it. A word that fails in the lenient run is recorded all the same, and the replay of its
record fails in the same way.

## Main definitions

* `Cell.IsArithmetic` — the cells of such a program.
* `Replays`, `ReplayFails` — what the strict run of code on empty data comes to.
* `Matches` — a cell of the recording run in the place of a cell of the lenient run.
* `Paces` — the same, as the steps keep it: a cell that mirrors a value, or a word.

## Main results

* `examine_alike` — both checks find the same.
* `replayFails_record`, `mirrors_record` — the replay of a word that fails, and of one that
  does not.
* `step_lockstep`, `runWithin_lockstep` — a step and a run of both.
* `recording_in_lockstep` — how the two runs compare, step by step.
-/

namespace Restack

variable {code code' popped us rest ws : List Cell} {data values : Stack} {name : String}
  {op : Primitive}

/-! ### Programs of arithmetic -/

/-- A cell of a program: a literal, a symbol that no table knows, or a word of arithmetic, comparison
or logic. -/
inductive Cell.IsArithmetic : Cell → Prop
  /-- A literal, or a symbol that no table knows. -/
  | inert {c : Cell} (h : c.IsInert) : Cell.IsArithmetic c
  /-- A word of arithmetic, comparison or logic. -/
  | word {name : String} {op : Primitive} (h : (name, op) ∈ Vocabulary.arithmeticWords) :
    Cell.IsArithmetic (.symbol name)

theorem isWord_of_arithmetic (h : (name, op) ∈ Vocabulary.arithmeticWords) : IsWord name op :=
  isWord_iff.mpr (List.mem_append_left _ h)

theorem Cell.IsArithmetic.plain {c : Cell} (h : c.IsArithmetic) : c.IsPlain := by
  cases h with
  | inert h => exact .inert h
  | word h => exact .word (isWord_of_arithmetic h)

/-- Such a word has one result. -/
theorem exists_output_of_arithmetic (h : (name, op) ∈ Vocabulary.arithmeticWords) :
    ∃ output, op.outputs = [output] := by
  simp only [Vocabulary.arithmeticWords, List.mem_cons, Prod.mk.injEq, List.not_mem_nil,
    or_false] at h
  rcases h with ⟨-, rfl⟩ | ⟨-, rfl⟩ | ⟨-, rfl⟩ | ⟨-, rfl⟩ | ⟨-, rfl⟩ | ⟨-, rfl⟩ | ⟨-, rfl⟩ |
    ⟨-, rfl⟩ | ⟨-, rfl⟩ <;> exact ⟨_, rfl⟩

/-! ### The strict run of a record -/

/-- The strict run of the code on empty data halts with the given cell as its only datum. -/
def Replays (code : List Cell) (v : Cell) : Prop :=
  ∃ n, runWithin n [.quotation code] Mode.strict.environment =
    (.ok [.quotation [], v], Mode.strict.environment)

/-- The strict run of the code on empty data fails. -/
def ReplayFails (code : List Cell) (e : EngineError) : Prop :=
  ∃ n, runWithin n [.quotation code] Mode.strict.environment =
    (.error e, Mode.strict.environment)

/-- The machine runs a program on empty data as `strictRun` does. -/
theorem runWithin_strict_nil (h : ∀ c ∈ code, c.IsPlain) :
    runWithin code.length [.quotation code] Mode.strict.environment =
      ((strictRun code []).map (.quotation [] :: ·), Mode.strict.environment) :=
  runWithin_strict h (fun c (hc : c ∈ ([] : Stack)) => nomatch hc) le_rfl

/-- A cell of the recording run in the place of a cell of the lenient run: the same cell, or a record
whose flattened code leaves that cell. -/
def Matches (c v : Cell) : Prop :=
  c = v ∨ ∃ record result, c = .defer record result ∧ Replays (flattenRecord record) v

/-! ### Cells in step -/

/-- A cell that mirrors a value and is no dummy, or one of the words in both places. -/
inductive Paces : Cell → Cell → Prop
  /-- A literal, a free symbol or a record. -/
  | mirrors {c v : Cell} (hdummy : c.isDummy = false) (h : Mirrors [c] [v]) : Paces c v
  /-- A word. -/
  | word {name : String} {op : Primitive} (h : (name, op) ∈ Vocabulary.arithmeticWords) :
    Paces (.symbol name) (.symbol name)

/-- A cell that mirrors one value counts as one, and stands for it. -/
theorem Mirrors.stands_single {c v : Cell} (h : Mirrors [c] [v]) :
    c.steppedOver true = false ∧ Stands c v := by
  have hstands := h.stands
  cases hover : c.steppedOver true with
  | true =>
    rw [operandsOf_cons_stepped hover] at hstands
    cases hstands
  | false =>
    rw [operandsOf_cons hover] at hstands
    cases hstands with
    | cons hcv _ => exact ⟨rfl, hcv⟩

namespace Paces

variable {c v : Cell}

theorem foretells (h : Paces c v) : Foretells c v := by
  cases h with
  | mirrors hdummy h => exact h.stands_single.2.foretells
  | word h => exact .same (.word (isWord_of_arithmetic h))

theorem not_leavesNothing (h : Paces c v) : c.leavesNothing = false := by
  cases h with
  | mirrors hdummy h => simpa [Cell.steppedOver] using h.stands_single.1
  | word h => rfl

theorem not_isDummy (h : Paces c v) : c.isDummy = false := by
  cases h with
  | mirrors hdummy h => exact hdummy
  | word h => rfl

/-- Cells in step are the same, or a record and what its replay leaves. -/
theorem toMatches (h : Paces c v) : Matches c v := by
  cases h with
  | word h => exact .inl rfl
  | mirrors hdummy h =>
    have hstands := h.stands_single.2
    cases h.settled c List.mem_cons_self with
    | inert hi =>
      cases hstands with
      | same _ => exact .inl rfl
      | deferred hd _ _ =>
        rw [hi.not_isDeferred] at hd
        cases hd
    | @defer record result hplain =>
      have hreplay : replayCode [.defer record result] = flattenRecord record := by
        rw [replayCode_cons, replayCode_nil, List.nil_append, Cell.flatten, flattenRecord]
      have hruns := h.replays
      rw [hreplay] at hruns
      have hrun := runWithin_strict_nil hplain
      rw [← flattenRecord, hruns] at hrun
      exact .inr ⟨record, result, rfl, _, hrun⟩
    | dummy tag => cases hdummy

/-- A cell of a program is in step with itself. -/
theorem self (h : c.IsArithmetic) : Paces c c := by
  cases h with
  | word h => exact .word h
  | inert hi =>
    refine .mirrors ?_ (Mirrors.inert hi)
    have hnot := hi.not_isDeferred
    cases c with
    | dummy tag => cases hnot
    | _ => rfl

end Paces

/-- Cells in step, none of them a word, mirror the values in their places. -/
theorem mirrors_of_paces (h : List.Forall₂ Paces popped us)
    (hword : ∀ c ∈ popped, c.isWord = false) : Mirrors popped us := by
  induction h with
  | nil => exact .nil
  | @cons c v popped us hcv _ ih =>
    have hrest := ih fun d hd => hword d (List.mem_cons_of_mem c hd)
    cases hcv with
    | mirrors hdummy hc => exact hc.append hrest
    | word harith =>
      have hc := hword _ List.mem_cons_self
      rw [(isWord_of_arithmetic harith).isWord] at hc
      cases hc

theorem leavesNothing_of_paces (h : List.Forall₂ Paces data values) :
    ∀ c ∈ data, c.leavesNothing = false := by
  induction h with
  | nil => exact fun c hc => nomatch hc
  | cons hcv _ ih =>
    intro c hc
    rcases List.mem_cons.mp hc with rfl | hc
    · exact hcv.not_leavesNothing
    · exact ih c hc

/-! ### Cells that all leave a value -/

section Leaves

variable (h : ∀ c ∈ popped, c.leavesNothing = false)

include h

theorem operandsOf_of_leaves : operandsOf true popped = popped := by
  refine List.filter_eq_self.mpr fun c hc => ?_
  rw [Cell.steppedOver, h c hc]
  rfl

theorem filter_of_leaves : popped.filter Cell.leavesNothing = [] :=
  List.filter_eq_nil_iff.mpr fun c hc => by simp [h c hc]

/-- Cells that all leave a value are passed by nothing. -/
theorem crossable_of_leaves : crossable [] popped = true := by
  induction popped with
  | nil => rfl
  | cons c popped ih =>
    rw [crossable, if_neg (by simp [h c List.mem_cons_self]),
      ih fun d hd => h d (List.mem_cons_of_mem c hd)]
    simp [show standsAlone [] = true from rfl]

end Leaves

/-- Cells in step foretell the values in their places. -/
theorem foretell_of_paces (h : List.Forall₂ Paces data values) : Foretell data values := by
  rw [Foretell, operandsOf_of_leaves (leavesNothing_of_paces h)]
  exact h.imp fun _ _ hcv => hcv.foretells

/-! ### Both checks find the same -/

/-- Two findings with related cells in the same places. -/
inductive Examination.Alike (R : Cell → Cell → Prop) : Examination → Examination → Prop
  /-- Both accept. -/
  | accepted {popped us rest ws : List Cell} (hpopped : List.Forall₂ R popped us)
    (hrest : List.Forall₂ R rest ws) : Alike R (.accepted popped rest) (.accepted us ws)
  /-- Both run out of data. -/
  | exhausted : Alike R .exhausted .exhausted
  /-- Both reject. -/
  | rejected {popped us rest ws : List Cell} {c v : Cell} {required : TypeTag}
    (hpopped : List.Forall₂ R popped us) (hcv : R c v) (hrest : List.Forall₂ R rest ws) :
    Alike R (.rejected popped c required rest) (.rejected us v required ws)

theorem Examination.Alike.beneath {R : Cell → Cell → Prop} {e e' : Examination} (h : e.Alike R e')
    {c v : Cell} (hcv : R c v) : (e.beneath c).Alike R (e'.beneath v) := by
  cases h with
  | accepted hpopped hrest => exact .accepted (.cons hcv hpopped) hrest
  | exhausted => exact .exhausted
  | rejected hpopped hcell hrest => exact .rejected (.cons hcv hpopped) hcell hrest

/-- **On cells in step, a check that accepts records finds what one that does not finds.** -/
theorem examine_alike (inputs : List TypeTag) (h : List.Forall₂ Paces data values) :
    (examine true inputs data).Alike Paces (examine false inputs values) := by
  induction h generalizing inputs with
  | nil =>
    cases inputs with
    | nil => exact .accepted .nil .nil
    | cons required inputs => exact .exhausted
  | @cons c v data values hcv hrest ih =>
    cases inputs with
    | nil => exact .accepted .nil (.cons hcv hrest)
    | cons required inputs =>
      have hover : c.steppedOver true = false := by
        rw [Cell.steppedOver, hcv.not_leavesNothing]
        rfl
      have htrue : examine true (required :: inputs) (c :: data) =
          if c.meets true required then (examine true inputs data).beneath c
          else .rejected [] c required data := by
        rw [examine, if_neg (by simp [hover])]
      have hfalse : examine false (required :: inputs) (v :: values) =
          if v.meets false required then (examine false inputs values).beneath v
          else .rejected [] v required values := by
        rw [examine, if_neg (by simp [Cell.steppedOver])]
      rw [htrue, hfalse, hcv.foretells.meets_eq]
      split
      · exact (ih inputs).beneath hcv
      · exact .rejected .nil hcv hrest

/-! ### A word in both runs -/

/-- No cells are skipped along with one that is rejected. -/
theorem skippedDummies_of_paces (cell : Cell) (h : List.Forall₂ Paces rest ws) :
    skippedDummies true cell rest = [] := by
  have hgroup : dummyGroup rest = [] := by
    cases h with
    | nil => rfl
    | cons hcv _ => simp [dummyGroup, hcv.not_isDummy, hcv.not_leavesNothing]
  cases cell with
  | defer record result => exact hgroup
  | _ => rfl

/-- Both runs make a step, after which they are in step again. -/
def KeepsPace (code : List Cell) (data : Stack) (code' : List Cell) (values : Stack) : Prop :=
  ∃ code₁ data₁ code₁' values₁,
    step (.quotation code :: data) Mode.reorder.environment =
      (.ok (.quotation code₁ :: data₁), Mode.reorder.environment) ∧
    step (.quotation code' :: values) Mode.nonStrict.environment =
      (.ok (.quotation code₁' :: values₁), Mode.nonStrict.environment) ∧
    List.Forall₂ Paces code₁ code₁' ∧ List.Forall₂ Paces data₁ values₁

/-- The next step fails in the lenient run. In the recording run it leaves a record whose replay
fails in the same way. -/
def FailsOnReplay (code : List Cell) (data : Stack) (code' : List Cell) (values : Stack) : Prop :=
  ∃ e name operands rest later result, code = .symbol name :: later ∧ data = operands ++ rest ∧
    step (.quotation code :: data) Mode.reorder.environment =
      (.ok (.quotation later :: .defer (operands.reverse ++ [.symbol name]) result :: rest),
        Mode.reorder.environment) ∧
    step (.quotation code' :: values) Mode.nonStrict.environment =
      (.error e, Mode.nonStrict.environment) ∧
    ReplayFails (flattenRecord (operands.reverse ++ [.symbol name])) e

/-- A word without enough operands is left on the data by both runs. -/
theorem leave_lockstep (harith : (name, op) ∈ Vocabulary.arithmeticWords)
    (hcode : List.Forall₂ Paces code code') (hdata : List.Forall₂ Paces data values)
    (he : examine true op.inputs data = .exhausted)
    (he' : examine false op.inputs values = .exhausted) :
    KeepsPace (.symbol name :: code) data (.symbol name :: code') values := by
  have hw := isWord_of_arithmetic harith
  have hstep := step_recording_word hw code data
  have hlenient := step_lenient_word hw (foretell_of_paces hdata).noContinuation code'
  rw [he, recordingNext] at hstep
  rw [he', lenientNext] at hlenient
  exact ⟨_, _, _, _, hstep, hlenient, hcode, .cons (.word harith) hdata⟩

/-- A word that skips skips one cell in both runs. -/
theorem skip_lockstep (harith : (name, op) ∈ Vocabulary.arithmeticWords)
    (hcode : List.Forall₂ Paces code code') (hdata : List.Forall₂ Paces data values)
    {cell v : Cell} {required : TypeTag}
    (he : examine true op.inputs data = .rejected popped cell required rest)
    (he' : examine false op.inputs values = .rejected us v required ws)
    (hpopped : List.Forall₂ Paces popped us) (hcell : Paces cell v)
    (hrest : List.Forall₂ Paces rest ws) :
    KeepsPace (.symbol name :: code) data (.symbol name :: code') values := by
  have hw := isWord_of_arithmetic harith
  have hstep := step_recording_word hw code data
  have hlenient := step_lenient_word hw (foretell_of_paces hdata).noContinuation code'
  have hparts : partsDummy true op.inputs cell [] = false := by
    simp [partsDummy, hcell.not_isDummy]
  rw [he, recordingNext, skippedDummies_of_paces cell hrest, if_neg (by simp [hparts])] at hstep
  rw [he', lenientNext] at hlenient
  exact ⟨_, _, _, _, hstep, hlenient, .cons (.word harith) (.cons hcell hcode),
    forall₂_append hpopped hrest⟩

/-- A record is replayed as its operands and then its word. -/
theorem flattenRecord_concat (name : String) (popped : List Cell) :
    flattenRecord (popped.reverse ++ [.symbol name]) = replayCode popped ++ [.symbol name] := by
  rw [flattenRecord, Cell.flattenList_append, Cell.flattenList_singleton, replayCode,
    Cell.flatten] <;> simp

/-- A word that fails on the values that its operands mirror fails in the replay of its record. -/
theorem replayFails_record (hw : IsWord name op) (h : Mirrors popped us) {e : EngineError}
    (hr : (op.action name).apply name us = .error e) :
    ReplayFails (flattenRecord (popped.reverse ++ [.symbol name])) e := by
  have hplain : ∀ d ∈ replayCode popped ++ [.symbol name], d.IsPlain := by
    intro d hd
    rcases List.mem_append.mp hd with hd | hd
    · exact plain_replayCode h.settled d hd
    · rw [List.mem_singleton.mp hd]
      exact .word hw
  have hfails : strictRun (replayCode popped ++ [.symbol name]) [] = .error e := by
    rw [strictRun_append_ok h.replays, strictRun_cons, strictStep_word hw, hr]
    rfl
  have hrun := runWithin_strict_nil hplain
  rw [hfails] at hrun
  exact ⟨_, by rw [flattenRecord_concat]; exact hrun⟩

/-- The record of a word with one result mirrors that result. -/
theorem mirrors_record (hw : IsWord name op) {output : OutputType} (hout : op.outputs = [output])
    (h : Mirrors popped us) (hmeet : Meet true op.inputs popped)
    (hnothing : ∀ c ∈ popped, c.leavesNothing = false) {results : Stack}
    (hr : (op.action name).apply name us = .ok results) :
    ∃ v, results = [v] ∧
      Mirrors [.defer (popped.reverse ++ [.symbol name]) (output.resolve popped)] [v] := by
  have hall := operandsOf_of_leaves hnothing
  have hlen : us.length = op.inputs.length := by
    rw [← h.stands.length_eq, length_operands hmeet]
  have htyped := hw.results_typed hlen (valueType_of_stands hmeet h.stands) hr
  have hone : results.length = 1 := by
    simpa [hout] using congrArg List.length htyped
  obtain ⟨v, rfl⟩ := List.length_eq_one_iff.mp hone
  have hbare : Mirrors (popped ++ []) (us ++ []) := by rwa [List.append_nil, List.append_nil]
  have hrecord := hbare.record hw h.stands .nil hmeet (crossable_of_leaves hnothing) hr
  rw [hall, hout, filter_of_leaves hnothing, List.append_nil, List.append_nil] at hrecord
  exact ⟨v, rfl, hrecord⟩

/-- A word that is recorded is applied by the lenient run to the values that its operands mirror. -/
theorem apply_lockstep (harith : (name, op) ∈ Vocabulary.arithmeticWords)
    (hcode : List.Forall₂ Paces code code') (hdata : List.Forall₂ Paces data values)
    (he : examine true op.inputs data = .accepted popped rest)
    (he' : examine false op.inputs values = .accepted us ws)
    (hpopped : List.Forall₂ Paces popped us) (hrest : List.Forall₂ Paces rest ws) :
    FailsOnReplay (.symbol name :: code) data (.symbol name :: code') values ∨
      KeepsPace (.symbol name :: code) data (.symbol name :: code') values := by
  have hw := isWord_of_arithmetic harith
  have hfits := examine_fits true op.inputs data
  have hfits' := examine_fits false op.inputs values
  rw [he] at hfits
  rw [he'] at hfits'
  obtain ⟨hsplit, hmeet⟩ := hfits
  -- every cell that was looked at is an operand, and none is moved
  have hnothing := leavesNothing_of_paces hpopped
  have hall := operandsOf_of_leaves hnothing
  have hmirrors : Mirrors popped us :=
    mirrors_of_paces hpopped fun c hc => isWord_of_mem_operands hmeet (by rwa [hall])
  obtain ⟨output, hout⟩ := exists_output_of_arithmetic harith
  have hstep := step_recording_word hw code data
  rw [he, recordingNext, hall, filter_of_leaves hnothing, List.nil_append, hout] at hstep
  have hlen : us.length = (op.action name).inputs.length := by
    rw [← hpopped.length_eq, hw.length_inputs_action, ← length_operands hmeet, hall]
  have hlenient := step_lenient_word hw (foretell_of_paces hdata).noContinuation code'
  rw [he', lenientNext, hfits'.1, Action.apply_append _ hlen] at hlenient
  rw [hfits'.1]
  cases hr : (op.action name).apply name us with
  | error e =>
    rw [hr] at hlenient
    exact .inl ⟨e, name, popped, rest, code, output.resolve popped, rfl, hsplit, hstep, hlenient,
      replayFails_record hw hmirrors hr⟩
  | ok results =>
    rw [hr] at hlenient
    obtain ⟨v, rfl, hv⟩ := mirrors_record hw hout hmirrors hmeet hnothing hr
    exact .inr ⟨_, _, _, _, hstep, hlenient, hcode, .cons (.mirrors rfl hv) hrest⟩

/-- **A step of both runs**, unless it fails in the lenient run. -/
theorem step_lockstep {c v : Cell} (hcv : Paces c v) (hcode : List.Forall₂ Paces code code')
    (hdata : List.Forall₂ Paces data values) :
    FailsOnReplay (c :: code) data (v :: code') values ∨
      KeepsPace (c :: code) data (v :: code') values := by
  cases hcv with
  | mirrors hdummy h =>
    have hpush := step_push ((h.settled c List.mem_cons_self).lookup .reorder) code data
    have hpush' := step_push (h.stands_single.2.inert.lookup .nonStrict) code' values
    exact .inr ⟨_, _, _, _, hpush, hpush', hcode, .cons (.mirrors hdummy h) hdata⟩
  | @word name op harith =>
    have halike := examine_alike op.inputs hdata
    cases he : examine true op.inputs data with
    | exhausted =>
      cases he' : examine false op.inputs values with
      | exhausted => exact .inr (leave_lockstep harith hcode hdata he he')
      | _ => rw [he, he'] at halike; cases halike
    | rejected popped cell required rest =>
      cases he' : examine false op.inputs values with
      | rejected us v required' ws =>
        rw [he, he'] at halike
        cases halike with
        | rejected hpopped hcell hrest =>
          exact .inr (skip_lockstep harith hcode hdata he he' hpopped hcell hrest)
      | _ => rw [he, he'] at halike; cases halike
    | accepted popped rest =>
      cases he' : examine false op.inputs values with
      | accepted us ws =>
        rw [he, he'] at halike
        cases halike with
        | accepted hpopped hrest => exact apply_lockstep harith hcode hdata he he' hpopped hrest
      | _ => rw [he, he'] at halike; cases halike

/-! ### Both runs -/

/-- **The two runs go step by step**, as long as the lenient one does not fail. -/
theorem runWithin_lockstep (n : Nat) {s : Stack} (hcode : List.Forall₂ Paces code code')
    (hdata : List.Forall₂ Paces data values)
    (h : runWithin n (.quotation code' :: values) Mode.nonStrict.environment =
      (.ok s, Mode.nonStrict.environment)) :
    ∃ code₁ data₁ code₁' values₁, s = .quotation code₁' :: values₁ ∧
      runWithin n (.quotation code :: data) Mode.reorder.environment =
        (.ok (.quotation code₁ :: data₁), Mode.reorder.environment) ∧
      List.Forall₂ Paces code₁ code₁' ∧ List.Forall₂ Paces data₁ values₁ := by
  induction n generalizing code data code' values with
  | zero =>
    cases h
    exact ⟨code, data, code', values, rfl, rfl, hcode, hdata⟩
  | succ n ih =>
    cases hcode with
    | nil =>
      rw [runWithin_halted _ _ rfl] at h
      cases h
      exact ⟨[], data, [], values, rfl, runWithin_halted _ _ rfl, .nil, hdata⟩
    | cons hcv hcode =>
      rcases step_lockstep hcv hcode hdata with
        ⟨e, _, _, _, _, _, -, -, -, herr, -⟩ | ⟨_, _, _, _, hstep, hlenient, hcode₁, hdata₁⟩
      · rw [runWithin_succ_error n rfl herr] at h
        cases h
      · rw [runWithin_succ_ok n rfl hlenient] at h
        rw [runWithin_succ_ok n rfl hstep]
        exact ih hcode₁ hdata₁ h

/-- **A recording run of arithmetic is in step with the lenient run.** Take a program of literals,
free symbols and words of arithmetic, comparison and logic. If some steps of its lenient run succeed,
so do as many of its recording run, and code and data of the two are equally long, with the same
cell in each place or a record whose flattened code, run strictly on empty data, leaves just the cell
in that place. If the next step of the lenient run fails, the next step of the recording run leaves
a record of that word and its operands, and the flattened code of this record, run strictly on empty
data, fails in the same way. -/
theorem recording_in_lockstep {program : List Cell} (hprogram : ∀ c ∈ program, c.IsArithmetic)
    {n : Nat} {s : Stack} (hlenient : After .nonStrict program n s) :
    ∃ code data code' values, s = .quotation code' :: values ∧
      After .reorder program n (.quotation code :: data) ∧
      List.Forall₂ Matches code code' ∧ List.Forall₂ Matches data values ∧
      ∀ e, (step s Mode.nonStrict.environment).1 = .error e →
        ∃ name operands rest later result, code = .symbol name :: later ∧ data = operands ++ rest ∧
          (step (.quotation code :: data) Mode.reorder.environment).1 =
            .ok (.quotation later :: .defer (operands.reverse ++ [.symbol name]) result :: rest) ∧
          ReplayFails (flattenRecord (operands.reverse ++ [.symbol name])) e := by
  have hplain : ∀ c ∈ program, c.IsPlain := fun c hc => (hprogram c hc).plain
  have hbegin : List.Forall₂ Paces program program :=
    List.forall₂_same.mpr fun c hc => .self (hprogram c hc)
  obtain ⟨code, data, code', values, rfl, hrun, hcode, hdata⟩ :=
    runWithin_lockstep n hbegin .nil (runWithin_eq_of_fst (.inl rfl) hplain hlenient)
  refine ⟨code, data, code', values, rfl, by rw [After, hrun], hcode.imp fun _ _ h => h.toMatches,
    hdata.imp fun _ _ h => h.toMatches, fun e he => ?_⟩
  cases hcode with
  | nil => cases he
  | cons hcv hcode =>
    rcases step_lockstep hcv hcode hdata with
      ⟨e', name, operands, rest, later, result, hc, hd, hstep, herr, hfails⟩ |
        ⟨_, _, _, _, -, hok, -⟩
    · rw [herr] at he
      cases he
      exact ⟨name, operands, rest, later, result, hc, hd, by rw [hstep], hfails⟩
    · rw [hok] at he
      cases he

/-- A sum that is recorded beneath a text, and then divided by zero. -/
theorem recording_in_lockstep_division :
    let program : List Cell :=
      [.int 1, .text "a", .int 2, .symbol "+", .int 0, .symbol "/"]
    let lenient : Stack := [.quotation [.symbol "/", .text "a"], .int 0, .int 3]
    After .nonStrict program 8 lenient ∧
      (step lenient Mode.nonStrict.environment).1 = .error .divisionByZero ∧
      ∃ code data, After .reorder program 8 (.quotation code :: data) ∧
        List.Forall₂ Matches code [.symbol "/", .text "a"] ∧
        List.Forall₂ Matches data [.int 0, .int 3] ∧
        ReplayFails [.int 1, .int 2, .symbol "+", .int 0, .symbol "/"] .divisionByZero := by
  intro program lenient
  have hadd : ("+", Primitive.add) ∈ Vocabulary.arithmeticWords := by decide
  have hdiv : ("/", Primitive.div) ∈ Vocabulary.arithmeticWords := by decide
  have hprogram : ∀ c ∈ program, c.IsArithmetic := by
    intro c hc
    simp only [program, List.mem_cons, List.not_mem_nil, or_false] at hc
    rcases hc with rfl | rfl | rfl | rfl | rfl | rfl
    · exact .inert (.literal rfl)
    · exact .inert (.literal rfl)
    · exact .inert (.literal rfl)
    · exact .word hadd
    · exact .inert (.literal rfl)
    · exact .word hdiv
  have hlenient : After .nonStrict program 8 lenient := rfl
  have hfails : (step lenient Mode.nonStrict.environment).1 = .error .divisionByZero := rfl
  have hrecording : After .reorder program 8 [.quotation [.symbol "/", .text "a"], .int 0,
      .defer [.int 1, .int 2, .symbol "+"] (some .int)] := rfl
  obtain ⟨code, data, code', values, hstate, hrun, hcode, hdata, hnext⟩ :=
    recording_in_lockstep hprogram hlenient
  obtain ⟨name, operands, rest, later, result, -, -, hstep, hreplay⟩ := hnext _ hfails
  cases Except.ok.inj (hrun.symm.trans hrecording)
  obtain ⟨rfl, rfl⟩ : code' = [.symbol "/", .text "a"] ∧ values = [.int 0, .int 3] := by
    simpa [lenient] using hstate.symm
  -- the record of the division, as the step leaves it
  have hrecord : operands.reverse ++ [.symbol name] =
      [.defer [.int 1, .int 2, .symbol "+"] (some .int), .int 0, .symbol "/"] := by
    injection hstep with hcells
    injection hcells with _ hcells
    injection hcells with hcell _
    injection hcell with hrecord
    exact hrecord.symm
  rw [hrecord] at hreplay
  exact ⟨hlenient, hfails, _, _, hrun, hcode, hdata, hreplay⟩

end Restack
