import Restack.Proofs.Mirror
import Restack.Proofs.Progress

/-!
# A recording run foretells the lenient run

A recording run computes nothing, and yet knows what the lenient run of the same program
will have on its data: as many cells, in the same places, with the types that its records
and dummies note down. The two runs are not in step. A record is skipped along with its
dummies at once, where the lenient run skips their values one by one; and records that
leave nothing are moved through code and data with no counterpart. Leaving these out,
code foretells code and data foretells data, step after step, as long as no word is left
unapplied for the sake of a dummy. A step without a counterpart only pushes a cell, so
the recording run halts if the lenient one does.

## Main definitions

* `Foretells`, `Foretell` — what a cell, and a list of cells, says about the lenient run.
* `sparesDummy` — whether the next step leaves a word unapplied for the sake of a dummy.

## Main results

* `leave_foretell`, `skip_foretell`, `apply_foretell` — a word in both runs, by the
  finding of its check.
* `step_foretell` — a step of the recording run, and the steps of the lenient run that go
  with it.
* `foretell_ends` — two runs to their ends.
* `recording_foretells` — the recording run halts, and foretells the lenient data.
-/

namespace Restack

variable {code code' popped rest : List Cell} {data values : Stack}

/-! ### Cells that foretell cells -/

/-- A cell of the recording run foretells a cell of the lenient run. -/
inductive Foretells : Cell → Cell → Prop
  /-- A literal or a symbol foretells itself. -/
  | same {c : Cell} (h : c.IsPlain) : Foretells c c
  /-- A record or a dummy foretells any value of the type it notes down. -/
  | deferred {c v : Cell} {tag : TypeTag} (h : c.isDeferred = true)
    (hc : c.deferredType = some tag) (hv : v.valueType = some tag) : Foretells c v

theorem Stands.foretells {c v : Cell} (h : Stands c v) : Foretells c v := by
  cases h with
  | same h => exact .same (.inert h)
  | deferred h hc hv => exact .deferred h hc hv

namespace Foretells

variable {c v : Cell}

/-- A cell that foretells another stands for it, unless both are a word. -/
theorem word_or_stands (h : Foretells c v) :
    (∃ name op, IsWord name op ∧ c = .symbol name ∧ v = .symbol name) ∨ Stands c v := by
  cases h with
  | same h =>
    cases h with
    | inert h => exact .inr (.same h)
    | word hw => exact .inl ⟨_, _, hw, rfl, rfl⟩
  | deferred h hc hv => exact .inr (.deferred h hc hv)

theorem plain (h : Foretells c v) : v.IsPlain := by
  cases h with
  | same h => exact h
  | deferred h hc hv => exact .inert (.literal (by rw [hv]; rfl))

/-- A check that accepts records judges a cell as one that does not judges what it foretells. -/
theorem meets_eq (h : Foretells c v) (required : TypeTag) :
    v.meets false required = c.meets true required := by
  rcases h.word_or_stands with ⟨name, op, -, rfl, rfl⟩ | h
  · rfl
  · exact h.meets_eq required

end Foretells

/-- The cells that leave something foretell the given ones, in their order. -/
abbrev Foretell (cells values : List Cell) : Prop :=
  List.Forall₂ Foretells (operandsOf true cells) values

namespace Foretell

theorem cons {c v : Cell} (hover : c.steppedOver true = false) (h : Foretells c v)
    (hs : Foretell code code') : Foretell (c :: code) (v :: code') := by
  rw [Foretell, operandsOf_cons hover]
  exact .cons h hs

theorem append {us ws : List Cell} (hu : Foretell popped us) (hl : Foretell rest ws) :
    Foretell (popped ++ rest) (us ++ ws) := by
  rw [Foretell, operandsOf_append]
  exact forall₂_append hu hl

theorem split (h : Foretell (popped ++ rest) values) :
    ∃ us ws, values = us ++ ws ∧ Foretell popped us ∧ Foretell rest ws := by
  rw [Foretell, operandsOf_append] at h
  exact forall₂_append_left h

theorem reverse (h : Foretell code code') : Foretell code.reverse code'.reverse := by
  rw [Foretell, operandsOf, List.filter_reverse]
  exact List.forall₂_reverse_iff.mpr h

theorem noContinuation (h : Foretell data values) : NoContinuation values := by
  refine noContinuation_of_plain fun v hv => ?_
  obtain ⟨c, -, hcv⟩ := exists_of_forall₂ h hv
  exact hcv.plain

/-- Accepted operands are no words, so they stand for what they foretell. -/
theorem stands {inputs : List TypeTag} (h : Foretell popped values)
    (hmeet : Meet true inputs popped) : List.Forall₂ Stands (operandsOf true popped) values := by
  have hnoWord : ∀ c ∈ operandsOf true popped, c.isWord = false :=
    fun c hc => isWord_of_mem_operands hmeet hc
  refine ((List.forall₂_and_left _ _).mpr ⟨hnoWord, h⟩).imp ?_
  rintro c v ⟨hc, hcv⟩
  rcases hcv.word_or_stands with ⟨name, op, hw, rfl, -⟩ | hstands
  · rw [hw.isWord] at hc
    cases hc
  · exact hstands

/-- A program foretells itself. -/
theorem self {program : List Cell} (h : ∀ c ∈ program, c.IsPlain) : Foretell program program := by
  induction program with
  | nil => exact .nil
  | cons c program ih =>
    have hc := h c List.mem_cons_self
    refine cons ?_ (.same hc) (ih fun d hd => h d (List.mem_cons_of_mem c hd))
    cases hc with
    | inert hi =>
      have hnot := hi.not_isDeferred
      cases c with
      | defer record result => cases hnot
      | _ => rfl
    | word hw => rfl

end Foretell

/-! ### Words left for the sake of a dummy -/

/-- Whether a word with this finding is left unapplied, so as not to part a dummy from its
record. -/
def Examination.sparesDummy (inputs : List TypeTag) : Examination → Bool
  | rejected _ cell _ rest => partsDummy true inputs cell (skippedDummies true cell rest)
  | _ => false

/-- Whether the next step of a recording run leaves a word unapplied, so as not to part a dummy from
its record. -/
def sparesDummy : Stack → Bool
  | .quotation (.symbol name :: _) :: data =>
    match Mode.reorder.environment.resolve? name with
    | some (.checked inputs _ _) => (examine true inputs data).sparesDummy inputs
    | _ => false
  | _ => false

theorem sparesDummy_word {name : String} {op : Primitive} (hw : IsWord name op)
    (h : sparesDummy (.quotation (.symbol name :: code) :: data) = false) :
    (examine true op.inputs data).sparesDummy op.inputs = false := by
  rw [sparesDummy, hw.resolve_recording] at h
  exact h

/-- No step from a state on leaves a word unapplied for the sake of a dummy. -/
def NeverSpares (state : Stack) : Prop :=
  ∀ n next, runWithin n state Mode.reorder.environment = (.ok next, Mode.reorder.environment) →
    sparesDummy next = false

theorem NeverSpares.tail {state next : Stack} (h : NeverSpares state)
    (hhalt : isHalted state = false)
    (hstep : step state Mode.reorder.environment = (.ok next, Mode.reorder.environment)) :
    NeverSpares next := by
  intro n last hlast
  refine h (n + 1) last ?_
  rw [runWithin_succ_ok n hhalt hstep, hlast]

/-! ### A step of both runs -/

/-- The recording run makes a step and the lenient run one or more, and then the one foretells the
other again. -/
def StaysAhead (code : List Cell) (data : Stack) (code' : List Cell) (values : Stack) : Prop :=
  ∃ code₁ data₁ code₁' values₁ k, 0 < k ∧
    step (.quotation code :: data) Mode.reorder.environment =
      (.ok (.quotation code₁ :: data₁), Mode.reorder.environment) ∧
    runWithin k (.quotation code' :: values) Mode.nonStrict.environment =
      (.ok (.quotation code₁' :: values₁), Mode.nonStrict.environment) ∧
    Foretell code₁ code₁' ∧ Foretell data₁ values₁

section Word

variable {name : String} {op : Primitive}

/-- A word without enough operands is left on the data by both runs. -/
theorem leave_foretell (hw : IsWord name op) (hcode : Foretell code code')
    (hdata : Foretell data values) (he : examine true op.inputs data = .exhausted) :
    StaysAhead (.symbol name :: code) data (.symbol name :: code') values := by
  have hfits := examine_fits true op.inputs data
  rw [he] at hfits
  obtain ⟨met, missing, hinputs, hmissing, hmeet⟩ := hfits
  have hexamine : examine false op.inputs values = .exhausted := by
    rw [hinputs]
    exact examine_exhausted (meets_of_stands hmeet (hdata.stands hmeet)) hmissing
  have hstep := step_recording_word hw code data
  have hlenient := step_lenient_word hw hdata.noContinuation code'
  rw [he, recordingNext] at hstep
  rw [hexamine, lenientNext] at hlenient
  exact ⟨code, _, code', _, 1, Nat.one_pos, hstep, runWithin_succ_ok 0 rfl hlenient, hcode,
    .cons rfl (.same (.word hw)) hdata⟩

/-- A word that skips a cell along with its dummies skips, in the lenient run, one value for each of
them. -/
theorem skip_foretell (hw : IsWord name op) (hcode : Foretell code code')
    (hdata : Foretell data values) {cell : Cell} {required : TypeTag}
    (he : examine true op.inputs data = .rejected popped cell required rest)
    (hparts : partsDummy true op.inputs cell (skippedDummies true cell rest) = false) :
    StaysAhead (.symbol name :: code) data (.symbol name :: code') values := by
  have hstep := step_recording_word hw code data
  rw [he, recordingNext, if_neg (by simp [hparts])] at hstep
  have hfits := examine_fits true op.inputs data
  rw [he] at hfits
  obtain ⟨hsplit, hover, hcell, met, missing, hinputs, hmeet⟩ := hfits
  have hvalues := hdata.noContinuation
  rw [hsplit, ← skippedDummies_append_drop true cell rest, ← List.cons_append] at hdata
  -- what was looked at, what is skipped and what lies beneath
  obtain ⟨us, beneath, rfl, hus, hbeneath⟩ := hdata.split
  obtain ⟨skipped, ws, rfl, hskipped, hws⟩ := hbeneath.split
  have hrequired : required ∈ op.inputs := by
    rw [hinputs]
    exact List.mem_append_right _ List.mem_cons_self
  have hnot : ∀ v ∈ skipped, v.meets false required = false := by
    intro v hv
    obtain ⟨c, hc, hcv⟩ := exists_of_forall₂ hskipped hv
    rw [hcv.meets_eq]
    exact not_meets_skipped hw hrequired hcell hparts hc
  have hruns := runWithin_skip hw hinputs (meets_of_stands hmeet (hus.stands hmeet)) hnot hvalues
    code'
  have hpos : 0 < skipped.length := by
    rw [← hskipped.length_eq, operandsOf_cons hover]
    exact Nat.succ_pos _
  -- the skipped cells go back into the code, the deepest first
  have hback := hskipped.reverse.append hcode
  rw [List.reverse_cons, List.append_assoc, List.singleton_append] at hback
  exact ⟨_, _, _, _, _, hpos, hstep, hruns, .cons rfl (.same (.word hw)) hback, hus.append hws⟩

/-- A word that is recorded is applied by the lenient run, or fails there. -/
theorem apply_foretell (hw : IsWord name op) (hcode : Foretell code code')
    (hdata : Foretell data values) (he : examine true op.inputs data = .accepted popped rest) :
    (∃ e, step (.quotation (.symbol name :: code') :: values) Mode.nonStrict.environment =
        (.error e, Mode.nonStrict.environment)) ∨
      StaysAhead (.symbol name :: code) data (.symbol name :: code') values := by
  have hstep := step_recording_word hw code data
  have hlenient := step_lenient_word hw hdata.noContinuation code'
  rw [he, recordingNext] at hstep
  have hfits := examine_fits true op.inputs data
  rw [he] at hfits
  obtain ⟨rfl, hmeet⟩ := hfits
  obtain ⟨us, ws, rfl, hus, hws⟩ := hdata.split
  have hstands := hus.stands hmeet
  have hlen : us.length = (op.action name).inputs.length := by
    rw [← hus.length_eq, length_operands hmeet, hw.length_inputs_action]
  rw [examine_accepted (meets_of_stands hmeet hstands), lenientNext, Action.apply_append _ hlen]
    at hlenient
  cases hr : (op.action name).apply name us with
  | error e =>
    rw [hr] at hlenient
    exact .inl ⟨e, hlenient⟩
  | ok results =>
    rw [hr] at hlenient
    -- the record and its dummies foretell the results, and what was stepped over foretells nothing
    have hrecord : Foretell (record name (operandsOf true popped) op.outputs) results :=
      (stands_results hw hmeet hstands hr).imp fun _ _ h => h.foretells
    have hnothing : Foretell (popped.filter Cell.leavesNothing) [] := by
      rw [Foretell, operandsOf_filter_leavesNothing]
      exact .nil
    exact .inr ⟨code, _, code', _, 1, Nat.one_pos, hstep, runWithin_succ_ok 0 rfl hlenient, hcode,
      hrecord.append (hnothing.append hws)⟩

end Word

/-- **A step of the recording run** on a cell that leaves something, and the steps of the lenient run
that go with it. -/
theorem step_foretell {c v : Cell} (hcv : Foretells c v) (hover : c.steppedOver true = false)
    (hcode : Foretell code code') (hdata : Foretell data values)
    (hspares : sparesDummy (.quotation (c :: code) :: data) = false) :
    (∃ e, step (.quotation (v :: code') :: values) Mode.nonStrict.environment =
        (.error e, Mode.nonStrict.environment)) ∨
      StaysAhead (c :: code) data (v :: code') values := by
  rcases hcv.word_or_stands with ⟨name, op, hw, rfl, rfl⟩ | hstands
  · have hspares := sparesDummy_word hw hspares
    cases he : examine true op.inputs data with
    | exhausted => exact .inr (leave_foretell hw hcode hdata he)
    | rejected popped cell required rest =>
      rw [he] at hspares
      exact .inr (skip_foretell hw hcode hdata he hspares)
    | accepted popped rest => exact apply_foretell hw hcode hdata he
  · have hlookup : Mode.reorder.environment.lookup c = none := by
      cases hstands with
      | same hi => exact hi.lookup .reorder
      | deferred hd hc hv =>
        cases c with
        | defer record result => rfl
        | dummy tag => rfl
        | _ => cases hd
    have hpush := step_push (hstands.inert.lookup .nonStrict) code' values
    exact .inr ⟨code, _, code', _, 1, Nat.one_pos, step_push hlookup code data,
      runWithin_succ_ok 0 rfl hpush, hcode, .cons hover hcv hdata⟩

/-! ### Two runs to their ends -/

/-- A cell that is stepped over is pushed, with no counterpart in the lenient run. -/
theorem step_nothing {c : Cell} (hover : c.steppedOver true = true) (code : List Cell)
    (data : Stack) :
    step (.quotation (c :: code) :: data) Mode.reorder.environment =
      (.ok (.quotation code :: c :: data), Mode.reorder.environment) := by
  refine step_push ?_ code data
  cases c with
  | defer record result => rfl
  | _ => cases hover

/-- **If the lenient run halts, so does the recording run, in data that foretells data.** -/
theorem foretell_ends {m : Nat} {last : Stack} (hcode : Foretell code code')
    (hdata : Foretell data values) (hspares : NeverSpares (.quotation code :: data))
    (hrun : runWithin m (.quotation code' :: values) Mode.nonStrict.environment =
      (.ok last, Mode.nonStrict.environment)) (hlast : isHalted last = true) :
    ∃ n data' values', runWithin n (.quotation code :: data) Mode.reorder.environment =
        (.ok (.quotation [] :: data'), Mode.reorder.environment) ∧
      last = .quotation [] :: values' ∧ Foretell data' values' := by
  -- by the steps left of the lenient run; where it makes none, by the code of the recording run
  induction m using Nat.strong_induction_on generalizing code data code' values with
  | _ m ih =>
    induction code generalizing data with
    | nil =>
      cases hcode
      rw [runWithin_halted m _ rfl] at hrun
      cases hrun
      exact ⟨0, data, values, rfl, rfl, hdata⟩
    | cons c code ihcode =>
      cases hover : c.steppedOver true with
      | true =>
        rw [Foretell, operandsOf_cons_stepped hover] at hcode
        have hstep := step_nothing hover code data
        have hdata' : Foretell (c :: data) values := by
          rwa [Foretell, operandsOf_cons_stepped hover]
        obtain ⟨n, data', values', hn, hend⟩ := ihcode hcode hdata' (hspares.tail rfl hstep)
        exact ⟨n + 1, data', values', by rw [runWithin_succ_ok n rfl hstep, hn], hend⟩
      | false =>
        rw [Foretell, operandsOf_cons hover] at hcode
        cases hcode with
        | @cons _ v _ code' hcv hcode =>
          -- the lenient run has code left, so it has a step left
          obtain ⟨m, rfl⟩ : ∃ k, m = k + 1 := by
            cases m with
            | zero => cases hrun; cases hlast
            | succ m => exact ⟨m, rfl⟩
          rcases step_foretell hcv hover hcode hdata (hspares 0 _ rfl) with
            ⟨e, herr⟩ | ⟨code₁, data₁, code₁', values₁, k, hk, hstep, hruns, hcode₁, hdata₁⟩
          · rw [runWithin_succ_error m rfl herr] at hrun
            cases hrun
          · obtain ⟨n, data', values', hn, hend⟩ := ih (m + 1 - k) (by omega) hcode₁ hdata₁
              (hspares.tail rfl hstep) (runWithin_rest hrun hlast hruns)
            exact ⟨n + 1, data', values', by rw [runWithin_succ_ok n rfl hstep, hn], hend⟩

/-- **A recording run foretells the lenient run.** Take a program of literals, free symbols and words
whose lenient run halts in `s`. If no step of its recording run leaves a word unapplied so as not to
part a dummy from its record, the recording run halts too; and the cells on its data, less the
records that leave nothing, are as many as those on the data of `s`, and each is the same literal or
symbol as the cell in its place, or a record or a dummy of the type of that cell. -/
theorem recording_foretells {program : List Cell} (hplain : ∀ c ∈ program, c.IsPlain) {m : Nat}
    {s : Stack} (hlenient : After .nonStrict program m s) (hs : isHalted s = true)
    (hspares : ∀ n state, After .reorder program n state → sparesDummy state = false) :
    ∃ n data values, After .reorder program n (.quotation [] :: data) ∧
      s = .quotation [] :: values ∧
      List.Forall₂ Foretells (data.filter fun c => !c.leavesNothing) values := by
  have hnever : NeverSpares [.quotation program] := by
    intro n next hnext
    exact hspares n next (by rw [After, hnext])
  have hrun := runWithin_eq_of_fst (.inl rfl) hplain hlenient
  obtain ⟨n, data, values, hn, hend, hforetell⟩ :=
    foretell_ends (Foretell.self hplain) .nil hnever hrun hs
  exact ⟨n, data, values, by rw [After, hn], hend, hforetell⟩

/-- The theorem at `1 "a" "b" swap 7 drop 2 +`. The sum steps over the record of the dropped number,
and skips the record of the exchange along with its dummy, which the lenient run does in two
steps. -/
theorem recording_foretells_skipped_exchange :
    After .nonStrict [.int 1, .text "a", .text "b", .symbol "swap", .int 7, .symbol "drop", .int 2,
        .symbol "+"] 12 [.quotation [], .text "a", .text "b", .int 3] ∧
      ∃ n data, After .reorder [.int 1, .text "a", .text "b", .symbol "swap", .int 7,
          .symbol "drop", .int 2, .symbol "+"] n (.quotation [] :: data) ∧
        List.Forall₂ Foretells (data.filter fun c => !c.leavesNothing)
          [.text "a", .text "b", .int 3] := by
  generalize hprogram : [Cell.int 1, .text "a", .text "b", .symbol "swap", .int 7, .symbol "drop",
    .int 2, .symbol "+"] = program
  have hplain : ∀ c ∈ program, c.IsPlain := by
    intro c hc
    rw [← hprogram] at hc
    simp only [List.mem_cons, List.not_mem_nil, or_false] at hc
    rcases hc with rfl | rfl | rfl | rfl | rfl | rfl | rfl | rfl
    · exact .inert (.literal rfl)
    · exact .inert (.literal rfl)
    · exact .inert (.literal rfl)
    · exact .word .swap
    · exact .inert (.literal rfl)
    · exact .word .drop
    · exact .inert (.literal rfl)
    · exact .word .add
  have hlenient : After .nonStrict program 12 [.quotation [], .text "a", .text "b", .int 3] := by
    rw [← hprogram]
    rfl
  have hspares : ∀ n state, After .reorder program n state → sparesDummy state = false := by
    intro n state hstate
    have hcheck : ((List.range 12).all fun n =>
        (runWithin n [.quotation program] Mode.reorder.environment).1.toOption.all fun s =>
          !sparesDummy s) = true := by
      rw [← hprogram]
      rfl
    have hfinal : ∃ data, runWithin 11 [.quotation program] Mode.reorder.environment =
        (.ok (.quotation [] :: data), Mode.reorder.environment) := by
      rw [← hprogram]
      exact ⟨_, rfl⟩
    obtain ⟨data, hfinal⟩ := hfinal
    by_cases hn : n < 12
    · have hall := List.all_eq_true.mp hcheck n (List.mem_range.mpr hn)
      rw [hstate] at hall
      simpa [Except.toOption] using hall
    · -- the run has halted
      rw [After, runWithin_of_le hfinal rfl (by omega)] at hstate
      cases hstate
      rfl
  obtain ⟨n, data, values, hafter, hvalues, hforetell⟩ :=
    recording_foretells hplain hlenient rfl hspares
  cases hvalues
  exact ⟨hlenient, n, data, hafter, hforetell⟩

end Restack
