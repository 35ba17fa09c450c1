import Restack.Proofs.Conservation
import Restack.Session

/-!
# Replay

A program run in the recording vocabulary is followed side by side with the same program
run in the lenient one. At the points of interest the recorded data mirrors the lenient
data, and what is left of the code on one side shadows the code on the other: where the
lenient run has to push a value once more that it has skipped, the recording run has to
push the record of that value with its dummies. At the end the data mirrors the data, so
the reconstruction, which is the code that replays it, leaves what the lenient run left.

This takes more than that every word is applied. Records that a word steps over come to
lie beneath its operands, and a record that a word skips is put on top of its results. If
such records leave a value that is still in use, or need one from beneath, the replay
finds the values in another order.

## Main definitions

* `leavesNoWord` — no word was left unapplied.
* `movesStandAlone` — the records that the next step moves stand alone.
* `Shadows` — code of a recording run against code of a lenient run.
* `SideBySide` — a recording run and a lenient run at a point of interest.

## Main results

* `skip_step`, `apply_step` — a word in both runs.
* `SideBySide.advance`, `SideBySide.ends` — two runs side by side stay so, to their ends.
* `replay_agrees` — the replay ends where the lenient run ends.
-/

namespace Restack

variable {code code' : List Cell} {data : Stack} {state next last : Stack} {n : Nat}

/-! ### Two conditions on a state -/

/-- Whether no word lies on the data of a state. -/
def leavesNoWord (state : Stack) : Bool := (dataOf state).all fun c => !c.isWord

/-- Whether the cells that a word would move stand alone: the records it steps over where they pass
an operand, and the cells it skips together with those it looked at before. -/
def Examination.movesStandAlone : Examination → Bool
  | accepted popped _ => crossable [] popped
  | rejected popped cell _ rest =>
    standsAlone popped && standsAlone (cell :: skippedDummies true cell rest)
  | exhausted => true

/-- Whether the cells that the next step of a recording run would move stand alone. -/
def movesStandAlone : Stack → Bool
  | .quotation (.symbol name :: _) :: data =>
    match Mode.reorder.environment.resolve? name with
    | some (.checked inputs _ _) => (examine true inputs data).movesStandAlone
    | _ => true
  | _ => true

theorem movesStandAlone_word {name : String} {op : Primitive} (hw : IsWord name op)
    (h : movesStandAlone (.quotation (.symbol name :: code) :: data) = true) :
    (examine true op.inputs data).movesStandAlone = true := by
  rw [movesStandAlone, hw.resolve_recording] at h
  exact h

/-! ### Runs that halt -/

/-- The run of a state in the lenient vocabulary halts in the given state. -/
def HaltsIn (state last : Stack) : Prop :=
  isHalted last = true ∧ ∃ n, runWithin n state Mode.nonStrict.environment =
    (.ok last, Mode.nonStrict.environment)

/-- A run that halts passes through the states it reaches. -/
theorem HaltsIn.of_reaches (h : HaltsIn state last)
    (hreach : runWithin n state Mode.nonStrict.environment =
      (.ok next, Mode.nonStrict.environment)) : HaltsIn next last := by
  obtain ⟨hhalt, m, hm⟩ := h
  refine ⟨hhalt, m, ?_⟩
  rw [← runWithin_add n m hreach, Nat.add_comm, runWithin_add m n hm, runWithin_halted n _ hhalt]

/-- A run that halts does not fail. -/
theorem HaltsIn.not_error (h : HaltsIn state last) {e : EngineError}
    (herr : runWithin n state Mode.nonStrict.environment =
      (.error e, Mode.nonStrict.environment)) : False := by
  obtain ⟨hhalt, m, hm⟩ := h
  -- the same number of steps, counted from either end
  have hsum := runWithin_add m n hm
  rw [Nat.add_comm, runWithin_add_error n m herr] at hsum
  rw [runWithin_halted n _ hhalt] at hsum
  cases hsum

theorem HaltsIn.eq (h : HaltsIn state last) (hstate : isHalted state = true) : last = state := by
  obtain ⟨-, m, hm⟩ := h
  rw [runWithin_halted m _ hstate] at hm
  cases hm
  rfl

/-- A recording run that halts, and whose states all satisfy both conditions. -/
structure Settles (n : Nat) (state last : Stack) : Prop where
  /-- The run ends in the given state. -/
  runs : runWithin n state Mode.reorder.environment = (.ok last, Mode.reorder.environment)
  /-- That state is halted. -/
  halted : isHalted last = true
  /-- No state has a word on its data. -/
  noWord : ∀ s, .ok s ∈ (streamWithin n state Mode.reorder.environment).1 → leavesNoWord s = true
  /-- No step moves cells that do not stand alone. -/
  alone : ∀ s, .ok s ∈ (streamWithin n state Mode.reorder.environment).1 → movesStandAlone s = true

theorem mem_streamWithin_self (n : Nat) (state : Stack) (env : Environment) :
    .ok state ∈ (streamWithin n state env).1 := by
  cases n with
  | zero => exact List.mem_singleton.mpr rfl
  | succ n =>
    rw [streamWithin]
    split
    · exact List.mem_singleton.mpr rfl
    · split <;> exact List.mem_cons_self

/-- The states of a run are the first one and those of the rest. -/
theorem streamWithin_succ {env env' : Environment} (hhalt : isHalted state = false)
    (hstep : step state env = (.ok next, env')) :
    (streamWithin (n + 1) state env).1 = .ok state :: (streamWithin n next env').1 := by
  rw [streamWithin, if_neg (by simp [hhalt]), hstep]

theorem Settles.tail (h : Settles n state last) (hhalt : isHalted state = false)
    (hstep : step state Mode.reorder.environment = (.ok next, Mode.reorder.environment)) :
    ∃ m, n = m + 1 ∧ Settles m next last := by
  obtain ⟨m, rfl, hruns⟩ := runWithin_tail hhalt hstep h.runs h.halted
  have hstream := streamWithin_succ (n := m) hhalt hstep
  refine ⟨m, rfl, hruns, h.halted, fun s hs => h.noWord s ?_, fun s hs => h.alone s ?_⟩
  · rw [hstream]
    exact List.mem_cons_of_mem _ hs
  · rw [hstream]
    exact List.mem_cons_of_mem _ hs

/-! ### Pushing cells in a row -/

theorem Settles.push {cells : List Cell} (h : ∀ c ∈ cells, c.IsSettled)
    (hs : Settles n (.quotation (cells ++ code) :: data) last) :
    ∃ m, n = cells.length + m ∧ Settles m (.quotation code :: (cells.reverse ++ data)) last := by
  induction cells generalizing n data with
  | nil => exact ⟨n, (Nat.zero_add n).symm, hs⟩
  | cons c cells ih =>
    have hstep := step_push ((h c List.mem_cons_self).lookup .reorder) (cells ++ code) data
    obtain ⟨m, rfl, hm⟩ := hs.tail rfl hstep
    obtain ⟨k, rfl, hk⟩ := ih (fun d hd => h d (List.mem_cons_of_mem c hd)) hm
    refine ⟨k, by rw [List.length_cons]; omega, ?_⟩
    rwa [List.reverse_cons, List.append_assoc, List.singleton_append]

/-! ### A word in both runs -/

section Word

variable {name : String} {op : Primitive} {values : Stack} {popped : List Cell} {cell : Cell}
  {required : TypeTag} {rest : Stack}

theorem Mirrors.noContinuation (h : Mirrors data values) : NoContinuation values := by
  refine noContinuation_of_plain fun v hv => ?_
  obtain ⟨c, -, hcv⟩ := exists_of_forall₂ h.stands hv
  exact .inert hcv.inert

/-- **A word that skips**: the recording run skips a cell with its dummies in one step, and the
lenient run the values of these one by one. -/
theorem skip_step (hw : IsWord name op) (h : Mirrors data values)
    (he : examine true op.inputs data = .rejected popped cell required rest)
    (hparts : partsDummy true op.inputs cell (skippedDummies true cell rest) = false)
    (halone : (examine true op.inputs data).movesStandAlone = true) (code : List Cell) :
    ∃ skipped left,
      Mirrors (popped ++ rest.drop (skippedDummies true cell rest).length) left ∧
      Mirrors (cell :: skippedDummies true cell rest) skipped ∧
      runWithin skipped.length (.quotation (.symbol name :: code) :: values)
          Mode.nonStrict.environment =
        (.ok (.quotation (.symbol name :: (skipped.reverse ++ code)) :: left),
          Mode.nonStrict.environment) := by
  have hfits := examine_fits true op.inputs data
  rw [he] at hfits halone
  obtain ⟨hsplit, -, hcell, met, missing, hinputs, hmeet⟩ := hfits
  rw [Examination.movesStandAlone, Bool.and_eq_true] at halone
  have hrest := skippedDummies_append_drop true cell rest
  have hvalues := h.noContinuation
  rw [hsplit, ← hrest, ← List.cons_append] at h
  -- what was looked at, what is skipped and what lies beneath have values of their own
  obtain ⟨us, beneath, rfl, hus, hbeneath⟩ := h.split halone.1
  obtain ⟨skipped, ws, rfl, hskipped, hws⟩ := hbeneath.split halone.2
  refine ⟨skipped, us ++ ws, hus.append hws, hskipped, ?_⟩
  have hrequired : required ∈ op.inputs := by
    rw [hinputs]
    exact List.mem_append_right _ List.mem_cons_self
  refine runWithin_skip hw hinputs (meets_of_stands hmeet hus.stands) (fun v hv => ?_) hvalues code
  obtain ⟨c, hc, hcv⟩ := exists_of_forall₂ hskipped.stands hv
  rw [hcv.meets_eq]
  exact not_meets_skipped hw hrequired hcell hparts hc

/-- **A word that is applied**: the recording run leaves its record, and the lenient run its
results. -/
theorem apply_step (hw : IsWord name op) (h : Mirrors data values)
    (he : examine true op.inputs data = .accepted popped rest)
    (halone : (examine true op.inputs data).movesStandAlone = true)
    (hhalts : HaltsIn (.quotation (.symbol name :: code) :: values) last) :
    ∃ left, Mirrors (record name (operandsOf true popped) op.outputs ++
        (popped.filter Cell.leavesNothing ++ rest)) left ∧
      HaltsIn (.quotation code :: left) last := by
  have hfits := examine_fits true op.inputs data
  rw [he] at hfits halone
  obtain ⟨rfl, hmeet⟩ := hfits
  have hvalues := h.noContinuation
  have hstands := h.stands
  rw [operandsOf_append] at hstands
  obtain ⟨us, ws, rfl, hus, hws⟩ := forall₂_append_left hstands
  have hlen : us.length = (op.action name).inputs.length := by
    rw [← hus.length_eq, length_operands hmeet, hw.length_inputs_action]
  have hstep := step_lenient_word hw hvalues code
  rw [examine_accepted (meets_of_stands hmeet hus), lenientNext, Action.apply_append _ hlen]
    at hstep
  cases hr : (op.action name).apply name us with
  | error e =>
    rw [hr] at hstep
    exact (hhalts.not_error (runWithin_succ_error 0 rfl hstep)).elim
  | ok results =>
    rw [hr] at hstep
    refine ⟨results ++ ws, h.record hw hus hws hmeet halone hr, ?_⟩
    exact hhalts.of_reaches (runWithin_succ_ok 0 rfl hstep)

end Word

/-! ### Two runs side by side -/

/-- The code of a recording run against the code of a lenient run: the same cells of the program,
and cells to be pushed again against the values that they mirror. -/
inductive Shadows : List Cell → List Cell → Prop
  /-- No code is left. -/
  | nil : Shadows [] []
  /-- A cell of the program. -/
  | same {c : Cell} {code code' : List Cell} (hc : c.IsPlain) (h : Shadows code code') :
    Shadows (c :: code) (c :: code')
  /-- Cells that were skipped. -/
  | again {cells : List Cell} {values : Stack} {code code' : List Cell}
    (hcells : Mirrors cells values) (hne : cells ≠ []) (h : Shadows code code') :
    Shadows (cells.reverse ++ code) (values.reverse ++ code')

theorem shadows_self {program : List Cell} (h : ∀ c ∈ program, c.IsPlain) :
    Shadows program program := by
  induction program with
  | nil => exact .nil
  | cons c program ih =>
    exact .same (h c List.mem_cons_self) (ih fun d hd => h d (List.mem_cons_of_mem c hd))

/-- A state in which a word lies on top of the data does not come up. -/
theorem Settles.not_left {name : String} {op : Primitive} (hw : IsWord name op)
    (h : Settles n (.quotation code :: .symbol name :: data) last) : False := by
  have hnone := h.noWord _ (mem_streamWithin_self n _ _)
  rw [leavesNoWord, dataOf, List.all_cons, hw.isWord] at hnone
  cases hnone

/-- A recording run and a lenient run side by side: the recording run has `n` steps left to `last`,
and the lenient run some to `end'`. -/
structure SideBySide (n : Nat) (code : List Cell) (data : Stack) (code' : List Cell)
    (values last end' : Stack) : Prop where
  /-- The recording run halts, and satisfies both conditions on the way. -/
  settles : Settles n (.quotation code :: data) last
  /-- Code shadows code. -/
  shadows : Shadows code code'
  /-- Data mirrors data. -/
  mirrors : Mirrors data values
  /-- The lenient run halts. -/
  halts : HaltsIn (.quotation code' :: values) end'

/-- Two runs that are side by side again, with fewer steps left. -/
def Advances (n : Nat) (last end' : Stack) : Prop :=
  ∃ m < n, ∃ code data code' values, SideBySide m code data code' values last end'

namespace SideBySide

variable {values end' : Stack}

/-- A cell that is pushed by both. -/
theorem inert {c : Cell} (hi : c.IsInert) (hcode : Shadows code code')
    (h : SideBySide n (c :: code) data (c :: code') values last end') : Advances n last end' := by
  obtain ⟨m, rfl, hm⟩ := h.settles.tail rfl (step_push (hi.lookup .reorder) code data)
  have hpush := step_push (hi.lookup .nonStrict) code' values
  exact ⟨m, Nat.lt_succ_self m, _, _, _, _, hm, hcode, (Mirrors.inert hi).append h.mirrors,
    h.halts.of_reaches (runWithin_succ_ok 0 rfl hpush)⟩

/-- A word in both: it is skipping or applied, since it is not left. -/
theorem word {name : String} {op : Primitive} (hw : IsWord name op) (hcode : Shadows code code')
    (h : SideBySide n (.symbol name :: code) data (.symbol name :: code') values last end') :
    Advances n last end' := by
  have halone := movesStandAlone_word hw (h.settles.alone _ (mem_streamWithin_self n _ _))
  have hstep := step_recording_word hw code data
  cases he : examine true op.inputs data with
  | exhausted =>
    rw [he, recordingNext] at hstep
    obtain ⟨m, -, hm⟩ := h.settles.tail rfl hstep
    exact (hm.not_left hw).elim
  | rejected popped cell required rest =>
    rw [he, recordingNext] at hstep
    cases hparts : partsDummy true op.inputs cell (skippedDummies true cell rest) with
    | true =>
      rw [if_pos hparts] at hstep
      obtain ⟨m, -, hm⟩ := h.settles.tail rfl hstep
      exact (hm.not_left hw).elim
    | false =>
      rw [if_neg (by simp [hparts])] at hstep
      obtain ⟨m, rfl, hm⟩ := h.settles.tail rfl hstep
      obtain ⟨skipped, left, hleft, hskipped, hrun⟩ :=
        skip_step hw h.mirrors he hparts halone code'
      -- what was skipped is now to be pushed again, behind the word that is tried once more
      have hshadows := Shadows.again hskipped (List.cons_ne_nil _ _) hcode
      rw [List.reverse_cons, List.append_assoc, List.singleton_append] at hshadows
      exact ⟨m, Nat.lt_succ_self m, _, _, _, _, hm, .same (.word hw) hshadows, hleft,
        h.halts.of_reaches hrun⟩
  | accepted popped rest =>
    rw [he, recordingNext] at hstep
    obtain ⟨m, rfl, hm⟩ := h.settles.tail rfl hstep
    obtain ⟨left, hleft, hhalts⟩ := apply_step hw h.mirrors he halone h.halts
    exact ⟨m, Nat.lt_succ_self m, _, _, _, _, hm, hcode, hleft, hhalts⟩

/-- Cells that were skipped are pushed again, on both sides without a word being run. -/
theorem again {cells : List Cell} {skipped : Stack} (hcells : Mirrors cells skipped)
    (hne : cells ≠ []) (hcode : Shadows code code')
    (h : SideBySide n (cells.reverse ++ code) data (skipped.reverse ++ code') values last end') :
    Advances n last end' := by
  have hsettled : ∀ c ∈ cells.reverse, c.IsSettled :=
    fun c hc => hcells.settled c (List.mem_reverse.mp hc)
  obtain ⟨m, rfl, hm⟩ := h.settles.push hsettled
  have hpush : ∀ v ∈ skipped.reverse, Mode.nonStrict.environment.lookup v = none := by
    intro v hv
    obtain ⟨c, -, hcv⟩ := exists_of_forall₂ hcells.stands (List.mem_reverse.mp hv)
    exact hcv.inert.lookup .nonStrict
  have hrun := runWithin_push hpush code' values
  rw [List.reverse_reverse] at hm hrun
  have hlt : m < cells.reverse.length + m := by
    have hpos := List.length_pos_of_ne_nil hne
    rw [List.length_reverse]
    omega
  exact ⟨m, hlt, _, _, _, _, hm, hcode, hcells.append h.mirrors, h.halts.of_reaches hrun⟩

/-- **Two runs side by side stay so**, until neither has code left. -/
theorem advance (h : SideBySide n code data code' values last end') :
    (code = [] ∧ code' = []) ∨ Advances n last end' := by
  cases h.shadows with
  | nil => exact .inl ⟨rfl, rfl⟩
  | same hc hcode =>
    cases hc with
    | inert hi => exact .inr (h.inert hi hcode)
    | word hw => exact .inr (h.word hw hcode)
  | again hcells hne hcode => exact .inr (h.again hcells hne hcode)

/-- **Two runs side by side end in data that mirrors data.** -/
theorem ends (h : SideBySide n code data code' values last end') :
    ∃ data' values', last = .quotation [] :: data' ∧ end' = .quotation [] :: values' ∧
      Mirrors data' values' := by
  -- a lenient run may take several steps for one, so only the recording run is counted
  induction n using Nat.strong_induction_on generalizing code data code' values with
  | _ n ih =>
    rcases h.advance with ⟨rfl, rfl⟩ | ⟨m, hlt, _, _, _, _, hnext⟩
    · have hlast := h.settles.runs
      rw [runWithin_halted n _ rfl] at hlast
      cases hlast
      exact ⟨data, values, rfl, h.halts.eq rfl, h.mirrors⟩
    · exact ih m hlt hnext

end SideBySide

/-! ### The replay -/

variable {program : List Cell} {finished : Stack}

/-- The reconstruction of a halted recording run is the code that replays its data, and as long as
the program. -/
theorem length_replayCode (hplain : ∀ c ∈ program, c.IsPlain)
    (hrun : runWithin n [.quotation program] Mode.reorder.environment =
      (.ok (.quotation [] :: data), Mode.reorder.environment)) :
    (replayCode data).length = program.length := by
  obtain ⟨code', data', hrun', hperm⟩ := runWithin_program_perm hplain n
  rw [hrun] at hrun'
  cases hrun'
  rw [Cell.flattenList, List.append_nil] at hperm
  exact hperm.length_eq

/-- **When the replay agrees.** Take a program of literals, free symbols and words whose lenient run
halts in `s` and whose recording run halts without ever leaving a word unapplied. If in that run
every record that is stepped over past an operand, and every group of cells that is skipped, stands
alone, then the strict run of the reconstruction ends in `s`, and so does the replay of every text
of the program. -/
theorem replay_agrees (hplain : ∀ c ∈ program, c.IsPlain)
    (hreorder : After .reorder program n finished) (hfinished : isHalted finished = true)
    (hnoWord : ∀ state, .ok state ∈ (streamWithin n [.quotation program]
      Mode.reorder.environment).1 → leavesNoWord state = true)
    (halone : ∀ state, .ok state ∈ (streamWithin n [.quotation program]
      Mode.reorder.environment).1 → movesStandAlone state = true)
    {s : Stack} (hlenient : ∃ m, After .nonStrict program m s) (hs : isHalted s = true) :
    (runWithin n (reconstruct finished) Mode.strict.environment).1 = .ok s ∧
      ∀ (session : Session) (source : String), Source.parseProgram source = .ok program →
        n ≤ stepLimit session.settings.maxSteps → session.replay source = .ok s := by
  have hruns := runWithin_eq_of_fst (.inr rfl) hplain hreorder
  have hsettles : Settles n [.quotation program] finished := ⟨hruns, hfinished, hnoWord, halone⟩
  obtain ⟨m, hm⟩ := hlenient
  have hhalts : HaltsIn [.quotation program] s :=
    ⟨hs, m, runWithin_eq_of_fst (.inl rfl) hplain hm⟩
  have hbegin : SideBySide n program [] program [] finished s :=
    ⟨hsettles, shadows_self hplain, .nil, hhalts⟩
  obtain ⟨data, values, rfl, rfl, hmirrors⟩ := hbegin.ends
  -- the reconstruction is no longer than the run that led to it
  have hlen : (replayCode data).length ≤ n := by
    rw [length_replayCode hplain hruns]
    exact length_le_of_halts (.inr rfl) (fun c hc => .plain (hplain c hc))
      (fun d (hd : d ∈ ([] : Stack)) => nomatch hd) hruns rfl
  have hreconstruct : reconstruct (.quotation [] :: data) = [.quotation (replayCode data)] := by
    rw [reconstruct, gather_eq, List.append_nil]
  have hstrict : runWithin n (reconstruct (.quotation [] :: data)) Mode.strict.environment =
      (.ok (.quotation [] :: values), Mode.strict.environment) := by
    rw [hreconstruct, runWithin_strict (plain_replayCode hmirrors.settled)
      Mirrors.nil.noContinuation hlen, hmirrors.replays]
    rfl
  refine ⟨by rw [hstrict], fun session source hparse hlimit => ?_⟩
  have hstate : programState source = .ok [.quotation program] := by rw [programState, hparse]
  have hfirst : Restack.reorder session.settings.maxSteps [.quotation program]
      Mode.reorder.environment =
        (.ok (reconstruct (.quotation [] :: data)), Mode.reorder.environment) := by
    rw [Restack.reorder, run, runWithin_of_le hruns rfl hlimit]
  have hsecond : run session.settings.maxSteps (reconstruct (.quotation [] :: data))
      Mode.strict.environment = (.ok (.quotation [] :: values), Mode.strict.environment) :=
    runWithin_of_le hstrict rfl hlimit
  have hsession : session.reorder source = .ok (reconstruct (.quotation [] :: data)) := by
    rw [Session.reorder, hstate]
    simp only [bind, Except.bind, hfirst, Session.lift]
  rw [Session.replay, hsession]
  simp only [bind, Except.bind, hsecond, Session.lift]

/-- The theorem at `1 2 drop "a" 3 +`: the sum skips the text, steps over the record of the dropped
number, and the reconstruction `2 drop 1 3 + "a"` leaves what the program leaves. -/
theorem replay_agrees_stepped_over :
    (runWithin 8 [.quotation [.int 2, .symbol "drop", .int 1, .int 3, .symbol "+", .text "a"]]
        Mode.strict.environment).1 = .ok [.quotation [], .text "a", .int 4] ∧
      ∀ (session : Session) (source : String), Source.parseProgram source =
          .ok [.int 1, .int 2, .symbol "drop", .text "a", .int 3, .symbol "+"] →
        8 ≤ stepLimit session.settings.maxSteps →
          session.replay source = .ok [.quotation [], .text "a", .int 4] := by
  have hplain : ∀ c ∈ [Cell.int 1, .int 2, .symbol "drop", .text "a", .int 3, .symbol "+"],
      c.IsPlain := by
    intro c hc
    simp only [List.mem_cons, List.not_mem_nil, or_false] at hc
    rcases hc with rfl | rfl | rfl | rfl | rfl | rfl
    · exact .inert (.literal rfl)
    · exact .inert (.literal rfl)
    · exact .word .drop
    · exact .inert (.literal rfl)
    · exact .inert (.literal rfl)
    · exact .word .add
  have hreorder : After .reorder [.int 1, .int 2, .symbol "drop", .text "a", .int 3, .symbol "+"] 8
      [.quotation [], .text "a", .defer [.int 1, .int 3, .symbol "+"] (some .int),
        .defer [.int 2, .symbol "drop"] none] := rfl
  have hlenient : After .nonStrict [.int 1, .int 2, .symbol "drop", .text "a", .int 3, .symbol "+"]
      8 [.quotation [], .text "a", .int 4] := rfl
  have hcheck : ((streamWithin 8 [.quotation [.int 1, .int 2, .symbol "drop", .text "a", .int 3,
      .symbol "+"]] Mode.reorder.environment).1.all fun r =>
        r.toOption.all fun s => leavesNoWord s && movesStandAlone s) = true := rfl
  have hstates := fun state hstate => Bool.and_eq_true_iff.mp
    (List.all_eq_true.mp hcheck (.ok state) hstate)
  exact replay_agrees hplain hreorder rfl (fun state hstate => (hstates state hstate).1)
    (fun state hstate => (hstates state hstate).2) ⟨8, hlenient⟩ rfl

/-- The replay of `1 2 dup drop -` subtracts the other way round, though both runs halt and no word
is left unapplied: the dropped copy takes the number with it, beneath the one it is subtracted
from. -/
theorem replay_disagrees_dropped_copy :
    (∀ c ∈ [Cell.int 1, .int 2, .symbol "dup", .symbol "drop", .symbol "-"], c.IsPlain) ∧
      After .nonStrict [.int 1, .int 2, .symbol "dup", .symbol "drop", .symbol "-"] 5
        [.quotation [], .int (-1)] ∧
      After .reorder [.int 1, .int 2, .symbol "dup", .symbol "drop", .symbol "-"] 5
        [.quotation [], .defer [.int 1, .dummy .int, .symbol "-"] (some .int),
          .defer [.defer [.int 2, .symbol "dup"] (some .int), .symbol "drop"] none] ∧
      (∀ state, .ok state ∈ (streamWithin 5 [.quotation [.int 1, .int 2, .symbol "dup",
        .symbol "drop", .symbol "-"]] Mode.reorder.environment).1 → leavesNoWord state = true) ∧
      (runWithin 5 (reconstruct [.quotation [],
          .defer [.int 1, .dummy .int, .symbol "-"] (some .int),
          .defer [.defer [.int 2, .symbol "dup"] (some .int), .symbol "drop"] none])
        Mode.strict.environment).1 = .ok [.quotation [], .int 1] ∧
      ([.quotation [], .int 1] : Stack) ≠ [.quotation [], .int (-1)] := by
  refine ⟨?_, rfl, rfl, ?_, rfl, ?_⟩
  · intro c hc
    simp only [List.mem_cons, List.not_mem_nil, or_false] at hc
    rcases hc with rfl | rfl | rfl | rfl | rfl
    · exact .inert (.literal rfl)
    · exact .inert (.literal rfl)
    · exact .word .dup
    · exact .word .drop
    · exact .word .sub
  · have hcheck : ((streamWithin 5 [.quotation [.int 1, .int 2, .symbol "dup", .symbol "drop",
        .symbol "-"]] Mode.reorder.environment).1.all fun r =>
          r.toOption.all leavesNoWord) = true := rfl
    exact fun state hstate => List.all_eq_true.mp hcheck (.ok state) hstate
  · intro h
    injection h with _ h
    injection h with h _
    injection h with h
    exact absurd h (by decide)

end Restack
