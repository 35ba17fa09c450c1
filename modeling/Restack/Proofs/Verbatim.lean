import Restack.Proofs.Conservation
import Restack.Proofs.LenientExtension
import Restack.Proofs.Lockstep

/-!
# Programs that are reconstructed as they were written

If every word of a program leaves a result, and its strict run succeeds, then the recording run
applies each word where the program has it. The types on the records are the types of the values in
the strict run, so every check accepts; no record lies in the way without a value of its own; and
the cells that a word takes are the last ones in the code that the data stands for. So after each
step this code is the part of the program that has been run.

## Main definitions

* `Cell.IsProductive` — the cells of such a program.
* `Retells` — data of a recording run, the program so far, and the values of the strict run.

## Main results

* `Retells.push`, `Retells.record` — what a literal and a word do to such data.
* `runWithin_retells`, `runWithin_take` — the recording run of the first part of a program.
* `reconstruction_verbatim` — the program comes back as it was.
-/

namespace Restack

variable {done : List Cell} {data values values' : Stack} {name : String} {op : Primitive}

/-- A cell of a program in which every word leaves a result: a literal, or a word other than the one
that removes the top cell. -/
inductive Cell.IsProductive : Cell → Prop
  /-- A literal. -/
  | literal {c : Cell} (h : c.valueType.isSome = true) : Cell.IsProductive c
  /-- A word that leaves a result. -/
  | word {name : String} {op : Primitive} (h : IsWord name op) (hdrop : name ≠ "drop") :
    Cell.IsProductive (.symbol name)

theorem Cell.IsProductive.plain {c : Cell} (h : c.IsProductive) : c.IsPlain := by
  cases h with
  | literal h => exact .inert (.literal h)
  | word h _ => exact .word h

theorem IsWord.outputs_ne_nil (h : IsWord name op) (hdrop : name ≠ "drop") : op.outputs ≠ [] := by
  cases h with
  | drop => exact absurd rfl hdrop
  | _ => exact List.cons_ne_nil _ _

/-- Data of a recording run beside the values of the strict run, after the program `done`. -/
structure Retells (done : List Cell) (data values : Stack) : Prop where
  /-- The data stands for the program, in the order in which it is written. -/
  replays : replayCode data = done
  /-- Each cell of the data stands for the value in its place. -/
  stands : List.Forall₂ Stands data values
  /-- No record is without a value. -/
  leaves : ∀ c ∈ data, c.leavesNothing = false
  /-- The strict run has values only. -/
  typed : ∀ v ∈ values, v.valueType.isSome = true

/-! ### One cell -/

theorem leavesNothing_of_valueType {c : Cell} (h : c.valueType.isSome = true) :
    c.leavesNothing = false := by
  cases c with
  | defer record result => cases h
  | _ => rfl

/-- A literal is pushed by both runs. -/
theorem Retells.push (h : Retells done data values) {c : Cell} (hc : c.valueType.isSome = true) :
    Retells (done ++ [c]) (c :: data) (c :: values) where
  replays := by rw [replayCode_cons, h.replays, Cell.IsInert.flatten (.literal hc)]
  stands := .cons (.same (.literal hc)) h.stands
  leaves := List.forall_mem_cons.mpr ⟨leavesNothing_of_valueType hc, h.leaves⟩
  typed := List.forall_mem_cons.mpr ⟨hc, h.typed⟩

/-- A record of results that stand for values has a value of its own, if there are any results. -/
theorem leavesNothing_record {operands : List Cell} {outputs : List OutputType} {results : Stack}
    (hne : outputs ≠ []) (hlen : results.length = outputs.length)
    (hstands : List.Forall₂ Stands (operandsOf true (record name operands outputs)) results) :
    ∀ c ∈ record name operands outputs, c.leavesNothing = false := by
  have hpos : 0 < outputs.length := List.length_pos_iff.mpr hne
  have hrecord : (record name operands outputs).length = outputs.length := by
    simp only [record, List.length_cons, List.length_map, List.length_tail]
    omega
  -- the cells that count as values are as many as there are cells, so they are all of them
  have hall : (operandsOf true (record name operands outputs)).length =
      (record name operands outputs).length := by
    rw [hstands.length_eq, hlen, hrecord]
  intro c hc
  have hcounts := List.length_filter_eq_length_iff.mp hall c hc
  simpa [Cell.steppedOver] using hcounts

/-- A check accepts cells that stand for values on which the strict word succeeds. -/
theorem Retells.exists_operands (h : Retells done data values)
    (hr : (op.action name).apply name values = .ok values') :
    ∃ popped rest us ws, data = popped ++ rest ∧ values = us ++ ws ∧
      List.Forall₂ Stands popped us ∧ List.Forall₂ Stands rest ws ∧ Meet true op.inputs popped ∧
      examine true op.inputs data = .accepted popped rest := by
  have hvalues : ∀ v ∈ values.take (op.action name).inputs.length, v.valueType.isSome = true :=
    fun v hv => h.typed v (List.mem_of_mem_take hv)
  obtain ⟨us, ws, rfl, hmeet⟩ := Action.exists_operands hr hvalues
  rw [op.inputs_action] at hmeet
  obtain ⟨popped, rest, rfl, hus, hws⟩ := forall₂_append_left h.stands.flip
  have hnothing : ∀ c ∈ popped, c.leavesNothing = false :=
    fun c hc => h.leaves c (List.mem_append_left rest hc)
  have hpopped : List.Forall₂ (fun required c => c.meets true required = true) op.inputs popped :=
    forall₂_comp (fun required v c hv hcv => by rw [← Stands.meets_eq hcv required, hv]) hmeet hus
  refine ⟨popped, rest, us, ws, rfl, rfl, hus.flip, hws.flip, ?_, ?_⟩
  · rwa [Meet, operandsOf_of_leaves hnothing]
  · refine examine_accepted_of hpopped fun c hc => ?_
    rw [Cell.steppedOver, hnothing c hc]
    rfl

/-- **A word is recorded on the cells that stand for its operands**, and its record is the end of
the program so far. -/
theorem Retells.record (h : Retells done data values) (hw : IsWord name op)
    (hdrop : name ≠ "drop") (hr : (op.action name).apply name values = .ok values')
    (code : List Cell) :
    ∃ data', step (.quotation (.symbol name :: code) :: data) Mode.reorder.environment =
        (.ok (.quotation code :: data'), Mode.reorder.environment) ∧
      Retells (done ++ [.symbol name]) data' values' := by
  have htyped := hw.results_isSome h.typed hr
  obtain ⟨popped, rest, us, ws, rfl, rfl, hus, hws, hmeet, hexamine⟩ := h.exists_operands hr
  have hnothing : ∀ c ∈ popped, c.leavesNothing = false :=
    fun c hc => h.leaves c (List.mem_append_left rest hc)
  have hall := operandsOf_of_leaves hnothing
  have hlen : us.length = op.inputs.length := by
    rw [← hus.length_eq, ← length_operands hmeet, hall]
  -- the strict word leaves its results on the values beneath its operands
  rw [Action.apply_append _ (by rw [hlen, hw.length_inputs_action])] at hr
  obtain ⟨results, hresults, rfl⟩ := map_eq_ok_iff.mp hr
  have hstands : List.Forall₂ Stands (operandsOf true (Restack.record name popped op.outputs))
      results := by
    have hrecorded := stands_results hw hmeet (by rwa [hall]) hresults
    rwa [hall] at hrecorded
  have hcount : results.length = op.outputs.length := by
    have htypes := hw.results_typed hlen
      (fun u hu => h.typed u (List.mem_append_left ws hu)) hresults
    simpa using congrArg List.length htypes
  have hleaves := leavesNothing_record (hw.outputs_ne_nil hdrop) hcount hstands
  have hstep := step_recording_word hw code (popped ++ rest)
  rw [hexamine, recordingNext, hall, filter_of_leaves hnothing, List.nil_append] at hstep
  refine ⟨_, hstep, ?_, ?_, ?_, htyped⟩
  · rw [replayCode_append, replayCode_record, ← List.append_assoc, ← replayCode_append, h.replays]
  · rw [operandsOf_of_leaves hleaves] at hstands
    exact forall₂_append hstands hws
  · intro c hc
    rcases List.mem_append.mp hc with hc | hc
    · exact hleaves c hc
    · exact h.leaves c (List.mem_append_right popped hc)

/-! ### Programs -/

/-- **The recording run of the first part of a program**, in as many steps as the part has cells. -/
theorem runWithin_retells {first : List Cell} (h : Retells done data values)
    (hfirst : ∀ c ∈ first, c.IsProductive) (hrun : strictRun first values = .ok values')
    (code : List Cell) :
    ∃ data', runWithin first.length (.quotation (first ++ code) :: data)
        Mode.reorder.environment =
        (.ok (.quotation code :: data'), Mode.reorder.environment) ∧
      Retells (done ++ first) data' values' := by
  induction first generalizing done data values with
  | nil =>
    cases hrun
    exact ⟨data, rfl, by rwa [List.append_nil]⟩
  | cons c first ih =>
    obtain ⟨hc, hfirst⟩ := List.forall_mem_cons.mp hfirst
    obtain ⟨mid, hmid, hrest⟩ := bind_eq_ok_iff.mp hrun
    -- one step of both runs, after which the program so far is longer by `c`
    obtain ⟨data₁, hstep, hnext⟩ : ∃ data₁,
        step (.quotation (c :: (first ++ code)) :: data) Mode.reorder.environment =
          (.ok (.quotation (first ++ code) :: data₁), Mode.reorder.environment) ∧
        Retells (done ++ [c]) data₁ mid := by
      cases hc with
      | literal hvalue =>
        rw [strictStep_inert (.literal hvalue)] at hmid
        cases hmid
        exact ⟨_, step_push ((Cell.IsInert.literal hvalue).lookup .reorder) _ data, h.push hvalue⟩
      | word hw hdrop =>
        rw [strictStep_word hw] at hmid
        exact h.record hw hdrop hmid _
    obtain ⟨data', hrun', hretells⟩ := ih hnext hfirst hrest
    refine ⟨data', ?_, by simpa using hretells⟩
    rw [List.length_cons, List.cons_append, runWithin_succ_ok _ rfl hstep]
    exact hrun'

/-- After `k` steps of the recording run, the code is what is left of the program, and the data
stands for what has been run. -/
theorem runWithin_take {program : List Cell} (hprogram : ∀ c ∈ program, c.IsProductive)
    (hstrict : strictRun program [] = .ok values) {k : ℕ} (hk : k ≤ program.length) :
    ∃ data, runWithin k [.quotation program] Mode.reorder.environment =
        (.ok (.quotation (program.drop k) :: data), Mode.reorder.environment) ∧
      replayCode data = program.take k := by
  rw [← List.take_append_drop k program, strictRun_append] at hstrict
  obtain ⟨mid, hmid, -⟩ := bind_eq_ok_iff.mp hstrict
  have htake : ∀ c ∈ program.take k, c.IsProductive :=
    fun c hc => hprogram c (List.mem_of_mem_take hc)
  have hbegin : Retells [] [] [] := ⟨replayCode_nil, .nil, nofun, nofun⟩
  obtain ⟨data, hrun, hretells⟩ := runWithin_retells hbegin htake hmid (program.drop k)
  rw [List.take_append_drop, List.length_take_of_le hk] at hrun
  exact ⟨data, hrun, hretells.replays⟩

/-- A strict run that halts is the run of all cells of its program. -/
theorem strictRun_of_after {program : List Cell} (hplain : ∀ c ∈ program, c.IsPlain) {n : ℕ}
    {final : Stack} (h : After .strict program n final) (hfinal : isHalted final = true) :
    ∃ values, strictRun program [] = .ok values := by
  -- a run that has halted after `n` steps is not changed by more of them
  cases hrun : runWithin n [.quotation program] Mode.strict.environment with
  | mk outcome env =>
    rw [After, hrun] at h
    cases h
    have hlonger := runWithin_of_le hrun hfinal (Nat.le_max_left n program.length)
    rw [runWithin_strict hplain (List.forall_mem_nil _)
      (Nat.le_max_right n program.length)] at hlonger
    cases hvalues : strictRun program [] with
    | ok values => exact ⟨values, rfl⟩
    | error e =>
      rw [hvalues] at hlonger
      cases hlonger

/-- **A program is reconstructed as it was written.** Take a program of literals and words that
leave a result, and let its strict run from empty data halt without an error. Then the recording run
takes one cell of the program in each step, and halts after the last one and not before. What is
reconstructed from it, after any of these steps and in the end, is the program itself. -/
theorem reconstruction_verbatim {program : List Cell}
    (hprogram : ∀ c ∈ program, c.IsProductive) {n : ℕ} {final : Stack}
    (hstrict : After .strict program n final) (hfinal : isHalted final = true) :
    (∀ k ≤ program.length, ∃ data, After .reorder program k (.quotation (program.drop k) :: data) ∧
      reconstruct (.quotation (program.drop k) :: data) = [.quotation program]) ∧
    (∀ k, ∃ state, After .reorder program k state ∧
      (isHalted state = true ↔ program.length ≤ k)) ∧
    ∀ budget, program.length ≤ stepLimit budget →
      reorder budget [.quotation program] Mode.reorder.environment =
        (.ok [.quotation program], Mode.reorder.environment) := by
  obtain ⟨values, hvalues⟩ := strictRun_of_after (fun c hc => (hprogram c hc).plain) hstrict hfinal
  have hsteps {k : ℕ} (hk : k ≤ program.length) := runWithin_take hprogram hvalues hk
  obtain ⟨data, hend, hreplay⟩ := hsteps le_rfl
  rw [List.drop_length] at hend
  rw [List.take_length] at hreplay
  refine ⟨fun k hk => ?_, fun k => ?_, fun budget hbudget => ?_⟩
  · obtain ⟨data, hrun, hreplay⟩ := hsteps hk
    refine ⟨data, by rw [After, hrun], ?_⟩
    rw [reconstruct, gather_eq, hreplay, List.take_append_drop]
  · by_cases hk : program.length ≤ k
    · exact ⟨_, by rw [After, runWithin_of_le hend rfl hk], by simp [isHalted, hk]⟩
    · obtain ⟨data, hrun, -⟩ := hsteps (Nat.le_of_not_le hk)
      obtain ⟨c, code, hcode⟩ := List.exists_cons_of_ne_nil
        (fun hnil => hk (List.drop_eq_nil_iff.mp hnil) : program.drop k ≠ [])
      rw [hcode] at hrun
      exact ⟨_, by rw [After, hrun], by simp [isHalted, hk]⟩
  · rw [reorder, run, runWithin_of_le hend rfl hbudget]
    simp only [reconstruct_halted, hreplay]

/-- The program `1.5 [x] 2 rot + dup over < not swap rot =`: a sum of two kinds of numbers, of which
copies are compared, shuffled with a quotation. -/
theorem reconstruction_verbatim_shuffled :
    let program : List Cell := [.double 1.5, .quotation [.symbol "x"], .int 2, .symbol "rot",
      .symbol "+", .symbol "dup", .symbol "over", .symbol "<", .symbol "not", .symbol "swap",
      .symbol "rot", .symbol "="]
    (∃ final, After .strict program 12 final ∧ isHalted final = true) ∧
      (∃ data, After .reorder program 12 (.quotation [] :: data) ∧
        reconstruct (.quotation [] :: data) = [.quotation program]) ∧
      reorder none [.quotation program] Mode.reorder.environment =
        (.ok [.quotation program], Mode.reorder.environment) := by
  intro program
  have hprogram : ∀ c ∈ program, c.IsProductive := by
    simp only [program, List.forall_mem_cons]
    exact ⟨.literal rfl, .literal rfl, .literal rfl, .word .rot (by decide),
      .word .add (by decide), .word .dup (by decide), .word .pick (by decide),
      .word .less (by decide), .word .not (by decide), .word .swap (by decide),
      .word .rot (by decide), .word .equal (by decide), nofun⟩
  have hstrict : ∃ final, After .strict program 12 final ∧ isHalted final = true := ⟨_, rfl, rfl⟩
  obtain ⟨final, hafter, hfinal⟩ := hstrict
  obtain ⟨hsteps, -, hreorder⟩ := reconstruction_verbatim hprogram hafter hfinal
  exact ⟨⟨final, hafter, hfinal⟩, hsteps 12 le_rfl, hreorder none (by decide)⟩

end Restack
