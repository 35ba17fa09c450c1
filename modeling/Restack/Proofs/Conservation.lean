import Restack.Proofs.Mirror
import Restack.Proofs.Progress

/-!
# Recording loses nothing and copies nothing

A recording run moves the cells of its program into records and between code and data.
Flattened, code and data together hold the cells of the program at all times, each as
often as it occurs there.

## Main definitions

* `contents` — the cells of code and data, with every record flattened.

## Main results

* `step_recording_perm` — a step keeps the contents up to their order.
* `runWithin_recording_perm` — and so does a run.
* `recording_permutes_program` — what code and data hold after any number of steps, and what
  is reconstructed when the run has halted, is a permutation of the program.
-/

namespace Restack

open scoped List

variable {code code' program : List Cell} {data data' : Stack}

/-- The cells of code and data, with every record flattened and the dummies left out. -/
def contents (code : List Cell) (data : Stack) : List Cell :=
  Cell.flattenList code ++ Cell.flattenList data

theorem contents_eq (code : List Cell) (data : Stack) :
    contents code data = Cell.flattenList (code ++ data) := by
  rw [contents, Cell.flattenList_append]

theorem Cell.flattenList_eq_flatMap (cells : List Cell) :
    Cell.flattenList cells = cells.flatMap Cell.flatten := by
  induction cells with
  | nil => rw [Cell.flattenList, List.flatMap_nil]
  | cons c cells ih => rw [Cell.flattenList, ih, List.flatMap_cons]

theorem Cell.flattenList_perm {xs ys : List Cell} (h : xs ~ ys) :
    Cell.flattenList xs ~ Cell.flattenList ys := by
  rw [Cell.flattenList_eq_flatMap, Cell.flattenList_eq_flatMap]
  exact h.flatMap_right _

/-- Moving cells around keeps the contents. -/
theorem contents_perm (h : code' ++ data' ~ code ++ data) :
    contents code' data' ~ contents code data := by
  rw [contents_eq, contents_eq]
  exact Cell.flattenList_perm h

theorem replayCode_perm (cells : List Cell) : replayCode cells ~ Cell.flattenList cells :=
  Cell.flattenList_perm (List.reverse_perm cells)

/-- A record holds its operands and its word. -/
theorem flattenList_record_perm (name : String) (operands : List Cell)
    (outputs : List OutputType) :
    Cell.flattenList (record name operands outputs) ~
      .symbol name :: Cell.flattenList operands := by
  refine (replayCode_perm _).symm.trans ?_
  rw [replayCode_record]
  exact (List.perm_append_singleton _ _).trans ((replayCode_perm operands).cons _)

/-- The operands of a check and the records it steps over are the cells it has looked at. -/
theorem operandsOf_append_perm (popped : List Cell) :
    operandsOf true popped ++ popped.filter Cell.leavesNothing ~ popped := by
  have hops : operandsOf true popped = popped.filter fun c => !c.leavesNothing := rfl
  rw [hops]
  exact List.perm_append_comm.trans (List.filter_append_perm _ _)

/-- **A recording step keeps the contents.** -/
theorem step_recording_perm {c : Cell} (hc : c.IsTame) (code : List Cell) (data : Stack) :
    ∃ code' data', step (.quotation (c :: code) :: data) Mode.reorder.environment =
        (.ok (.quotation code' :: data'), Mode.reorder.environment) ∧
      contents code' data' ~ contents (c :: code) data := by
  rcases hc.word_or_lookup with ⟨name, op, hw, rfl⟩ | hnone
  · rw [step_recording_word hw]
    have hfits := examine_fits true op.inputs data
    cases he : examine true op.inputs data with
    | exhausted => exact ⟨_, _, rfl, contents_perm List.perm_middle⟩
    | rejected popped cell required rest =>
      obtain ⟨rfl, -⟩ := he ▸ hfits
      rw [recordingNext]
      split
      · exact ⟨_, _, rfl, contents_perm List.perm_middle⟩
      · refine ⟨_, _, rfl, contents_perm ?_⟩
        have hperm := perm_skip (.symbol name) code popped cell (skippedDummies true cell rest)
          (rest.drop (skippedDummies true cell rest).length)
        rwa [skippedDummies_append_drop] at hperm
    | accepted popped rest =>
      obtain ⟨rfl, -⟩ := he ▸ hfits
      refine ⟨_, _, rfl, ?_⟩
      -- the word moves into the record, next to the operands that were on the data
      have hword : Cell.flattenList (.symbol name :: code) =
          .symbol name :: Cell.flattenList code := by
        rw [Cell.flattenList, Cell.flatten, List.singleton_append] <;> simp
      have hcells : Cell.flattenList (operandsOf true popped) ++
          (Cell.flattenList (popped.filter Cell.leavesNothing) ++ Cell.flattenList rest) ~
          Cell.flattenList (popped ++ rest) := by
        rw [← List.append_assoc, ← Cell.flattenList_append, Cell.flattenList_append popped]
        exact (Cell.flattenList_perm (operandsOf_append_perm popped)).append_right _
      rw [contents, contents, hword, Cell.flattenList_append, Cell.flattenList_append]
      calc Cell.flattenList code ++
            (Cell.flattenList (record name (operandsOf true popped) op.outputs) ++
              (Cell.flattenList (popped.filter Cell.leavesNothing) ++ Cell.flattenList rest))
        _ ~ Cell.flattenList code ++ (.symbol name :: Cell.flattenList (operandsOf true popped) ++
            (Cell.flattenList (popped.filter Cell.leavesNothing) ++ Cell.flattenList rest)) :=
          ((flattenList_record_perm name _ _).append_right _).append_left _
        _ ~ .symbol name :: (Cell.flattenList code ++ (Cell.flattenList (operandsOf true popped) ++
            (Cell.flattenList (popped.filter Cell.leavesNothing) ++ Cell.flattenList rest))) :=
          List.perm_middle
        _ ~ .symbol name :: (Cell.flattenList code ++ Cell.flattenList (popped ++ rest)) :=
          (hcells.append_left _).cons _
  · exact ⟨code, c :: data, step_push (hnone .reorder) code data, contents_perm List.perm_middle⟩

/-- **A recording run keeps the contents**, and does not fail. -/
theorem runWithin_recording_perm (n : ℕ) (hcode : ∀ d ∈ code, d.IsTame)
    (hdata : ∀ d ∈ data, d.IsTame) :
    ∃ code' data', runWithin n (.quotation code :: data) Mode.reorder.environment =
        (.ok (.quotation code' :: data'), Mode.reorder.environment) ∧
      contents code' data' ~ contents code data := by
  induction n generalizing code data with
  | zero => exact ⟨code, data, rfl, .refl _⟩
  | succ n ih =>
    cases code with
    | nil => exact ⟨[], data, runWithin_halted _ _ rfl, .refl _⟩
    | cons c code =>
      have hc := hcode c List.mem_cons_self
      obtain ⟨code', data', hstep, hperm⟩ := step_recording_perm hc code data
      have htame : (∀ d ∈ code', d.IsTame) ∧ ∀ d ∈ data', d.IsTame := by
        rcases step_move (.inr rfl) hc hdata code with ⟨e, hstep'⟩ | ⟨code₁, data₁, hstep', hmove⟩
        · rw [hstep] at hstep'
          cases hstep'
        · rw [hstep] at hstep'
          cases hstep'
          exact hmove.tame hcode hdata
      obtain ⟨code'', data'', hrun, hperm'⟩ := ih htame.1 htame.2
      exact ⟨code'', data'', by rw [runWithin_succ_ok n rfl hstep, hrun], hperm'.trans hperm⟩

/-- A program is its own flattened form. -/
theorem flattenList_plain (h : ∀ c ∈ program, c.IsPlain) :
    Cell.flattenList program = program := by
  induction program with
  | nil => rw [Cell.flattenList]
  | cons c program ih =>
    have hc : c.flatten = [c] := by
      cases h c List.mem_cons_self with
      | inert hi => exact hi.flatten
      | word hw => rw [Cell.flatten] <;> simp
    rw [Cell.flattenList, hc, ih fun d hd => h d (List.mem_cons_of_mem c hd), List.singleton_append]

/-- Data and code of the recording run of a program, read in the order in which they are replayed,
hold the cells of the program. -/
theorem runWithin_program_perm (hplain : ∀ c ∈ program, c.IsPlain) (n : ℕ) :
    ∃ code data, runWithin n [.quotation program] Mode.reorder.environment =
        (.ok (.quotation code :: data), Mode.reorder.environment) ∧
      replayCode data ++ Cell.flattenList code ~ program := by
  obtain ⟨code, data, hrun, hperm⟩ := runWithin_recording_perm n
    (fun c hc => .plain (hplain c hc)) (fun d (hd : d ∈ ([] : Stack)) => nomatch hd)
  refine ⟨code, data, hrun, ?_⟩
  calc replayCode data ++ Cell.flattenList code
    _ ~ Cell.flattenList data ++ Cell.flattenList code := (replayCode_perm data).append_right _
    _ ~ contents code data := List.perm_append_comm
    _ ~ contents program [] := hperm
    _ = program := by rw [contents_eq, List.append_nil, flattenList_plain hplain]

/-- What is reconstructed from a run that has halted is the code that replays its data. -/
theorem reconstruct_halted (data : Stack) :
    reconstruct (.quotation [] :: data) = [.quotation (replayCode data)] := by
  rw [reconstruct, gather_eq, List.append_nil]

/-- **Recording loses nothing and copies nothing.** Take a program of literals, free symbols and
words. After any number of steps of its recording run, the data from the bottom up and the code
behind it, with every record flattened and the dummies left out, are a permutation of the program.
When the run has halted, so is what is reconstructed from it. -/
theorem recording_permutes_program (hplain : ∀ c ∈ program, c.IsPlain) (n : ℕ) :
    ∃ code data, After .reorder program n (.quotation code :: data) ∧
      Cell.flattenList (data.reverse ++ code) ~ program ∧
      (isHalted (.quotation code :: data) = true →
        ∃ rebuilt, rebuilt ~ program ∧
          reconstruct (.quotation code :: data) = [.quotation rebuilt] ∧
          ∀ budget, n ≤ stepLimit budget →
            (reorder budget [.quotation program] Mode.reorder.environment).1 =
              .ok [.quotation rebuilt]) := by
  obtain ⟨code, data, hrun, hperm⟩ := runWithin_program_perm hplain n
  refine ⟨code, data, by rw [After, hrun], ?_, fun hhalted => ?_⟩
  · rwa [Cell.flattenList_append, ← replayCode]
  · cases code with
    | cons c code => cases hhalted
    | nil =>
      rw [Cell.flattenList, List.append_nil] at hperm
      refine ⟨replayCode data, hperm, reconstruct_halted data, fun budget hbudget => ?_⟩
      rw [reorder, run, runWithin_of_le hrun rfl hbudget]
      simp only [reconstruct_halted]

/-- The theorem at `1 2 dup drop -`: the difference steps over the record of the dropped copy, and
the reconstruction `2 dup drop 1 -` has the cells of the program in another order. -/
theorem recording_permutes_program_dropped_copy :
    let program : List Cell := [.int 1, .int 2, .symbol "dup", .symbol "drop", .symbol "-"]
    let rebuilt : List Cell := [.int 2, .symbol "dup", .symbol "drop", .int 1, .symbol "-"]
    rebuilt ~ program ∧
      ∀ budget, 5 ≤ stepLimit budget →
        (reorder budget [.quotation program] Mode.reorder.environment).1 =
          .ok [.quotation rebuilt] := by
  intro program rebuilt
  have hplain : ∀ c ∈ program, c.IsPlain := by
    intro c hc
    simp only [program, List.mem_cons, List.not_mem_nil, or_false] at hc
    rcases hc with rfl | rfl | rfl | rfl | rfl
    · exact .inert (.literal rfl)
    · exact .inert (.literal rfl)
    · exact .word .dup
    · exact .word .drop
    · exact .word .sub
  have hfinal : ∃ data, After .reorder program 5 (.quotation [] :: data) ∧
      reconstruct (.quotation [] :: data) = [.quotation rebuilt] := ⟨_, rfl, rfl⟩
  obtain ⟨code, data, hafter, -, hhalted⟩ := recording_permutes_program hplain 5
  obtain ⟨data', hafter', hrebuilt⟩ := hfinal
  cases Except.ok.inj (hafter.symm.trans hafter')
  obtain ⟨rebuilt', hperm, hreconstruct, hreorder⟩ := hhalted rfl
  obtain rfl : rebuilt' = rebuilt := by
    rw [hreconstruct] at hrebuilt
    injection hrebuilt with hcell
    injection hcell
  exact ⟨hperm, hreorder⟩

end Restack
