import Mathlib.Data.List.Forall2
import Restack.Proofs.Words

/-!
# What the operand check does

A check finds its operands, runs out of data, or stops at a cell it rejects. `Fits`
says what each of these findings means for the data, and `examine` always gives one that
fits. A check that does not accept records finds exactly what the types of the cells say;
one that does skips a rejected record together with the dummies directly beneath it.

## Main definitions

* `operandsOf` — the cells that a check counts as operands.
* `Examination.Fits` — what a finding says about the data.
* `CoveredByFirst` — what meets a requirement meets the first one too.

## Main results

* `examine_fits` — every finding of a check fits.
* `examine_accepted_of`, `examine_rejected_of` — the findings of a check whose operands lie
  on top of the data.
* `examine_accepted`, `examine_rejected`, `examine_exhausted` — the same for a check that
  does not accept records.
* `skippedDummies_isPrefix`, `not_meets_skipped_of` — the cells that are skipped along.
-/

namespace Restack

variable {acceptDeferred : Bool} {inputs : List TypeTag} {data : Stack}

/-- The cells that a check counts as operands. -/
def operandsOf (acceptDeferred : Bool) (cells : List Cell) : List Cell :=
  cells.filter fun c => !c.steppedOver acceptDeferred

@[simp] theorem operandsOf_nil : operandsOf acceptDeferred [] = [] := rfl

theorem operandsOf_cons_stepped {c : Cell} (h : c.steppedOver acceptDeferred = true)
    (cells : List Cell) :
    operandsOf acceptDeferred (c :: cells) = operandsOf acceptDeferred cells := by
  simp [operandsOf, h]

theorem operandsOf_cons {c : Cell} (h : c.steppedOver acceptDeferred = false)
    (cells : List Cell) :
    operandsOf acceptDeferred (c :: cells) = c :: operandsOf acceptDeferred cells := by
  simp [operandsOf, h]

theorem operandsOf_append (acceptDeferred : Bool) (upper lower : List Cell) :
    operandsOf acceptDeferred (upper ++ lower) =
      operandsOf acceptDeferred upper ++ operandsOf acceptDeferred lower :=
  List.filter_append ..

/-- A check that does not accept records counts every cell. -/
@[simp] theorem operandsOf_false (cells : List Cell) : operandsOf false cells = cells := by
  simp [operandsOf, Cell.steppedOver]

/-- The operands meet the requirements one by one. -/
abbrev Meet (acceptDeferred : Bool) (inputs : List TypeTag) (cells : List Cell) : Prop :=
  List.Forall₂ (fun required c => c.meets acceptDeferred required = true) inputs
    (operandsOf acceptDeferred cells)

/-- Every operand meets one of the requirements. -/
theorem meets_of_mem_operands {cells : List Cell} (h : Meet acceptDeferred inputs cells) {c : Cell}
    (hc : c ∈ operandsOf acceptDeferred cells) :
    ∃ required ∈ inputs, c.meets acceptDeferred required = true :=
  exists_of_forall₂ h hc

/-- A cell that meets a requirement has a type. -/
theorem deferredType_of_meets {c : Cell} {required : TypeTag}
    (h : c.meets acceptDeferred required = true) : c.deferredType.isSome = true := by
  rw [Cell.meets, Cell.judgedType] at h
  cases acceptDeferred with
  | true =>
    rw [if_pos rfl] at h
    cases hc : c.deferredType with
    | none => rw [hc] at h; cases h
    | some tag => rfl
  | false =>
    rw [if_neg (by decide)] at h
    cases c with
    | defer record result => cases h
    | dummy tag => cases h
    | _ =>
      first
        | rfl
        | cases h

/-- The cells that a check accepts as operands are no words. -/
theorem isWord_of_mem_operands {cells : List Cell} (h : Meet acceptDeferred inputs cells)
    {c : Cell} (hc : c ∈ operandsOf acceptDeferred cells) : c.isWord = false := by
  obtain ⟨required, -, hmeets⟩ := meets_of_mem_operands h hc
  exact Cell.isWord_of_deferredType (deferredType_of_meets hmeets)

/-- What a finding of a check says about the data it was made on. -/
def Examination.Fits (acceptDeferred : Bool) (inputs : List TypeTag) (data : Stack) :
    Examination → Prop
  | accepted popped rest => data = popped ++ rest ∧ Meet acceptDeferred inputs popped
  | exhausted => ∃ met missing, inputs = met ++ missing ∧ missing ≠ [] ∧
      Meet acceptDeferred met data
  | rejected popped cell required rest => data = popped ++ cell :: rest ∧
      cell.steppedOver acceptDeferred = false ∧ cell.meets acceptDeferred required = false ∧
      ∃ met missing, inputs = met ++ required :: missing ∧ Meet acceptDeferred met popped

namespace Examination.Fits

/-- Stepping over a cell keeps the finding. -/
theorem stepOver {c : Cell} (hc : c.steppedOver acceptDeferred = true) {e : Examination}
    (h : e.Fits acceptDeferred inputs data) :
    (e.beneath c).Fits acceptDeferred inputs (c :: data) := by
  cases e with
  | accepted popped rest =>
    obtain ⟨rfl, hmeet⟩ := h
    exact ⟨rfl, by rwa [Meet, operandsOf_cons_stepped hc]⟩
  | exhausted =>
    obtain ⟨met, missing, hinputs, hne, hmeet⟩ := h
    exact ⟨met, missing, hinputs, hne, by rwa [Meet, operandsOf_cons_stepped hc]⟩
  | rejected popped cell required rest =>
    obtain ⟨rfl, hover, hnot, met, missing, hinputs, hmeet⟩ := h
    exact ⟨rfl, hover, hnot, met, missing, hinputs, by rwa [Meet, operandsOf_cons_stepped hc]⟩

/-- Accepting an operand puts its requirement before the others. -/
theorem accept {c : Cell} {required : TypeTag} (hover : c.steppedOver acceptDeferred = false)
    (hc : c.meets acceptDeferred required = true) {e : Examination}
    (h : e.Fits acceptDeferred inputs data) :
    (e.beneath c).Fits acceptDeferred (required :: inputs) (c :: data) := by
  cases e with
  | accepted popped rest =>
    obtain ⟨rfl, hmeet⟩ := h
    exact ⟨rfl, by rw [Meet, operandsOf_cons hover]; exact .cons hc hmeet⟩
  | exhausted =>
    obtain ⟨met, missing, rfl, hne, hmeet⟩ := h
    exact ⟨required :: met, missing, rfl, hne,
      by rw [Meet, operandsOf_cons hover]; exact .cons hc hmeet⟩
  | rejected popped cell required' rest =>
    obtain ⟨rfl, hover', hnot, met, missing, rfl, hmeet⟩ := h
    exact ⟨rfl, hover', hnot, required :: met, missing, rfl,
      by rw [Meet, operandsOf_cons hover]; exact .cons hc hmeet⟩

end Examination.Fits

/-- **Every finding of a check fits the data.** -/
theorem examine_fits (acceptDeferred : Bool) (inputs : List TypeTag) (data : Stack) :
    (examine acceptDeferred inputs data).Fits acceptDeferred inputs data := by
  induction data generalizing inputs with
  | nil =>
    cases inputs with
    | nil => exact ⟨rfl, .nil⟩
    | cons required inputs => exact ⟨[], required :: inputs, rfl, List.cons_ne_nil _ _, .nil⟩
  | cons c data ih =>
    cases inputs with
    | nil => exact ⟨rfl, .nil⟩
    | cons required inputs =>
      rw [examine]
      -- a cell that is stepped over leaves the requirements as they are
      cases hover : c.steppedOver acceptDeferred with
      | true => exact (ih (required :: inputs)).stepOver hover
      | false =>
        cases hmeets : c.meets acceptDeferred required with
        | true => exact (ih inputs).accept hover hmeets
        | false => exact ⟨rfl, hover, hmeets, [], inputs, rfl, .nil⟩

/-! ### Operands on top of the data -/

/-- A check accepts operands that lie on top of the data. -/
theorem examine_accepted_of {operands : List Cell} {rest : Stack}
    (h : List.Forall₂ (fun required c => c.meets acceptDeferred required = true) inputs operands)
    (hover : ∀ c ∈ operands, c.steppedOver acceptDeferred = false) :
    examine acceptDeferred inputs (operands ++ rest) = .accepted operands rest := by
  induction h with
  | nil => cases rest <;> rfl
  | @cons required c inputs operands hc _ ih =>
    obtain ⟨hover, hovers⟩ := List.forall_mem_cons.mp hover
    rw [List.cons_append, examine, if_neg (by simp [hover]), if_pos hc, ih hovers]
    rfl

/-- A check rejects a cell beneath its operands that does not meet the next requirement. -/
theorem examine_rejected_of {met missing : List TypeTag} {required : TypeTag}
    {operands : List Cell} {cell : Cell} {rest : Stack}
    (h : List.Forall₂ (fun required c => c.meets acceptDeferred required = true) met operands)
    (hcell : cell.meets acceptDeferred required = false)
    (hover : ∀ c ∈ cell :: operands, c.steppedOver acceptDeferred = false) :
    examine acceptDeferred (met ++ required :: missing) (operands ++ cell :: rest) =
      .rejected operands cell required rest := by
  obtain ⟨hcellOver, hovers⟩ := List.forall_mem_cons.mp hover
  clear hover
  induction h with
  | nil =>
    rw [List.nil_append, List.nil_append, examine, if_neg (by simp [hcellOver]),
      if_neg (by simp [hcell])]
  | @cons required' c inputs operands hc _ ih =>
    obtain ⟨hover, hovers⟩ := List.forall_mem_cons.mp hovers
    rw [List.cons_append, List.cons_append, examine, if_neg (by simp [hover]), if_pos hc, ih hovers]
    rfl

/-! ### Checks that do not accept records -/

theorem examine_accepted {operands : List Cell} {rest : Stack}
    (h : List.Forall₂ (fun required c => c.meets false required = true) inputs operands) :
    examine false inputs (operands ++ rest) = .accepted operands rest :=
  examine_accepted_of h fun _ _ => rfl

theorem examine_rejected {met missing : List TypeTag} {required : TypeTag} {operands : List Cell}
    {cell : Cell} {rest : Stack}
    (h : List.Forall₂ (fun required c => c.meets false required = true) met operands)
    (hcell : cell.meets false required = false) :
    examine false (met ++ required :: missing) (operands ++ cell :: rest) =
      .rejected operands cell required rest :=
  examine_rejected_of h hcell fun _ _ => rfl

theorem examine_exhausted {met missing : List TypeTag} {operands : List Cell}
    (h : List.Forall₂ (fun required c => c.meets false required = true) met operands)
    (hmissing : missing ≠ []) : examine false (met ++ missing) operands = .exhausted := by
  induction h with
  | nil =>
    obtain ⟨required, missing, rfl⟩ := List.exists_cons_of_ne_nil hmissing
    rfl
  | @cons required c inputs operands hc _ ih =>
    rw [List.cons_append, examine, if_neg (by simp [Cell.steppedOver]), if_pos hc, ih]
    rfl

/-! ### The cells skipped along -/

theorem dummyGroup_isPrefix (data : Stack) : dummyGroup data <+: data := by
  -- of the dummies and result-less records in a row, the deepest records are not part of the group
  have hdrop : ((data.takeWhile fun c => c.isDummy || c.leavesNothing).reverse.dropWhile
      Cell.leavesNothing).reverse <+: data.takeWhile fun c => c.isDummy || c.leavesNothing := by
    rw [← List.reverse_suffix, List.reverse_reverse]
    exact List.dropWhile_suffix _
  refine hdrop.trans ?_
  exact List.takeWhile_prefix _

/-- The cells skipped along with a rejected one lie directly beneath it. -/
theorem skippedDummies_isPrefix (acceptDeferred : Bool) (cell : Cell) (rest : Stack) :
    skippedDummies acceptDeferred cell rest <+: rest := by
  unfold skippedDummies
  split
  · split
    · exact dummyGroup_isPrefix rest
    · exact List.nil_prefix
  · exact List.nil_prefix

theorem skippedDummies_append_drop (acceptDeferred : Bool) (cell : Cell) (rest : Stack) :
    skippedDummies acceptDeferred cell rest ++
      rest.drop (skippedDummies acceptDeferred cell rest).length = rest :=
  List.prefix_iff_eq_append.mp (skippedDummies_isPrefix acceptDeferred cell rest)

/-- A check that does not accept records skips one cell at a time. -/
@[simp] theorem skippedDummies_false (cell : Cell) (rest : Stack) :
    skippedDummies false cell rest = [] := by
  cases cell <;> rfl

theorem mem_dummyGroup {c : Cell} {data : Stack} (h : c ∈ dummyGroup data) :
    c.isDummy = true ∨ c.leavesNothing = true := by
  have hmem : c ∈ data.takeWhile fun c => c.isDummy || c.leavesNothing := by
    rw [dummyGroup, List.mem_reverse] at h
    exact List.mem_reverse.mp ((List.dropWhile_suffix _).mem h)
  simpa using List.all_eq_true.mp List.all_takeWhile c hmem

theorem mem_skippedDummies {cell c : Cell} {rest : Stack}
    (h : c ∈ skippedDummies acceptDeferred cell rest) :
    c.isDummy = true ∨ c.leavesNothing = true := by
  unfold skippedDummies at h
  split at h
  · split at h
    · exact mem_dummyGroup h
    · cases h
  · cases h

/-- The first requirement of a check is met by whatever meets `required`. -/
def CoveredByFirst (inputs : List TypeTag) (required : TypeTag) : Prop :=
  ∀ tag, required.admits tag = true → inputs.head?.any (·.admits tag) = true

/-- A rejected cell and the dummies skipped along with it are all rejected, if the first requirement
covers the one that was not met. -/
theorem not_meets_skipped_of {required : TypeTag} (hcovered : CoveredByFirst inputs required)
    {cell : Cell} {rest : Stack} (hcell : cell.meets true required = false)
    (hparts : partsDummy true inputs cell (skippedDummies true cell rest) = false) {c : Cell}
    (hc : c ∈ operandsOf true (cell :: skippedDummies true cell rest)) :
    c.meets true required = false := by
  obtain ⟨hmem, hover⟩ := List.mem_filter.mp hc
  rcases List.mem_cons.mp hmem with rfl | hgroup
  · exact hcell
  · have hdummy : c.isDummy = true := by
      rcases mem_skippedDummies hgroup with hdummy | hnothing
      · exact hdummy
      · simp [Cell.steppedOver, hnothing] at hover
    cases c with
    | dummy tag =>
      -- no dummy of the group meets the first requirement, so none meets the other
      rw [partsDummy, Bool.true_and, Bool.or_eq_false_iff, List.any_eq_false] at hparts
      have hnot : ¬ inputs.head?.any (·.admits tag) = true := hparts.2 _ hgroup
      cases hmeets : required.admits tag with
      | true => exact absurd (hcovered tag hmeets) hnot
      | false => exact hmeets
    | _ => cases hdummy

/-- A word asks of its topmost operand what it asks of the others. -/
theorem IsWord.coveredByFirst {name : String} {op : Primitive} (hw : IsWord name op)
    {required : TypeTag} (hrequired : required ∈ op.inputs) :
    CoveredByFirst op.inputs required := by
  intro tag htag
  rw [hw.head?_inputs hrequired]
  exact htag

/-- What a word skips along with a rejected cell is rejected too. -/
theorem not_meets_skipped {name : String} {op : Primitive} (hw : IsWord name op) {cell : Cell}
    {required : TypeTag} {rest : Stack} (hrequired : required ∈ op.inputs)
    (hcell : cell.meets true required = false)
    (hparts : partsDummy true op.inputs cell (skippedDummies true cell rest) = false) {c : Cell}
    (hc : c ∈ operandsOf true (cell :: skippedDummies true cell rest)) :
    c.meets true required = false :=
  not_meets_skipped_of (hw.coveredByFirst hrequired) hcell hparts hc

end Restack
