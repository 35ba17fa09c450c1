import Restack.Proofs.OperandSearch

/-!
# What is skipped along with a record

A recorder that rejects a record skips it together with the dummies beneath it, and is left
unapplied where one of these dummies is wanted. A dummy counts as wanted if it meets the first
requirement of the check, whichever requirement the record has failed. So the recorder may skip a
dummy that a search of one cell at a time would take: it does if, and only if, the first requirement
leaves out a type that another one admits.

## Main definitions

* `RespectsRequirements` — whatever is skipped along with a record is no operand.

## Main results

* `rejected_of_skips` — what the check has found when a record is skipped.
* `select_skipped` — a search passes over cells that do not meet the requirement.
* `skips_respect_requirements_iff` — the lists of requirements for which no operand is skipped.
* `IsWord.respectsRequirements` — a word of the vocabulary skips no operand.
-/

namespace Restack

variable {inputs : List TypeTag} {outputs : List OutputType} {required : TypeTag} {name : String}
  {env : Environment} {cell : Cell} {popped group : List Cell} {data left rest : Stack}

/-- Of all that recorders with these requirements skip along with a record, nothing is a dummy that
meets the requirement at which the record was rejected, and a search of one cell at a time passes
over it too: it finds what it finds without these cells. -/
def RespectsRequirements (inputs : List TypeTag) : Prop :=
  ∀ name outputs env data code result group left,
    (Instruction.recording name inputs outputs).apply data env =
      (.ok (.continuation (.symbol name :: (group.reverse ++ [.defer code result])) :: left), env) →
    ∀ popped required rest,
      examine true inputs data = .rejected popped (.defer code result) required rest →
      (∀ c ∈ group, c.isDummy = true → c.meets true required = false) ∧
        select true inputs (operandsOf true data) =
          (select true inputs (operandsOf true left)).passing
            (operandsOf true (.defer code result :: group))

/-! ### From the data that is left to the finding of the check -/

/-- A recorder that goes back into the code has rejected a cell and wants no dummy beneath it. -/
theorem rejected_of_skips
    (h : (Instruction.recording name inputs outputs).apply data env =
      (.ok (.continuation (.symbol name :: (group.reverse ++ [cell])) :: left), env)) :
    ∃ popped required rest, examine true inputs data = .rejected popped cell required rest ∧
      group = skippedDummies true cell rest ∧ partsDummy true inputs cell group = false ∧
      left = popped ++ rest.drop group.length := by
  rw [apply_recording, Prod.mk.injEq, Except.ok.injEq] at h
  obtain ⟨h, -⟩ := h
  cases he : examine true inputs data with
  | exhausted =>
    rw [he] at h
    cases h
  | accepted popped rest =>
    rw [he] at h
    cases h
  | rejected popped rejected required rest =>
    rw [he, recordedData, retryBeneath] at h
    split at h
    · cases h
    · next hparts =>
      obtain ⟨hcode, hleft⟩ := List.cons.inj h
      have hgroup := (List.cons.inj (Cell.continuation.inj hcode)).2
      -- the rejected cell is the last of what went into the code
      obtain ⟨hreverse, hcell⟩ := List.append_inj' hgroup rfl
      obtain rfl := List.singleton_inj.mp hcell
      obtain rfl := List.reverse_injective hreverse
      exact ⟨popped, required, rest, rfl, rfl, Bool.eq_false_iff.mpr hparts, hleft.symm⟩

/-- A search passes over a rejected cell and over cells beneath it that do not meet the requirement
either, and then finds what it finds without them. -/
theorem select_skipped
    (hrejected : examine true inputs data = .rejected popped cell required (group ++ rest))
    (hnot : ∀ c ∈ operandsOf true (cell :: group), c.meets true required = false) :
    select true inputs (operandsOf true data) =
      (select true inputs (operandsOf true (popped ++ rest))).passing
        (operandsOf true (cell :: group)) := by
  have hfits := examine_fits true inputs data
  rw [hrejected] at hfits
  obtain ⟨rfl, -, -, met, missing, rfl, hmeet⟩ := hfits
  have hdata : popped ++ cell :: (group ++ rest) = popped ++ ((cell :: group) ++ rest) := rfl
  rw [hdata, operandsOf_append, operandsOf_append, operandsOf_append, select_taking hmeet,
    select_taking hmeet, select_passing hnot]
  rfl

/-! ### Which requirements are respected -/

/-- Every requirement but `any` leaves out some type. -/
theorem exists_not_admits (h : required ≠ .any) : ∃ tag, required.admits tag = false := by
  by_cases htext : required = .text
  · subst htext
    exact ⟨.bool, by decide⟩
  · refine ⟨.text, ?_⟩
    have hnumeric : TypeTag.text.isNumeric = false := by decide
    simp [TypeTag.admits, h, htext, hnumeric]

/-- A record that is rejected as an operand was not asked to be of any type whatever. -/
theorem required_of_rejected {code : List Cell} {result : Option TypeTag}
    (h : examine true inputs data = .rejected popped (.defer code result) required rest) :
    required ∈ inputs ∧ required ≠ .any := by
  have hfits := examine_fits true inputs data
  rw [h] at hfits
  obtain ⟨-, hover, hnot, met, missing, rfl, -⟩ := hfits
  refine ⟨List.mem_append_right met List.mem_cons_self, ?_⟩
  rintro rfl
  cases result with
  | none => cases hover
  | some tag => exact absurd (TypeTag.any_admits tag) (Bool.eq_false_iff.mp hnot)

/-- A check whose first requirement covers the others does not skip a dummy it is looking for. -/
theorem respectsRequirements_of_covered
    (h : ∀ required ∈ inputs, required ≠ .any → CoveredByFirst inputs required) :
    RespectsRequirements inputs := by
  intro name outputs env data code result group left hskips popped required rest hrejected
  obtain ⟨popped', required', rest', hrejected', rfl, hparts, rfl⟩ := rejected_of_skips hskips
  rw [hrejected] at hrejected'
  cases hrejected'
  have hfits := examine_fits true inputs data
  rw [hrejected] at hfits
  obtain ⟨-, -, hcell, -⟩ := hfits
  obtain ⟨hmem, hany⟩ := required_of_rejected hrejected
  have hnot : ∀ c ∈ operandsOf true (.defer code result ::
      skippedDummies true (.defer code result) rest), c.meets true required = false :=
    fun c hc => not_meets_skipped_of (h required hmem hany) hcell hparts hc
  refine ⟨fun c hc hdummy => ?_, ?_⟩
  · refine hnot c (List.mem_filter.mpr ⟨List.mem_cons_of_mem _ hc, ?_⟩)
    cases c with
    | dummy tag => rfl
    | _ => cases hdummy
  · rw [← skippedDummies_append_drop true (.defer code result) rest] at hrejected
    exact select_skipped hrejected hnot

/-- The data on which a check fails to respect a requirement: dummies that meet the requirements
before it, a record that does not meet it, and beneath the record a dummy that does. -/
def strandedDummy (met : List TypeTag) (result tag : TypeTag) : Stack :=
  met.map Cell.dummy ++ [.defer [] (some result), .dummy tag]

theorem examine_strandedDummy {met missing : List TypeTag} {result tag : TypeTag}
    (h : required.admits result = false) :
    examine true (met ++ required :: missing) (strandedDummy met result tag) =
      .rejected (met.map .dummy) (.defer [] (some result)) required [.dummy tag] := by
  refine examine_rejected_of ?_ h ?_
  · exact List.forall₂_map_right_iff.mpr (List.forall₂_same.mpr fun t _ => t.admits_self)
  · intro c hc
    rcases List.mem_cons.mp hc with rfl | hc
    · rfl
    · obtain ⟨t, -, rfl⟩ := List.mem_map.mp hc
      rfl

/-- A dummy that meets a later requirement and not the first one is skipped all the same. -/
theorem apply_strandedDummy {met missing : List TypeTag} {result tag : TypeTag}
    (h : required.admits result = false)
    (hfirst : (met ++ required :: missing).head?.any (·.admits tag) = false) (name : String)
    (outputs : List OutputType) (env : Environment) :
    (Instruction.recording name (met ++ required :: missing) outputs).apply
        (strandedDummy met result tag) env =
      (.ok (.continuation (.symbol name :: ([Cell.dummy tag].reverse ++
        [.defer [] (some result)])) :: met.map .dummy), env) := by
  have hparts : partsDummy true (met ++ required :: missing) (.defer [] (some result))
      [.dummy tag] = false := by
    rw [partsDummy, Bool.true_and, Bool.or_eq_false_iff]
    refine ⟨rfl, List.any_eq_false.mpr fun c hc => ?_⟩
    obtain rfl := List.mem_singleton.mp hc
    exact Bool.eq_false_iff.mp hfirst
  have hgroup : skippedDummies true (.defer [] (some result)) [.dummy tag] = [.dummy tag] := rfl
  rw [apply_recording, examine_strandedDummy h, recordedData, retryBeneath]
  simp [hgroup, hparts]

/-- **Which recorders skip no operand along with a record.** They are those whose first requirement
admits every type that another requirement admits; a requirement that admits all types is left
aside, because no record is rejected there. -/
theorem skips_respect_requirements_iff (inputs : List TypeTag) :
    RespectsRequirements inputs ↔
      ∀ required ∈ inputs, required ≠ .any → ∀ tag, required.admits tag = true →
        inputs.head?.any (·.admits tag) = true := by
  refine ⟨fun h required hmem hany tag htag => ?_, respectsRequirements_of_covered⟩
  by_contra hfirst
  obtain ⟨result, hresult⟩ := exists_not_admits hany
  obtain ⟨met, missing, rfl⟩ := List.append_of_mem hmem
  -- the dummy beneath the record meets the requirement, and is skipped
  have hskips := apply_strandedDummy hresult (Bool.eq_false_iff.mpr hfirst) "" [] {}
  have hnot := (h _ _ _ _ _ _ _ _ hskips _ _ _ (examine_strandedDummy hresult)).1 (.dummy tag)
    (List.mem_singleton.mpr rfl) rfl
  exact absurd htag (Bool.eq_false_iff.mp hnot)

/-- A recorder of two requirements on the data `k`, a record of a truth value, and the dummy of a
number beneath it. The second requirement rejects the record and asks for a number, but the dummy is
skipped, while a search of one cell at a time takes it. -/
theorem skip_passes_wanted_dummy :
    let record : Cell := .defer [.bool true, .int 1, .symbol "swap"] (some .bool)
    let data : Stack := [.text "k", record, .dummy .int]
    (Instruction.recording "put" [.text, .int] [.fixed .bool]).apply data
          Mode.reorder.environment =
        (.ok [.continuation [.symbol "put", .dummy .int, record], .text "k"],
          Mode.reorder.environment) ∧
      (select true [.text, .int] (operandsOf true data)).operands = [.text "k", .dummy .int] ∧
      ¬ RespectsRequirements [.text, .int] := by
  intro record data
  refine ⟨rfl, rfl, fun h => ?_⟩
  have hnot := (h "put" [.fixed .bool] Mode.reorder.environment data _ _ [.dummy .int] [.text "k"]
    rfl _ .int _ rfl).1 (.dummy .int) (List.mem_singleton.mpr rfl) rfl
  exact absurd hnot (by decide)

/-- A word asks the same of all its operands, so it skips none along with a record. -/
theorem IsWord.respectsRequirements {op : Primitive} (hw : IsWord name op) :
    RespectsRequirements op.inputs :=
  respectsRequirements_of_covered fun _ hmem _ => hw.coveredByFirst hmem

end Restack
