import Restack.Inference
import Restack.Proofs.StrictRun
import Restack.Proofs.Valuation

/-!
# One use of a stack effect

The data of an inference run holds what was produced, and among it the notes of earlier
uses. A use takes the values at the top and passes the notes by. Nothing that was noted
is lost: bindings are kept, and the inputs that were missing come after those that were
missing before.

## Main definitions

* `Cell.IsConcrete`, `Cell.IsInferred` — what programs hold, and what inference leaves
  on the data.
* `valuesOf`, `needsOf`, `pinnedOf` — the data taken apart.
* `DeclaredUse` — what a use does to each of these.

## Main results

* `consume_spec` — what taking the declared inputs means for the types.
* `applyDeclared_use` — a successful application is a `DeclaredUse`.
-/

namespace Restack

variable {name : String} {op : Primitive} {data data' : Stack} {required : List Cell}
  {θ : Substitution}

/-- A cell that is not a type and mentions no variable at any depth. -/
def Cell.IsConcrete (c : Cell) : Prop := (∀ tag, c ≠ .type tag) ∧ ∀ v, ¬ c.Mentions v

/-- The cells on the data of an inference run. -/
inductive Cell.IsInferred : Cell → Prop
  /-- A type or a variable that was produced. -/
  | term {c : Cell} (h : c.IsTerm) : Cell.IsInferred c
  /-- A cell of the program. -/
  | pushed {c : Cell} (h : c.IsPlain) (hc : c.IsConcrete) : Cell.IsInferred c
  /-- Variables that a use has pinned. -/
  | bindings {entries : Substitution} (h : entries.OfTerms) : Cell.IsInferred (.bindings entries)
  /-- Inputs that a use has not found. -/
  | residual {needs : List Cell} (h : ∀ r ∈ needs, r.IsTerm) : Cell.IsInferred (.residual needs)

/-! ### The data taken apart -/

/-- What was produced, top first. -/
def valuesOf (data : Stack) : List Cell := data.filter fun c => !c.isNote

/-- What is needed from outside, top first: what was noted first comes first. -/
def needsOf (data : Stack) : List Cell := data.reverse.flatMap Cell.needed

/-- What was pinned, the oldest first. -/
def pinnedOf (data : Stack) : List (String × Cell) := data.reverse.flatMap Cell.pinned

@[simp] theorem valuesOf_nil : valuesOf [] = [] := rfl

@[simp] theorem valuesOf_append (upper lower : Stack) :
    valuesOf (upper ++ lower) = valuesOf upper ++ valuesOf lower := List.filter_append ..

theorem valuesOf_cons_value {c : Cell} (hc : c.isNote = false) (data : Stack) :
    valuesOf (c :: data) = c :: valuesOf data := by
  simp [valuesOf, hc]

theorem valuesOf_cons_note {c : Cell} (hc : c.isNote = true) (data : Stack) :
    valuesOf (c :: data) = valuesOf data := by
  simp [valuesOf, hc]

@[simp] theorem needsOf_nil : needsOf [] = [] := rfl

@[simp] theorem needsOf_append (upper lower : Stack) :
    needsOf (upper ++ lower) = needsOf lower ++ needsOf upper := by
  simp [needsOf]

@[simp] theorem needsOf_cons (c : Cell) (data : Stack) :
    needsOf (c :: data) = needsOf data ++ c.needed := by
  simp [needsOf]

theorem mem_pinnedOf {e : String × Cell} : e ∈ pinnedOf data ↔ ∃ c ∈ data, e ∈ c.pinned := by
  simp [pinnedOf]

/-- What is not a note notes nothing. -/
theorem Cell.noted_of_value {c : Cell} (hc : c.isNote = false) : c.needed = [] ∧ c.pinned = [] := by
  cases c with
  | bindings entries => cases hc
  | residual needs => cases hc
  | _ => exact ⟨rfl, rfl⟩

theorem needsOf_filter_note (data : Stack) : needsOf (data.filter Cell.isNote) = needsOf data := by
  induction data with
  | nil => rfl
  | cons c data ih =>
    cases hc : c.isNote with
    | true => simp [hc, ih]
    | false => simp [hc, ih, (Cell.noted_of_value hc).1]

theorem Cell.IsTerm.isNote {c : Cell} (h : c.IsTerm) : c.isNote = false := by
  cases h <;> rfl

theorem Cell.IsPlain.isNote {c : Cell} (h : c.IsPlain) : c.isNote = false := by
  cases h with
  | inert h =>
    cases h with
    | literal h =>
      cases c with
      | bindings entries => cases h
      | residual needs => cases h
      | _ => rfl
    | free h => rfl
  | word h => rfl

theorem Cell.IsInferred.ofTerms {entries : Substitution}
    (h : (Cell.bindings entries).IsInferred) : entries.OfTerms := by
  cases h with
  | term h => cases h
  | pushed h _ => cases h.isNote
  | bindings h => exact h

/-- A list without notes is all values. -/
theorem valuesOf_eq_self (h : ∀ c ∈ data, c.isNote = false) : valuesOf data = data := by
  rw [valuesOf, List.filter_eq_self]
  intro c hc
  rw [h c hc]
  rfl

theorem needsOf_eq_nil (h : ∀ c ∈ data, c.isNote = false) : needsOf data = [] := by
  rw [needsOf, List.flatMap_eq_nil_iff]
  intro c hc
  exact (Cell.noted_of_value (h c (List.mem_reverse.mp hc))).1

/-! ### Taking the declared inputs -/

/-- The type that a data cell stands for is a term. -/
theorem Cell.typeFor_isTerm {c actual : Cell} (h : c.typeFor name = .ok actual) :
    actual.IsTerm := by
  unfold Cell.typeFor at h
  split at h
  · cases h; exact .type _
  · cases h; exact .var _
  · split at h
    · cases h; exact .type _
    · cases h

/-- A required term that a data cell was found for: both denote one type. -/
def FoundBy (name : String) (types : String → TypeTag) (r c : Cell) : Prop :=
  ∃ actual, c.typeFor name = .ok actual ∧ denotes types r = denotes types actual

/-- What taking the declared inputs off the data means. -/
structure Taken (name : String) (required : List Cell) (data : Stack) (θ : Substitution)
    (taken : Consumption) (front found : List Cell) : Prop where
  /-- The data is what was looked at over the rest. -/
  split : data = front ++ taken.rest
  /-- The notes passed by are those of the cells looked at. -/
  aside : taken.aside = front.filter Cell.isNote
  /-- Every input was found or is missing. -/
  inputs : required = found ++ taken.missing.getD []
  /-- Inputs are only missing where the data has run out. -/
  exhausted : taken.missing.getD [] = [] ∨ taken.rest = []
  /-- An input was found for every value looked at. -/
  length : found.length = (valuesOf front).length
  /-- Variables are pinned to terms. -/
  ofTerms : taken.theta.OfTerms
  /-- What makes the outcome true makes the earlier substitution true. -/
  models : ∀ types, Models types taken.theta → Models types θ
  /-- And every input denotes the type of the cell that was found for it. -/
  found : ∀ types, Models types taken.theta →
    List.Forall₂ (FoundBy name types) found (valuesOf front)

/-- Taking an input from a value. -/
theorem consume_value {r c : Cell} (hc : c.isNote = false) (required : List Cell) (data : Stack)
    (θ : Substitution) :
    consume name (r :: required) (c :: data) θ =
      match c.typeFor name with
      | .error e => .error e
      | .ok actual =>
        match unify r actual θ with
        | .ok θ => consume name required data θ
        | .error e => .error (.unification e) := by
  cases c with
  | bindings entries => cases hc
  | residual needs => cases hc
  | _ => rfl

/-- Taking nothing. -/
theorem Taken.none (name : String) (data : Stack) (hθ : θ.OfTerms) :
    Taken name [] data θ { theta := θ, rest := data } [] [] where
  split := rfl
  aside := rfl
  inputs := rfl
  exhausted := .inl rfl
  length := rfl
  ofTerms := hθ
  models := fun _ hm => hm
  found := fun _ _ => .nil

/-- Passing a note by. -/
theorem Taken.pass {taken : Consumption} {front found : List Cell} {c : Cell}
    {θ₁ : Substitution} (hc : c.isNote = true) (h : Taken name required data θ₁ taken front found)
    (hθ : ∀ types, Models types θ₁ → Models types θ) :
    Taken name required (c :: data) θ (taken.pass c) (c :: front) found where
  split := by rw [h.split]; rfl
  aside := by rw [Consumption.pass, h.aside, List.filter_cons, if_pos hc]
  inputs := h.inputs
  exhausted := h.exhausted
  length := by rw [valuesOf_cons_note hc, h.length]
  ofTerms := h.ofTerms
  models := fun types hm => hθ types (h.models types hm)
  found := by rw [valuesOf_cons_note hc]; exact h.found

/-- Finding an input. -/
theorem Taken.find {taken : Consumption} {front found : List Cell} {r c actual : Cell}
    {θ₁ : Substitution} (hc : c.isNote = false) (hactual : c.typeFor name = .ok actual)
    (hunify : Entails θ θ₁ r actual) (h : Taken name required data θ₁ taken front found) :
    Taken name (r :: required) (c :: data) θ taken (c :: front) (r :: found) where
  split := by rw [h.split]; rfl
  aside := by rw [h.aside, List.filter_cons, if_neg (by simp [hc])]
  inputs := by rw [h.inputs]; rfl
  exhausted := h.exhausted
  length := by rw [valuesOf_cons_value hc, List.length_cons, List.length_cons, h.length]
  ofTerms := h.ofTerms
  models := fun types hm => hunify.models types (h.models types hm)
  found := by
    intro types hm
    rw [valuesOf_cons_value hc]
    exact .cons ⟨actual, hactual, hunify.same types (h.models types hm)⟩ (h.found types hm)

/-- **What taking the declared inputs means for the types.** -/
theorem consume_spec {taken : Consumption} (hrequired : ∀ r ∈ required, r.IsTerm)
    (hdata : ∀ entries : Substitution, .bindings entries ∈ data → entries.OfTerms)
    (hθ : θ.OfTerms) (h : consume name required data θ = .ok taken) :
    ∃ front found, Taken name required data θ taken front found := by
  induction data generalizing required θ taken with
  | nil =>
    cases required with
    | nil =>
      cases h
      exact ⟨[], [], .none name [] hθ⟩
    | cons r required =>
      -- the data has run out, so that all that is still required is missing
      cases h
      exact ⟨[], [], rfl, rfl, rfl, .inr rfl, rfl, hθ, fun _ hm => hm, fun _ _ => .nil⟩
  | cons c data ih =>
    have htail : ∀ entries : Substitution, .bindings entries ∈ data → entries.OfTerms :=
      fun entries he => hdata entries (List.mem_cons_of_mem c he)
    cases required with
    | nil =>
      cases h
      exact ⟨[], [], .none name (c :: data) hθ⟩
    | cons r required =>
      cases hnote : c.isNote with
      | false =>
        rw [consume_value hnote] at h
        cases hactual : c.typeFor name with
        | error e => rw [hactual] at h; cases h
        | ok actual =>
          rw [hactual] at h
          cases hunify : unify r actual θ with
          | error e => simp only [hunify] at h; cases h
          | ok θ₁ =>
            simp only [hunify] at h
            have hentails := unify_terms (hrequired r List.mem_cons_self)
              (Cell.typeFor_isTerm hactual) hθ hunify
            obtain ⟨front, found, htaken⟩ := ih
              (fun d hd => hrequired d (List.mem_cons_of_mem r hd)) htail hentails.ofTerms h
            exact ⟨c :: front, r :: found, htaken.find hnote hactual hentails⟩
      | true =>
        cases c with
        | bindings entries =>
          have hentries := hdata entries List.mem_cons_self
          simp only [consume] at h
          cases hunify : unifyBindings entries θ with
          | error e => simp only [hunify] at h; cases h
          | ok θ₁ =>
            simp only [hunify] at h
            obtain ⟨hterms, hmodels⟩ := unifyBindings_terms hentries hθ hunify
            obtain ⟨taken₁, hrest, rfl⟩ := map_eq_ok_iff.mp h
            obtain ⟨front, found, htaken⟩ := ih hrequired htail hterms hrest
            exact ⟨_ :: front, found, htaken.pass rfl fun types hm => (hmodels types hm).1⟩
        | residual needs =>
          simp only [consume] at h
          obtain ⟨taken₁, hrest, rfl⟩ := map_eq_ok_iff.mp h
          obtain ⟨front, found, htaken⟩ := ih hrequired htail hθ hrest
          exact ⟨_ :: front, found, htaken.pass rfl fun _ hm => hm⟩
        | _ => cases hnote

/-! ### Renaming -/

theorem ofTerms_meet {r : Renaming} (h : r.map.OfTerms) (v : String) : (r.meet v).map.OfTerms := by
  unfold Renaming.meet
  split
  · exact h
  · exact Substitution.ofTerms_bind h v (.var _)

theorem ofTerms_foldl_meet (vars : List String) {r : Renaming} (h : r.map.OfTerms) :
    (vars.foldl Renaming.meet r).map.OfTerms := by
  induction vars generalizing r with
  | nil => exact h
  | cons v vars ih => exact ih (ofTerms_meet h v)

/-- A renamed stack effect is a substituted one. -/
theorem exists_renaming (s : Signature) (names : NameSource) :
    ∃ ρ : Substitution, ρ.OfTerms ∧ (s.freshen names).1.consumes = s.consumes.map ρ.substitute ∧
      (s.freshen names).1.produces = s.produces.map ρ.substitute :=
  ⟨_, ofTerms_foldl_meet _ Substitution.ofTerms_nil, rfl, rfl⟩

/-! ### A use as a whole -/

/-- What one use of the stack effect of a word does to the data. -/
structure DeclaredUse (name : String) (op : Primitive) (data data' : Stack) where
  /-- How the variables of the stack effect are renamed. -/
  renames : Substitution
  /-- What the use pins down. -/
  pins : Substitution
  /-- The cells looked at. -/
  front : Stack
  /-- The cells beneath them. -/
  rest : Stack
  /-- The inputs that were found. -/
  found : List Cell
  /-- The inputs that are missing. -/
  missing : List Cell
  /-- Variables are renamed to terms. -/
  renames_ofTerms : renames.OfTerms
  /-- Variables are pinned to terms. -/
  pins_ofTerms : pins.OfTerms
  /-- The data is what was looked at over the rest. -/
  split : data = front ++ rest
  /-- Every input was found or is missing. -/
  inputs : op.signature.consumes.map renames.substitute = found ++ missing
  /-- Inputs are only missing where the data has run out. -/
  exhausted : missing = [] ∨ rest = []
  /-- An input was found for every value looked at. -/
  length : found.length = (valuesOf front).length
  /-- Types that make the pins true make every input denote the type of what was found for it. -/
  foundBy : ∀ types, Models types pins → List.Forall₂ (FoundBy name types) found (valuesOf front)
  /-- The outputs take the place of the values looked at. -/
  values : valuesOf data' =
    op.signature.produces.map (fun r => pins.substitute (renames.substitute r)) ++ valuesOf rest
  /-- The missing inputs come after those that were needed before. -/
  needs : needsOf data' = needsOf data ++ missing
  /-- The pins of this use are noted. -/
  pinned : ∀ e ∈ pins, e ∈ pinnedOf data'
  /-- The pins of earlier uses stay. -/
  keeps : ∀ e ∈ pinnedOf data, e ∈ pinnedOf data'
  /-- The data is again what inference leaves. -/
  inferred : ∀ c ∈ data', c.IsInferred

/-- The notes that a use leaves of its own. -/
def Consumption.notes (taken : Consumption) : Stack :=
  (if taken.theta.isEmpty then [] else [.bindings taken.theta]) ++
    match taken.missing with
    | some needs => [.residual needs]
    | none => []

theorem Consumption.leave_eq (taken : Consumption) (produces : Stack) :
    taken.leave produces =
      produces.map taken.theta.substitute ++ (taken.notes ++ (taken.aside ++ taken.rest)) := by
  cases hmissing : taken.missing with
  | none => simp [Consumption.leave, Consumption.notes, hmissing]
  | some needs => simp [Consumption.leave, Consumption.notes, hmissing]

theorem Consumption.mem_notes {taken : Consumption} {c : Cell} (h : c ∈ taken.notes) :
    c = .bindings taken.theta ∨ ∃ needs, taken.missing = some needs ∧ c = .residual needs := by
  rw [Consumption.notes] at h
  rcases List.mem_append.mp h with h | h
  · split at h
    · cases h
    · exact .inl (List.mem_singleton.mp h)
  · split at h
    · rename_i needs hneeds
      exact .inr ⟨needs, hneeds, List.mem_singleton.mp h⟩
    · cases h

theorem Consumption.isNote_of_mem_notes {taken : Consumption} {c : Cell} (h : c ∈ taken.notes) :
    c.isNote = true := by
  rcases Consumption.mem_notes h with rfl | ⟨needs, -, rfl⟩
  · rfl
  · rfl

/-- Notes are no values. -/
theorem valuesOf_eq_nil (h : ∀ c ∈ data, c.isNote = true) : valuesOf data = [] := by
  rw [valuesOf, List.filter_eq_nil_iff]
  intro c hc
  rw [h c hc]
  exact Bool.false_ne_true

theorem Consumption.needsOf_notes (taken : Consumption) :
    needsOf taken.notes = taken.missing.getD [] := by
  have hbindings : needsOf (if taken.theta.isEmpty then [] else [.bindings taken.theta]) = [] := by
    split <;> rfl
  rw [Consumption.notes, needsOf_append, hbindings, List.append_nil]
  cases taken.missing with
  | none => rfl
  | some needs => exact List.append_nil needs

/-! ### What a use leaves -/

section Leave

variable {taken : Consumption} {front found : List Cell} {produces : Stack}

theorem Taken.isNote_of_mem_aside (h : Taken name required data θ taken front found) {c : Cell}
    (hc : c ∈ taken.aside) : c.isNote = true ∧ c ∈ front := by
  rw [h.aside, List.mem_filter] at hc
  exact hc.symm

theorem Taken.isTerm_of_mem_outputs (h : Taken name required data θ taken front found)
    (houts : ∀ c ∈ produces, c.IsTerm) {c : Cell}
    (hc : c ∈ produces.map taken.theta.substitute) : c.IsTerm := by
  obtain ⟨r, hr, rfl⟩ := List.mem_map.mp hc
  exact Substitution.substitute_isTerm h.ofTerms (houts r hr)

/-- The values left are the outputs over what was not looked at. -/
theorem Taken.valuesOf_leave (h : Taken name required data θ taken front found)
    (houts : ∀ c ∈ produces, c.IsTerm) :
    valuesOf (taken.leave produces) =
      produces.map taken.theta.substitute ++ valuesOf taken.rest := by
  rw [Consumption.leave_eq, valuesOf_append, valuesOf_append, valuesOf_append,
    valuesOf_eq_self fun c hc => (h.isTerm_of_mem_outputs houts hc).isNote,
    valuesOf_eq_nil fun c hc => Consumption.isNote_of_mem_notes hc,
    valuesOf_eq_nil fun c hc => (h.isNote_of_mem_aside hc).1]
  rfl

/-- What was needed before is still needed, and what was not found comes after it. -/
theorem Taken.needsOf_leave (h : Taken name required data θ taken front found)
    (houts : ∀ c ∈ produces, c.IsTerm) :
    needsOf (taken.leave produces) = needsOf data ++ taken.missing.getD [] := by
  rw [Consumption.leave_eq, needsOf_append, needsOf_append, needsOf_append,
    Consumption.needsOf_notes, h.aside, needsOf_filter_note,
    needsOf_eq_nil fun c hc => (h.isTerm_of_mem_outputs houts hc).isNote, List.append_nil,
    ← needsOf_append, ← h.split]

/-- What a use pins is noted. -/
theorem Consumption.mem_pinnedOf_leave (taken : Consumption) (produces : Stack)
    {e : String × Cell} (he : e ∈ taken.theta) : e ∈ pinnedOf (taken.leave produces) := by
  refine mem_pinnedOf.mpr ⟨.bindings taken.theta, ?_, he⟩
  have hne : taken.theta.isEmpty = false := by
    cases htheta : taken.theta with
    | nil => rw [htheta] at he; cases he
    | cons d θ => rfl
  rw [Consumption.leave_eq]
  simp [Consumption.notes, hne]

/-- What was pinned before stays pinned: a note is passed by, or was not looked at. -/
theorem Taken.pinnedOf_leave (h : Taken name required data θ taken front found)
    {e : String × Cell} (he : e ∈ pinnedOf data) : e ∈ pinnedOf (taken.leave produces) := by
  obtain ⟨c, hc, hec⟩ := mem_pinnedOf.mp he
  refine mem_pinnedOf.mpr ⟨c, ?_, hec⟩
  have hnote : c.isNote = true := by
    by_contra hnot
    rw [(Cell.noted_of_value (by simpa using hnot)).2] at hec
    cases hec
  rw [Consumption.leave_eq]
  rw [h.split] at hc
  rcases List.mem_append.mp hc with hc | hc
  · have haside : c ∈ taken.aside := by
      rw [h.aside]
      exact List.mem_filter.mpr ⟨hc, hnote⟩
    simp [haside]
  · simp [hc]

/-- What is left is an output, a note of the use itself, or was there before. -/
theorem Taken.mem_leave (h : Taken name required data θ taken front found) {c : Cell}
    (hc : c ∈ taken.leave produces) :
    c ∈ produces.map taken.theta.substitute ∨ c = .bindings taken.theta ∨
      (∃ needs, taken.missing = some needs ∧ c = .residual needs) ∨ c ∈ data := by
  rw [Consumption.leave_eq] at hc
  simp only [List.mem_append] at hc
  rcases hc with hc | hc | hc | hc
  · exact .inl hc
  · rcases Consumption.mem_notes hc with heq | hneeds
    · exact .inr (.inl heq)
    · exact .inr (.inr (.inl hneeds))
  · rw [h.split]
    exact .inr (.inr (.inr (List.mem_append_left _ (h.isNote_of_mem_aside hc).2)))
  · rw [h.split]
    exact .inr (.inr (.inr (List.mem_append_right _ hc)))

/-- What is left is again what inference leaves. -/
theorem Taken.isInferred_leave (h : Taken name required data θ taken front found)
    (hrequired : ∀ r ∈ required, r.IsTerm) (hdata : ∀ c ∈ data, c.IsInferred)
    (houts : ∀ c ∈ produces, c.IsTerm) {c : Cell} (hc : c ∈ taken.leave produces) :
    c.IsInferred := by
  rcases h.mem_leave hc with hc | rfl | ⟨needs, hneeds, rfl⟩ | hc
  · exact .term (h.isTerm_of_mem_outputs houts hc)
  · exact .bindings h.ofTerms
  · refine .residual fun r hr => hrequired r ?_
    rw [h.inputs, hneeds]
    exact List.mem_append_right _ hr
  · exact hdata c hc

end Leave

/-- **A successful application is a use.** -/
theorem applyDeclared_use (hw : IsWord name op) (hdata : ∀ c ∈ data, c.IsInferred)
    {env env' : Environment}
    (h : applyDeclared name op.signature data env = (.ok data', env')) :
    Nonempty (DeclaredUse name op data data') := by
  obtain ⟨ρ, hρ, hconsumes, hproduces⟩ := exists_renaming op.signature env.names
  have hrenamed : ∀ r ∈ op.signature.consumes ++ op.signature.produces,
      (ρ.substitute r).IsTerm := fun r hr =>
    Substitution.substitute_isTerm hρ (hw.isTerm_signature hr)
  have hrequired : ∀ r ∈ op.signature.consumes.map ρ.substitute, r.IsTerm := by
    intro r hr
    obtain ⟨r', hr', rfl⟩ := List.mem_map.mp hr
    exact hrenamed r' (List.mem_append_left _ hr')
  have houts : ∀ r ∈ op.signature.produces.map ρ.substitute, r.IsTerm := by
    intro r hr
    obtain ⟨r', hr', rfl⟩ := List.mem_map.mp hr
    exact hrenamed r' (List.mem_append_right _ hr')
  simp only [applyDeclared, hconsumes, hproduces] at h
  cases htaken : consume name (op.signature.consumes.map ρ.substitute) data [] with
  | error e => simp [htaken] at h
  | ok taken =>
    simp only [htaken, Prod.mk.injEq, Except.ok.injEq] at h
    obtain ⟨rfl, -⟩ := h
    obtain ⟨front, found, hspec⟩ :=
      consume_spec hrequired (fun _ he => (hdata _ he).ofTerms) Substitution.ofTerms_nil htaken
    exact ⟨{
      renames := ρ
      pins := taken.theta
      front := front
      rest := taken.rest
      found := found
      missing := taken.missing.getD []
      renames_ofTerms := hρ
      pins_ofTerms := hspec.ofTerms
      split := hspec.split
      inputs := hspec.inputs
      exhausted := hspec.exhausted
      length := hspec.length
      foundBy := hspec.found
      values := by rw [hspec.valuesOf_leave houts, List.map_map]; rfl
      needs := hspec.needsOf_leave houts
      pinned := fun e he => taken.mem_pinnedOf_leave _ he
      keeps := fun e he => hspec.pinnedOf_leave he
      inferred := fun c hc => hspec.isInferred_leave hrequired hdata houts hc }⟩

end Restack
