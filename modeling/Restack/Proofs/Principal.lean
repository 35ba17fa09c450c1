import Restack.Proofs.Inference
import Restack.Proofs.MostGeneral

/-!
# Principal stack effects

What inference asks of the types in a program can be collected without unifying
anything: every use of a stack effect equates each of its inputs, under fresh names,
with the type of a value on the data, and what the data lacks is needed from outside.
A solution of these equations replaces every variable so that both sides become the same.

Inference solves the equations as it goes along, keeps what it has found in notes among
the data, and unifies all notes in the end. Nothing is lost or added on the way: at every
step, what makes the notes true is what solves the equations collected so far. So
inference fails exactly where there is no solution, and the stack effect that it shows is
principal: it belongs to a solution, and that of every other solution is an instance of it.

## Main definitions

* `Obligations`, `obligationsOf` — what a program asks of its types.
* `Equates`, `Holds` — solutions of equations, and of bindings.
* `Covers` — the data of an inference run answers to obligations.
* `Principal` — a stack effect shows the most general solution of obligations.

## Main results

* `unify_fits` — a unification of terms keeps the solutions, no more and no fewer.
* `applyDeclared_covers`, `runWithin_covers` — one use, and a whole run.
* `infer_principal` — inference shows a principal stack effect, or there is no solution.
-/

namespace Restack

variable {f : String → Cell} {θ θ' : Substitution} {name : String} {data : Stack}

/-! ### Solutions of bindings -/

/-- Every variable is replaced by what its binding becomes. -/
def Holds (f : String → Cell) (entries : List (String × Cell)) : Prop :=
  ∀ e ∈ entries, f e.1 = e.2.mapVars f

/-- Both sides of every equation become the same. -/
def Equates (f : String → Cell) (equations : List (Cell × Cell)) : Prop :=
  ∀ e ∈ equations, e.1.mapVars f = e.2.mapVars f

theorem holds_nil (f : String → Cell) : Holds f [] := List.forall_mem_nil _

theorem equates_append {left right : List (Cell × Cell)} :
    Equates f (left ++ right) ↔ Equates f left ∧ Equates f right :=
  List.forall_mem_append

theorem Holds.of_get? (h : Holds f θ) {v : String} {c : Cell} (hv : θ.get? v = some c) :
    f v = c.mapVars f :=
  h (v, c) (Substitution.mem_of_get? hv)

theorem Cell.mapVars_type (f : String → Cell) (tag : TypeTag) :
    (Cell.type tag).mapVars f = .type tag :=
  Cell.mapVars_other f (fun _ h => nomatch h) fun _ h => nomatch h

/-- Carrying out bindings that hold changes nothing. -/
theorem Holds.mapVars_substitute (h : Holds f θ) (c : Cell) :
    (θ.substitute c).mapVars f = c.mapVars f := by
  have key : ∀ n d, (θ.substituteWithin n d).mapVars f = d.mapVars f := by
    intro n
    induction n with
    | zero => intro d; rfl
    | succ n ih =>
      intro d
      rw [Substitution.substituteWithin_eq_mapVars, Cell.mapVars_mapVars]
      refine Cell.mapVars_congr d fun v _ => ?_
      cases hb : θ.get? v with
      | none => rw [Substitution.substituteWithin_var_none _ hb, Cell.mapVars_var]
      | some bound => rw [Substitution.substituteWithin_var_some _ hb, ih, h.of_get? hb]
  exact key θ.length c

/-- Binding a free variable adds one equation. -/
theorem holds_bind_iff {v : String} (hv : θ.get? v = none) (c : Cell) :
    Holds f (θ.bind v c) ↔ Holds f θ ∧ f v = c.mapVars f := by
  constructor
  · intro h
    refine ⟨fun e he => h e (Substitution.mem_bind_of_mem hv he), h.of_get? ?_⟩
    rw [Substitution.get?_bind, if_pos rfl]
  · rintro ⟨h, hvc⟩ e he
    rcases Substitution.mem_bind he with rfl | he
    · exact hvc
    · exact h e he

/-! ### Unification keeps the solutions -/

/-- A substitution as inference builds it: of terms, and acyclic. -/
structure Substitution.Flat (θ : Substitution) : Prop where
  /-- Variables are bound to types and variables. -/
  ofTerms : θ.OfTerms
  /-- No variable leads back to itself. -/
  acyclic : θ.Acyclic

theorem Substitution.flat_nil : Flat [] := ⟨ofTerms_nil, acyclic_nil⟩

theorem Substitution.Flat.noNaN (h : θ.Flat) : θ.NoNaN :=
  fun _ _ hv => (h.ofTerms _ (mem_of_get? hv)).noNaN

/-- The unification has succeeded with bindings that hold. -/
def Fits (f : String → Cell) (r : Except UnifyError Substitution) : Prop :=
  ∃ θ, r = .ok θ ∧ Holds f θ

/-- The occurs check finds nothing in a free term other than the variable itself. -/
theorem occurs_term {v : String} {term : Cell} (hterm : term.IsTerm)
    (hne : (Cell.var v == term) = false) (hfree : θ.binding? term = none) :
    θ.occurs v term = false := by
  refine Bool.eq_false_iff.mpr fun hocc => ?_
  obtain ⟨w, hw, hlead⟩ := exists_leads_of_occursWithin _ hocc
  cases hterm with
  | type tag => cases hw
  | var u =>
    obtain rfl := Cell.mentions_var.mp hw
    rcases hlead.cases_head with rfl | ⟨_, ⟨c, hc, -⟩, -⟩
    · simp [BEq.beq, Cell.beq] at hne
    · rw [Substitution.binding?, hc] at hfree
      cases hfree

/-- A variable and a term: the solutions are those that the calls made keep, or the new binding is
the equation. -/
theorem unifyVarBy_fits {call : Unifier} {v : String} {term : Cell}
    (hcall : ∀ a b, a.IsTerm → b.IsTerm → call a b θ ≠ .error .cyclic →
      (Fits f (call a b θ) ↔ Holds f θ ∧ a.mapVars f = b.mapVars f))
    (hterm : term.IsTerm) (hθ : θ.OfTerms) (hne : (Cell.var v == term) = false)
    (h : unifyVarBy call v term θ ≠ .error .cyclic) :
    Fits f (unifyVarBy call v term θ) ↔
      Holds f θ ∧ (Cell.var v).mapVars f = term.mapVars f := by
  rw [Cell.mapVars_var]
  rcases unifyVarBy_cases call v term θ with ⟨bound, hbound, heq⟩ | ⟨w, bound, rfl, hbound, heq⟩ |
    ⟨-, hfree, hocc, -⟩ | ⟨hv, -, heq⟩
  · rw [heq] at h ⊢
    refine (hcall bound term (hθ _ (Substitution.mem_of_get? hbound)) hterm h).trans ?_
    exact and_congr_right fun hold => by rw [hold.of_get? hbound]
  · rw [heq] at h ⊢
    refine (hcall (.var v) bound (.var v) (hθ _ (Substitution.mem_of_get? hbound)) h).trans ?_
    refine and_congr_right fun hold => ?_
    rw [Cell.mapVars_var, Cell.mapVars_var, hold.of_get? hbound]
  · rw [occurs_term hterm hne hfree] at hocc
    cases hocc
  · rw [heq, ← holds_bind_iff hv]
    constructor
    · rintro ⟨θ', h', hold⟩
      rw [Except.ok.inj h']
      exact hold
    · intro hold
      exact ⟨_, rfl, hold⟩

theorem unifyWithin_fits (n : Nat) {a b : Cell} (ha : a.IsTerm) (hb : b.IsTerm) (hθ : θ.OfTerms)
    (h : unifyWithin n a b θ ≠ .error .cyclic) :
    Fits f (unifyWithin n a b θ) ↔ Holds f θ ∧ a.mapVars f = b.mapVars f := by
  induction n generalizing a b with
  | zero => exact absurd rfl h
  | succ n ih =>
    unfold unifyWithin at h ⊢
    by_cases hab : (a == b) = true
    · rw [if_pos hab, ha.eq_of_beq hab]
      simp [Fits]
    · rw [if_neg hab] at h ⊢
      have hvar := fun v term => @unifyVarBy_fits f θ (unifyWithin n) v term
        (fun a b ha hb h => ih ha hb h)
      cases ha with
      | var v => exact hvar v b hb hθ (by simpa using hab) h
      | type tag =>
        cases hb with
        | var v =>
          rw [eq_comm (a := Cell.mapVars f (.type tag))]
          refine hvar v (.type tag) (.type tag) hθ rfl h
        | type tag' =>
          -- two types that differ: there is no solution, and no outcome either
          have hne : tag ≠ tag' := fun heq => hab (by rw [heq]; exact Cell.beq_self rfl)
          simp only [Substitution.substitute_type, if_neg hab] at h ⊢
          constructor
          · rintro ⟨θ', h', -⟩
            cases h'
          · rintro ⟨-, heq⟩
            rw [Cell.mapVars_type, Cell.mapVars_type] at heq
            exact absurd (Cell.type.inj heq) hne

/-- **A unification of terms keeps the solutions, no more and no fewer.** -/
theorem unify_fits {a b : Cell} (ha : a.IsTerm) (hb : b.IsTerm) (hθ : θ.Flat) :
    Fits f (unify a b θ) ↔ Holds f θ ∧ a.mapVars f = b.mapVars f :=
  unifyWithin_fits _ ha hb hθ.ofTerms
    (unify_ne_cyclic hθ.acyclic hθ.noNaN ha.noNaN hb.noNaN)

theorem flat_of_unify {a b : Cell} (ha : a.IsTerm) (hb : b.IsTerm) (hθ : θ.Flat)
    (h : unify a b θ = .ok θ') : θ'.Flat where
  ofTerms := (unify_terms ha hb hθ.ofTerms h).ofTerms
  acyclic := (soundUnifier_unify a b θ θ' hθ.acyclic hθ.noNaN ha.noNaN hb.noNaN h).acyclic

/-- Unifying bindings keeps the solutions, and flat substitutions flat. -/
theorem unifyBindings_fits {entries : Substitution} (hentries : entries.OfTerms) (hθ : θ.Flat) :
    (Fits f (unifyBindings entries θ) ↔ Holds f θ ∧ Holds f entries) ∧
      ∀ θ', unifyBindings entries θ = .ok θ' → θ'.Flat := by
  induction entries generalizing θ with
  | nil =>
    refine ⟨?_, fun θ' h => Except.ok.inj h ▸ hθ⟩
    simp [unifyBindings, Fits, Holds]
  | cons e entries ih =>
    obtain ⟨v, c⟩ := e
    have hc := hentries _ List.mem_cons_self
    have hrest : Substitution.OfTerms entries := fun d hd => hentries d (List.mem_cons_of_mem _ hd)
    have hhead := @unify_fits f θ _ _ (.var v) hc hθ
    have hcons : Holds f ((v, c) :: entries) ↔ f v = c.mapVars f ∧ Holds f entries :=
      List.forall_mem_cons
    rw [Cell.mapVars_var] at hhead
    rw [hcons, ← and_assoc, ← hhead, unifyBindings]
    cases hu : unify (.var v) c θ with
    | error err =>
      refine ⟨by simp [Fits], fun θ' h => ?_⟩
      cases h
    | ok θ₁ =>
      have hnext := ih hrest (flat_of_unify (.var v) hc hθ hu)
      refine ⟨hnext.1.trans ?_, hnext.2⟩
      simp [Fits]

/-! ### What a program asks of its types -/

/-- The type of a value, as a term: a type or a variable stands for itself. -/
def Cell.typeTerm : Cell → Cell
  | type tag => type tag
  | var v => var v
  | c =>
    match c.valueType with
    | some tag => type tag
    | none => c

/-- The stack effect that a cell of code is used with, if it is a word. -/
def Cell.effect? (c : Cell) : Option Signature :=
  match Mode.infer.environment.lookup c with
  | some (.declared _ consumes produces) => some ⟨consumes, produces⟩
  | _ => none

/-- What a program asks of its types. -/
structure Obligations where
  /-- The values on the data, top first. -/
  values : List Cell := []
  /-- What is needed from outside, top first. -/
  needs : List Cell := []
  /-- What has to become the same. -/
  equations : List (Cell × Cell) := []
  /-- Where the next fresh name comes from. -/
  names : NameSource := {}
  /-- The fresh names in use. -/
  drawn : List String := []

namespace Obligations

/-- A stack effect is used: its inputs are equated with the values on top, as far as there are any,
and its outputs take their place. -/
def use (o : Obligations) (effect : Signature) : Obligations :=
  let fresh := (effect.freshen o.names).1
  { values := fresh.produces ++ o.values.drop fresh.consumes.length
    needs := o.needs ++ fresh.consumes.drop o.values.length
    equations := o.equations ++ fresh.consumes.zip (o.values.map Cell.typeTerm)
    names := (effect.freshen o.names).2
    drawn := o.drawn ++ Cell.varsList (fresh.consumes ++ fresh.produces) }

/-- A cell of code is taken: a word is used, and anything else is a value. -/
def take (o : Obligations) (c : Cell) : Obligations :=
  match c.effect? with
  | some effect => o.use effect
  | none => { o with values := c :: o.values }

end Obligations

/-- What a program asks of its types, on empty data. -/
def obligationsOf (program : List Cell) : Obligations := program.foldl Obligations.take {}

/-- A cell of a program: a literal, a type, a variable, or one of the fourteen words. -/
inductive Cell.IsTypable : Cell → Prop
  /-- A literal, a type or a variable. -/
  | value {c : Cell} (h : c.valueType.isSome = true) : Cell.IsTypable c
  /-- One of the fourteen words. -/
  | word {name : String} {op : Primitive} (h : IsWord name op) : Cell.IsTypable (.symbol name)

theorem Cell.typeFor_of_valueType {c : Cell} (h : c.valueType.isSome = true) :
    c.typeFor name = .ok c.typeTerm := by
  cases c with
  | int | float | double | bool | text | quotation | type | var => rfl
  | _ => cases h

theorem Cell.IsTerm.typeTerm {c : Cell} (h : c.IsTerm) : c.typeTerm = c := by
  cases h <;> rfl

theorem Cell.IsTerm.valueType_isSome {c : Cell} (h : c.IsTerm) : c.valueType.isSome = true := by
  cases h <;> rfl

theorem Cell.typeTerm_isTerm {c : Cell} (h : c.valueType.isSome = true) : c.typeTerm.IsTerm :=
  @Cell.typeFor_isTerm "" _ _ (Cell.typeFor_of_valueType h)

theorem Cell.effect?_of_valueType {c : Cell} (h : c.valueType.isSome = true) :
    c.effect? = none := by
  rw [Cell.effect?, lookup_of_valueType _ h]

theorem IsWord.effect? {op : Primitive} (h : IsWord name op) :
    (Cell.symbol name).effect? = some op.signature := by
  rw [Cell.effect?, show Mode.infer.environment.lookup (.symbol name) = _ from h.resolve_declared]

namespace Obligations

variable {o : Obligations} {c : Cell}

theorem take_value (h : c.valueType.isSome = true) :
    o.take c = { o with values := c :: o.values } := by
  rw [take, Cell.effect?_of_valueType h]

theorem take_word {op : Primitive} (h : IsWord name op) :
    o.take (.symbol name) = o.use op.signature := by
  rw [take, h.effect?]

/-- Equations are only added. -/
theorem equates_of_take (h : Equates f (o.take c).equations) : Equates f o.equations := by
  unfold take at h
  split at h
  · exact (equates_append.mp h).1
  · exact h

theorem equates_of_foldl_take (code : List Cell)
    (h : Equates f (code.foldl take o).equations) : Equates f o.equations := by
  induction code generalizing o with
  | nil => exact h
  | cons c code ih => exact equates_of_take (ih h)

end Obligations

/-! ### Taking the declared inputs -/

/-- A cell on the data of an inference run: a value, or a note on terms. -/
inductive Cell.IsTracked : Cell → Prop
  /-- A value. -/
  | value {c : Cell} (h : c.valueType.isSome = true) : Cell.IsTracked c
  /-- Variables that a use has pinned. -/
  | bindings {entries : Substitution} (h : entries.OfTerms) : Cell.IsTracked (.bindings entries)
  /-- Inputs that a use has not found. -/
  | residual (needs : List Cell) : Cell.IsTracked (.residual needs)

theorem Cell.isNote_of_valueType {c : Cell} (h : c.valueType.isSome = true) :
    c.isNote = false := by
  cases c with
  | bindings entries => cases h
  | residual needs => cases h
  | _ => rfl

theorem Cell.IsTracked.ofTerms {entries : Substitution} (h : (Cell.bindings entries).IsTracked) :
    entries.OfTerms := by
  cases h with
  | value h => cases h
  | bindings h => exact h

theorem noContinuation_of_tracked (h : ∀ c ∈ data, c.IsTracked) : NoContinuation data := by
  rintro c hc code rfl
  cases h _ hc with
  | value h => cases h

theorem holds_pinnedOf_iff : Holds f (pinnedOf data) ↔ ∀ c ∈ data, Holds f c.pinned := by
  constructor
  · intro h c hc e he
    exact h e (mem_pinnedOf.mpr ⟨c, hc, he⟩)
  · intro h e he
    obtain ⟨c, hc, hec⟩ := mem_pinnedOf.mp he
    exact h c hc e hec

/-- The inputs were taken with bindings that hold. -/
def TakesFitting (f : String → Cell) (r : Except EngineError Consumption) : Prop :=
  ∃ taken, r = .ok taken ∧ Holds f taken.theta

/-- Passing a note by leaves the bindings as they are. -/
theorem takesFitting_pass {r : Except EngineError Consumption} (c : Cell) :
    TakesFitting f (r.map (·.pass c)) ↔ TakesFitting f r := by
  constructor
  · rintro ⟨taken, h, hold⟩
    obtain ⟨taken', rfl, rfl⟩ := map_eq_ok_iff.mp h
    exact ⟨taken', rfl, hold⟩
  · rintro ⟨taken, rfl, hold⟩
    exact ⟨_, rfl, hold⟩

/-- Taking an input from a value unifies it with the type of the value. -/
theorem consume_typed {r c : Cell} (hc : c.valueType.isSome = true) (required : List Cell)
    (data : Stack) (θ : Substitution) :
    consume name (r :: required) (c :: data) θ =
      match unify r c.typeTerm θ with
      | .ok θ => consume name required data θ
      | .error e => .error (.unification e) := by
  cases hu : unify r c.typeTerm θ with
  | ok θ₁ =>
    simp only [consume_value (Cell.isNote_of_valueType hc), Cell.typeFor_of_valueType hc, hu]
  | error e =>
    simp only [consume_value (Cell.isNote_of_valueType hc), Cell.typeFor_of_valueType hc, hu]

/-- **Taking the declared inputs adds their equations.** Where the notes on the data hold, taking
succeeds with bindings that hold exactly where every input equals the type of the value found for
it. -/
theorem consume_fits {required : List Cell} (hrequired : ∀ r ∈ required, r.IsTerm)
    (hdata : ∀ c ∈ data, c.IsTracked) (hθ : θ.Flat) (hpinned : Holds f (pinnedOf data)) :
    TakesFitting f (consume name required data θ) ↔
      Holds f θ ∧ Equates f (required.zip ((valuesOf data).map Cell.typeTerm)) := by
  induction data generalizing required θ with
  | nil => cases required <;> simp [consume, TakesFitting, Equates]
  | cons c data ih =>
    cases required with
    | nil => simp [consume, TakesFitting, Equates]
    | cons r required =>
      have htail : ∀ d ∈ data, d.IsTracked := fun d hd => hdata d (List.mem_cons_of_mem c hd)
      rw [holds_pinnedOf_iff, List.forall_mem_cons, ← holds_pinnedOf_iff] at hpinned
      obtain ⟨hnote, hpinned⟩ := hpinned
      cases hdata c List.mem_cons_self with
      | value hc =>
        have hr := hrequired r List.mem_cons_self
        have hrest : ∀ d ∈ required, d.IsTerm := fun d hd => hrequired d (List.mem_cons_of_mem r hd)
        have hhead := @unify_fits f θ _ _ hr (Cell.typeTerm_isTerm hc) hθ
        have hcons : Equates f ((r, c.typeTerm) :: required.zip ((valuesOf data).map
            Cell.typeTerm)) ↔ r.mapVars f = c.typeTerm.mapVars f ∧
              Equates f (required.zip ((valuesOf data).map Cell.typeTerm)) :=
          List.forall_mem_cons
        rw [valuesOf_cons_value (Cell.isNote_of_valueType hc), List.map_cons, List.zip_cons_cons,
          hcons, ← and_assoc, ← hhead, consume_typed hc]
        cases hu : unify r c.typeTerm θ with
        | error e => simp [Fits, TakesFitting]
        | ok θ₁ =>
          have hflat := flat_of_unify hr (Cell.typeTerm_isTerm hc) hθ hu
          refine (ih hrest htail hflat hpinned).trans ?_
          simp [Fits]
      | @bindings entries hentries =>
        have hhead := @unifyBindings_fits f θ entries hentries hθ
        have hold : Holds f entries := hnote
        rw [valuesOf_cons_note rfl, ← and_iff_left hold (a := Holds f θ), ← hhead.1]
        simp only [consume]
        cases hu : unifyBindings entries θ with
        | error e => simp [Fits, TakesFitting]
        | ok θ₁ =>
          refine (takesFitting_pass _).trans ((ih hrequired htail (hhead.2 θ₁ hu) hpinned).trans ?_)
          simp [Fits]
      | residual needs =>
        rw [valuesOf_cons_note rfl]
        exact (takesFitting_pass _).trans (ih hrequired htail hθ hpinned)

namespace Taken

variable {required front found : List Cell} {taken : Consumption}

/-- The missing inputs are those beyond the number of values there are. -/
theorem missing_eq_drop (h : Taken name required data θ taken front found) :
    taken.missing.getD [] = required.drop (valuesOf data).length := by
  have hlen : (valuesOf data).length = found.length + (valuesOf taken.rest).length := by
    rw [h.length, h.split, valuesOf_append, List.length_append]
  rcases h.exhausted with hnone | hrest
  · have hrequired : required = found := by rw [h.inputs, hnone, List.append_nil]
    rw [hnone, hlen, hrequired, List.drop_eq_nil_of_le (Nat.le_add_right _ _)]
  · rw [hlen, hrest, h.inputs]
    simp

/-- The values left are those beyond the number of inputs there are. -/
theorem valuesOf_rest_eq_drop (h : Taken name required data θ taken front found) :
    valuesOf taken.rest = (valuesOf data).drop required.length := by
  rw [h.split, valuesOf_append, h.inputs, List.length_append, h.length]
  rcases h.exhausted with hnone | hrest
  · simp [hnone]
  · simp [hrest]

end Taken

/-! ### One use of a stack effect -/

/-- Two values that cannot be told apart where the bindings hold. -/
def Alike (pins : List (String × Cell)) (c d : Cell) : Prop :=
  c = d ∨ c.IsTerm ∧ d.IsTerm ∧ ∀ f, Holds f pins → c.mapVars f = d.mapVars f

/-- The data of an inference run answers to obligations. -/
structure Covers (o : Obligations) (data : Stack) : Prop where
  /-- There are values, and notes on terms. -/
  tracked : ∀ c ∈ data, c.IsTracked
  /-- The same is needed. -/
  needs : needsOf data = o.needs
  /-- The values cannot be told apart. -/
  values : List.Forall₂ (Alike (pinnedOf data)) (valuesOf data) o.values
  /-- The notes hold exactly where the equations are solved. -/
  pinned : ∀ f, Holds f (pinnedOf data) ↔ Equates f o.equations

theorem Alike.mapVars_eq {pins : List (String × Cell)} {c d : Cell} (h : Alike pins c d)
    (hold : Holds f pins) : c.mapVars f = d.mapVars f := by
  rcases h with rfl | ⟨-, -, h⟩
  · rfl
  · exact h f hold

theorem Alike.mono {pins pins' : List (String × Cell)} {c d : Cell} (h : Alike pins c d)
    (hpins : ∀ f, Holds f pins' → Holds f pins) : Alike pins' c d := by
  rcases h with rfl | ⟨hc, hd, h⟩
  · exact .inl rfl
  · exact .inr ⟨hc, hd, fun f hf => h f (hpins f hf)⟩

/-- Values that cannot be told apart have types that cannot be told apart. -/
theorem Alike.mapVars_typeTerm_eq {pins : List (String × Cell)} {c d : Cell} (h : Alike pins c d)
    (hold : Holds f pins) : c.typeTerm.mapVars f = d.typeTerm.mapVars f := by
  rcases h with rfl | ⟨hc, hd, h⟩
  · rfl
  · rw [hc.typeTerm, hd.typeTerm]
    exact h f hold

/-- Inputs are equated with values and with values like them by the same solutions. -/
theorem equates_zip_iff {required values values' : List Cell}
    (h : List.Forall₂ (fun c d => c.typeTerm.mapVars f = d.typeTerm.mapVars f) values values') :
    Equates f (required.zip (values.map Cell.typeTerm)) ↔
      Equates f (required.zip (values'.map Cell.typeTerm)) := by
  induction h generalizing required with
  | nil => exact Iff.rfl
  | @cons c d cs ds hcd _ ih =>
    cases required with
    | nil => exact Iff.rfl
    | cons r required =>
      have htail := @ih required
      simp only [Equates, List.map_cons, List.zip_cons_cons, List.forall_mem_cons] at htail ⊢
      rw [hcd, htail]

/-- The fresh copy of a stack effect of terms is one of terms. -/
theorem isTerm_freshen {effect : Signature} {names : NameSource}
    (h : ∀ r ∈ effect.consumes ++ effect.produces, r.IsTerm) {r : Cell}
    (hr : r ∈ (effect.freshen names).1.consumes ++ (effect.freshen names).1.produces) :
    r.IsTerm := by
  obtain ⟨ρ, hρ, hconsumes, hproduces⟩ := exists_renaming effect names
  rw [hconsumes, hproduces, ← List.map_append] at hr
  obtain ⟨r', hr', rfl⟩ := List.mem_map.mp hr
  exact Substitution.substitute_isTerm hρ (h r' hr')

/-- The notes after a use hold where those before it and the bindings of the use do. -/
theorem Taken.holds_pinnedOf_leave {required front found : List Cell} {taken : Consumption}
    (h : Taken name required data θ taken front found) {produces : Stack}
    (houts : ∀ c ∈ produces, c.IsTerm) :
    Holds f (pinnedOf (taken.leave produces)) ↔
      Holds f (pinnedOf data) ∧ Holds f taken.theta := by
  constructor
  · intro hold
    exact ⟨fun e he => hold e (h.pinnedOf_leave he),
      fun e he => hold e (taken.mem_pinnedOf_leave produces he)⟩
  · rintro ⟨hdata, htheta⟩
    rw [holds_pinnedOf_iff] at hdata ⊢
    intro c hc
    rcases h.mem_leave hc with hc | rfl | ⟨needs, -, rfl⟩ | hc
    · rw [(Cell.noted_of_value (h.isTerm_of_mem_outputs houts hc).isNote).2]
      exact holds_nil f
    · exact htheta
    · exact holds_nil f
    · exact hdata c hc

/-- What a use leaves is again values, and notes on terms. -/
theorem Taken.isTracked_leave {required front found : List Cell} {taken : Consumption}
    (h : Taken name required data θ taken front found) (hdata : ∀ c ∈ data, c.IsTracked)
    {produces : Stack} (houts : ∀ c ∈ produces, c.IsTerm) {c : Cell}
    (hc : c ∈ taken.leave produces) : c.IsTracked := by
  rcases h.mem_leave hc with hc | rfl | ⟨needs, -, rfl⟩ | hc
  · exact .value (h.isTerm_of_mem_outputs houts hc).valueType_isSome
  · exact .bindings h.ofTerms
  · exact .residual needs
  · exact hdata c hc

/-- The values left are like the declared outputs over what was not taken: the outputs stand under
the bindings of the use, and the rest was not touched. -/
theorem Taken.alike_leave {required front found : List Cell} {taken : Consumption}
    (h : Taken name required data θ taken front found) {produces : Stack}
    (houts : ∀ c ∈ produces, c.IsTerm) {values : List Cell}
    (hvalues : List.Forall₂ (Alike (pinnedOf data)) (valuesOf data) values) :
    List.Forall₂ (Alike (pinnedOf (taken.leave produces))) (valuesOf (taken.leave produces))
      (produces ++ values.drop required.length) := by
  rw [h.valuesOf_leave houts, h.valuesOf_rest_eq_drop]
  refine forall₂_append ?_ ?_
  · rw [List.forall₂_map_left_iff, List.forall₂_same]
    intro r hr
    refine .inr ⟨Substitution.substitute_isTerm h.ofTerms (houts r hr), houts r hr, fun f hf => ?_⟩
    exact ((h.holds_pinnedOf_leave houts).mp hf).2.mapVars_substitute r
  · refine (List.forall₂_drop _ hvalues).imp fun c d hcd => ?_
    exact hcd.mono fun f hf => ((h.holds_pinnedOf_leave houts).mp hf).1

/-- **A use of a stack effect** leaves data that answers to the obligations with that use; if it
fails, they have no solution. -/
theorem applyDeclared_covers {o : Obligations} {effect : Signature} {env : Environment}
    (heffect : ∀ r ∈ effect.consumes ++ effect.produces, r.IsTerm) (hnames : env.names = o.names)
    (h : Covers o data) :
    (∃ data', applyDeclared name effect data env =
        (.ok data', { env with names := (o.use effect).names }) ∧ Covers (o.use effect) data') ∨
      ∃ e env', applyDeclared name effect data env = (.error e, env') ∧
        ∀ f, ¬ Equates f (o.use effect).equations := by
  have hterm := fun r => @isTerm_freshen effect o.names heffect r
  have hrequired : ∀ r ∈ (effect.freshen o.names).1.consumes, r.IsTerm :=
    fun r hr => hterm r (List.mem_append_left _ hr)
  have houts : ∀ r ∈ (effect.freshen o.names).1.produces, r.IsTerm :=
    fun r hr => hterm r (List.mem_append_right _ hr)
  -- what solves the new equations too is what the inputs are taken with
  have hsolved : ∀ f, Holds f (pinnedOf data) → (TakesFitting f
      (consume name (effect.freshen o.names).1.consumes data []) ↔
        Equates f ((effect.freshen o.names).1.consumes.zip (o.values.map Cell.typeTerm))) := by
    intro f hold
    rw [consume_fits hrequired h.tracked Substitution.flat_nil hold,
      equates_zip_iff (h.values.imp fun c d hcd => hcd.mapVars_typeTerm_eq hold)]
    exact and_iff_right (holds_nil f)
  simp only [applyDeclared, hnames]
  cases htaken : consume name (effect.freshen o.names).1.consumes data [] with
  | error e =>
    refine .inr ⟨e, _, rfl, fun f hf => ?_⟩
    obtain ⟨hold, hnew⟩ := equates_append.mp hf
    obtain ⟨taken, hok, -⟩ := (hsolved f ((h.pinned f).mpr hold)).mpr hnew
    rw [htaken] at hok
    cases hok
  | ok taken =>
    obtain ⟨front, found, hspec⟩ := consume_spec hrequired
      (fun _ he => (h.tracked _ he).ofTerms) Substitution.ofTerms_nil htaken
    refine .inl ⟨_, rfl, fun c hc => hspec.isTracked_leave h.tracked houts hc, ?_, ?_, ?_⟩
    · rw [hspec.needsOf_leave houts, h.needs, hspec.missing_eq_drop, h.values.length_eq]
      rfl
    · exact hspec.alike_leave houts h.values
    · intro f
      rw [hspec.holds_pinnedOf_leave houts]
      refine Iff.trans ?_ equates_append.symm
      rw [← h.pinned f]
      refine and_congr_right fun hold => ?_
      rw [← hsolved f hold, htaken]
      simp [TakesFitting]

/-! ### Runs -/

/-- A value is put on the data. -/
theorem Covers.push {o : Obligations} {c : Cell} (h : Covers o data)
    (hc : c.valueType.isSome = true) : Covers { o with values := c :: o.values } (c :: data) := by
  have hnote := Cell.isNote_of_valueType hc
  have hpinned : pinnedOf (c :: data) = pinnedOf data := by
    simp [pinnedOf, (Cell.noted_of_value hnote).2]
  refine ⟨fun d hd => ?_, ?_, ?_, ?_⟩
  · rcases List.mem_cons.mp hd with rfl | hd
    · exact .value hc
    · exact h.tracked d hd
  · rw [needsOf_cons, (Cell.noted_of_value hnote).1, List.append_nil]
    exact h.needs
  · rw [valuesOf_cons_value hnote, hpinned]
    exact .cons (.inl rfl) h.values
  · rw [hpinned]
    exact h.pinned

/-- **One step of an inference run** takes one cell of the code. -/
theorem step_covers {o : Obligations} {c : Cell} {env : Environment} (code : List Cell)
    (hc : c.IsTypable) (htables : env.tables = Mode.infer.environment.tables)
    (hnames : env.names = o.names) (h : Covers o data) :
    (∃ data' env', step (.quotation (c :: code) :: data) env =
        (.ok (.quotation code :: data'), env') ∧ env'.tables = Mode.infer.environment.tables ∧
          env'.names = (o.take c).names ∧ Covers (o.take c) data') ∨
      ∃ e env', step (.quotation (c :: code) :: data) env = (.error e, env') ∧
        ∀ f, ¬ Equates f (o.take c).equations := by
  have hlook := lookup_of_tables htables c
  cases hc with
  | value hc =>
    rw [lookup_of_valueType Mode.infer.environment hc] at hlook
    rw [Obligations.take_value hc]
    exact .inl ⟨c :: data, env, step_push hlook code data, htables, hnames, h.push hc⟩
  | @word name op hw =>
    rw [show Mode.infer.environment.lookup (.symbol name) = _ from hw.resolve_declared] at hlook
    rw [Obligations.take_word hw, step_apply hlook, Instruction.apply]
    rcases applyDeclared_covers (fun r hr => hw.isTerm_signature hr) hnames h with
      ⟨data', happly, hcovers⟩ | ⟨e, env', happly, hnone⟩
    · refine .inl ⟨data', { env with names := (o.use op.signature).names }, ?_, htables, rfl,
        hcovers⟩
      rw [happly, Except.map, splice_noContinuation (noContinuation_of_tracked hcovers.tracked)]
    · refine .inr ⟨e, env', ?_, hnone⟩
      rw [happly]
      rfl

/-- **An inference run** takes as many cells of the code as its budget allows. It leaves data that
answers to what they ask of their types; if it fails, that has no solution. -/
theorem runWithin_covers {o : Obligations} {code : List Cell} {env : Environment} (n : Nat)
    (hcode : ∀ c ∈ code, c.IsTypable) (htables : env.tables = Mode.infer.environment.tables)
    (hnames : env.names = o.names) (h : Covers o data) :
    (∃ data' env', runWithin n (.quotation code :: data) env =
        (.ok (.quotation (code.drop n) :: data'), env') ∧
          Covers ((code.take n).foldl Obligations.take o) data') ∨
      ∃ e env', runWithin n (.quotation code :: data) env = (.error e, env') ∧
        ∀ f, ¬ Equates f ((code.take n).foldl Obligations.take o).equations := by
  induction n generalizing code data o env with
  | zero => exact .inl ⟨data, env, rfl, h⟩
  | succ n ih =>
    cases code with
    | nil => exact .inl ⟨data, env, runWithin_halted _ env rfl, h⟩
    | cons c code =>
      have hrest : ∀ d ∈ code, d.IsTypable := fun d hd => hcode d (List.mem_cons_of_mem c hd)
      rw [List.take_succ_cons, List.drop_succ_cons, List.foldl_cons]
      rcases step_covers code (hcode c List.mem_cons_self) htables hnames h with
        ⟨data', env', hstep, htables', hnames', hcovers⟩ | ⟨e, env', hstep, hnone⟩
      · rw [runWithin_succ_ok n rfl hstep]
        exact ih hrest htables' hnames' hcovers
      · -- equations that have no solution never get one
        refine .inr ⟨e, env', runWithin_succ_error n rfl hstep, fun f hf => hnone f ?_⟩
        exact Obligations.equates_of_foldl_take _ hf

/-! ### The stack effect that is shown -/

/-- A stack effect with its variables replaced. -/
def Signature.mapVars (f : String → Cell) (s : Signature) : Signature :=
  ⟨s.consumes.map (Cell.mapVars f), s.produces.map (Cell.mapVars f)⟩

/-- What is needed and what is there. -/
def Obligations.effect (o : Obligations) : Signature := ⟨o.needs, o.values⟩

/-- A stack effect is principal for obligations: it belongs to a solution of them, and that of every
other solution is an instance of it. -/
def Principal (o : Obligations) (effect : Signature) : Prop :=
  (∃ g, Equates g o.equations ∧ effect = o.effect.mapVars g) ∧
    ∀ f, Equates f o.equations → o.effect.mapVars f = effect.mapVars f

/-- **The stack effect that data shows is principal** for the obligations that it answers to; if it
shows none, they have no solution. -/
theorem Covers.signatureOf {o : Obligations} (h : Covers o data) (code : List Cell) :
    (∃ effect, signatureOf (.quotation code :: data) = .ok effect ∧ Principal o effect) ∨
      ∃ e, signatureOf (.quotation code :: data) = .error e ∧ ∀ f, ¬ Equates f o.equations := by
  have hterms := ofTerms_pinnedOf_of_bindings fun _ he => (h.tracked _ he).ofTerms
  rw [signatureOf_quotation]
  cases hθ : unifyBindings (pinnedOf data) [] with
  | error e =>
    refine .inr ⟨e, rfl, fun f hf => ?_⟩
    obtain ⟨θ, hok, -⟩ := (unifyBindings_fits hterms Substitution.flat_nil).1.mpr
      ⟨holds_nil f, (h.pinned f).mpr hf⟩
    rw [hθ] at hok
    cases hok
  | ok θ =>
    -- the substitution itself is a solution, and any other one passes through it
    let g : String → Cell := fun v => θ.substitute (.var v)
    have hsubstitute : θ.substitute = Cell.mapVars g := funext θ.substitute_eq_mapVars
    have hg : Holds g (pinnedOf data) := by
      intro e he
      rw [← hsubstitute]
      exact substitute_eq_of_unifyBindings hterms hθ he
    have hvalues : ∀ f, Holds f (pinnedOf data) →
        (valuesOf data).map (Cell.mapVars f) = o.values.map (Cell.mapVars f) := by
      intro f hold
      rw [← List.forall₂_eq_eq_eq, List.forall₂_map_left_iff, List.forall₂_map_right_iff]
      exact h.values.imp fun c d hcd => hcd.mapVars_eq hold
    refine .inl ⟨_, rfl, ⟨g, (h.pinned g).mp hg, ?_⟩, fun f hf => ?_⟩
    · simp only [Signature.mapVars, Obligations.effect, ← hvalues g hg, ← h.needs, hsubstitute]
    · have hold := (h.pinned f).mpr hf
      obtain ⟨θ', hok, hfits⟩ := (unifyBindings_fits hterms Substitution.flat_nil).1.mpr
        ⟨holds_nil f, hold⟩
      rw [hθ] at hok
      cases hok
      simp only [Signature.mapVars, Obligations.effect, List.map_map, Function.comp_def,
        hfits.mapVars_substitute, ← hvalues f hold, h.needs]

/-- **Inference shows a principal stack effect**, for what the cells that its budget lets run ask of
their types; if it fails, that has no solution. -/
theorem infer_principal {program : List Cell} (hprogram : ∀ c ∈ program, c.IsTypable)
    (budget : Option Nat) :
    (∃ effect, (infer budget [.quotation program] Mode.infer.environment).1 = .ok effect ∧
        Principal (obligationsOf (program.take (stepLimit budget))) effect) ∨
      ∃ e, (infer budget [.quotation program] Mode.infer.environment).1 = .error e ∧
        ∀ f, ¬ Equates f (obligationsOf (program.take (stepLimit budget))).equations := by
  have hempty : Covers {} [] := by
    refine ⟨List.forall_mem_nil _, rfl, .nil, fun f => ?_⟩
    exact iff_of_true (holds_nil f) (List.forall_mem_nil _)
  rw [infer, run]
  rcases runWithin_covers (stepLimit budget) hprogram rfl rfl hempty with
    ⟨data, env, hrun, hcovers⟩ | ⟨e, env, hrun, hnone⟩
  · rw [hrun]
    rcases hcovers.signatureOf (program.drop (stepLimit budget)) with
      ⟨effect, hok, hprincipal⟩ | ⟨e, herror, hnone⟩
    · exact .inl ⟨effect, by simp only [hok], hprincipal⟩
    · exact .inr ⟨.unification e, by simp only [herror], hnone⟩
  · rw [hrun]
    exact .inr ⟨e, rfl, hnone⟩

end Restack
