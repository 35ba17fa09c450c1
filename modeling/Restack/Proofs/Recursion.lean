import Restack.Proofs.MostGeneral

/-!
# Unification as an unbounded recursion

Unification, the occurs check and `substitute` follow bindings, so none of them recurses on the
parts of a cell only. Here each is given once more by the rules of its recursion, without any
bound: a call has a result when the calls that it makes have results, all the way down. On a
substitution in which a variable leads back to itself, a call for that variable has none.

On an acyclic substitution every call has exactly one result, which is the result of the function
with a bound. To see that `substitute` and the occurs check end, go along the bindings and into
quotations, which acyclicity makes an induction. Unification adds bindings as it goes; that its
calls end is what the bound on them says, and it keeps the substitution acyclic.

## Main definitions

* `Substitution.SubstituteEnds`, `Substitution.OccursEnds` — a call ends, with this result.
* `UnifyCall.Ends` — the same for the calls of unification.

## Main results

* `Substitution.Acyclic.cell_induction` — induction along the bindings.
* `Substitution.acyclic_iff_substituteEnds` — where the recursion of `substitute` always ends.
* `UnifyCall.Ends.eventually` — a call that ends does so within some number of calls in a row.
* `unification_terminates` — on an acyclic substitution every recursion ends.
-/

namespace Restack

open Substitution

variable {θ : Substitution}

/-! ### Induction along the bindings -/

/-- To prove a fact of every cell, prove it of quotations whose cells have it, of bound variables
whose bindings have it, of free variables, and of all other cells. -/
theorem Substitution.Acyclic.cell_induction (hacyc : θ.Acyclic) {motive : Cell → Prop}
    (quotation : ∀ code, (∀ c ∈ code, motive c) → motive (.quotation code))
    (bound : ∀ v b, θ.get? v = some b → motive b → motive (.var v))
    (free : ∀ v, θ.get? v = none → motive (.var v))
    (other : ∀ c, (∀ code, c ≠ .quotation code) → (∀ v, c ≠ .var v) → motive c) (c : Cell) :
    motive c := by
  have key : ∀ n c, (∀ v, c.Mentions v → θ.rank v < n) → motive c := by
    intro n
    induction n using Nat.strong_induction_on with
    | _ n ihn =>
      intro c
      induction c using Cell.induction_on_vars with
      | quotation code ih =>
        intro h
        exact quotation code fun c hc => ih c hc fun v hv => h v (.quotation hc hv)
      | var v =>
        intro h
        cases hv : θ.get? v with
        | none => exact free v hv
        | some b =>
          -- the ranks in the binding are below the rank of the variable
          exact bound v b hv (ihn (θ.rank v) (h v (.var v)) b (rankedBy_rank hacyc v b hv).2)
      | other c hq hv => exact fun _ => other c hq hv
  exact key (θ.length + 1) c fun v _ => Nat.lt_succ_of_le (rank_le_length hacyc v)

/-! ### The recursion of `substitute` -/

namespace Substitution

/-- The recursion of `substitute` on a cell ends, with the other cell. -/
inductive SubstituteEnds (θ : Substitution) : Cell → Cell → Prop
  /-- A bound variable is followed. -/
  | bound {v : String} {b d : Cell} (hv : θ.get? v = some b) (h : SubstituteEnds θ b d) :
      SubstituteEnds θ (.var v) d
  /-- A free variable is left as it is. -/
  | free {v : String} (hv : θ.get? v = none) : SubstituteEnds θ (.var v) (.var v)
  /-- The cells of a quotation are replaced each. -/
  | quotation {code code' : List Cell} (hlength : code.length = code'.length)
      (h : ∀ c d, (c, d) ∈ code.zip code' → SubstituteEnds θ c d) :
      SubstituteEnds θ (.quotation code) (.quotation code')
  /-- Every other cell is left as it is. -/
  | other {c : Cell} (hq : ∀ code, c ≠ .quotation code) (hv : ∀ v, c ≠ .var v) :
      SubstituteEnds θ c c

theorem substituteEnds_quotation {code : List Cell} {f : Cell → Cell}
    (h : ∀ c ∈ code, θ.SubstituteEnds c (f c)) :
    θ.SubstituteEnds (.quotation code) (.quotation (code.map f)) := by
  have heach : List.Forall₂ θ.SubstituteEnds code (code.map f) :=
    List.forall₂_map_right_iff.mpr (List.forall₂_same.mpr h)
  exact .quotation heach.length_eq fun c d hcd => (List.forall₂_iff_zip.mp heach).2 hcd

theorem substituteEnds_substitute (hacyc : θ.Acyclic) (c : Cell) :
    θ.SubstituteEnds c (θ.substitute c) := by
  induction c using hacyc.cell_induction with
  | quotation code ih =>
    rw [substitute_quotation]
    exact substituteEnds_quotation ih
  | bound v b hv ih =>
    rw [substitute_var_bound hacyc hv]
    exact .bound hv ih
  | free v hv =>
    rw [substitute_var_free hv]
    exact .free hv
  | other c hq hv =>
    rw [substitute_other θ hq hv]
    exact .other hq hv

theorem SubstituteEnds.eq_substitute (hacyc : θ.Acyclic) {c d : Cell} (h : θ.SubstituteEnds c d) :
    d = θ.substitute c := by
  induction h with
  | bound hv _ ih => rw [ih, substitute_var_bound hacyc hv]
  | free hv => rw [substitute_var_free hv]
  | @quotation code code' hlength _ ih =>
    have heach : List.Forall₂ (fun c d => d = θ.substitute c) code code' :=
      List.forall₂_iff_zip.mpr ⟨hlength, fun hcd => ih _ _ hcd⟩
    have hcode := List.forall₂_map_right_iff.mpr heach.flip
    rw [List.forall₂_eq_eq_eq] at hcode
    rw [substitute_quotation, hcode]
  | other hq hv => rw [substitute_other θ hq hv]

/-- What is left of a cell mentions no bound variable. -/
theorem get?_of_mentions_substitute (hacyc : θ.Acyclic) (c : Cell) {v : String}
    (h : (θ.substitute c).Mentions v) : θ.get? v = none := by
  induction c using hacyc.cell_induction with
  | quotation code ih =>
    rw [substitute_quotation, Cell.mentions_quotation] at h
    obtain ⟨d, hd, hmentions⟩ := h
    obtain ⟨c, hc, rfl⟩ := List.mem_map.mp hd
    exact ih c hc hmentions
  | bound w b hw ih => exact ih (substitute_var_bound hacyc hw ▸ h)
  | free w hw =>
    rw [substitute_var_free hw, Cell.mentions_var] at h
    rw [h, hw]
  | other c hq hv =>
    rw [substitute_other θ hq hv] at h
    cases h with
    | var => exact absurd rfl (hv v)
    | quotation => exact absurd rfl (hq _)

/-- A call that ends has come to the end of every chain of bindings from its variables. -/
theorem SubstituteEnds.acc_leads {c d : Cell} (h : θ.SubstituteEnds c d) {w : String}
    (hw : c.Mentions w) : Acc (fun x y => θ.Leads y x) w := by
  induction h generalizing w with
  | @bound v b d hv _ ih =>
    rw [Cell.mentions_var.mp hw]
    refine ⟨v, fun u hu => ?_⟩
    obtain ⟨b', hb', hmentions⟩ := hu
    rw [hv] at hb'
    cases hb'
    exact ih hmentions
  | @free v hv =>
    rw [Cell.mentions_var.mp hw]
    refine ⟨v, fun u hu => ?_⟩
    obtain ⟨b, hb, -⟩ := hu
    rw [hv] at hb
    cases hb
  | @quotation code code' hlength _ ih =>
    obtain ⟨c, hc, hmentions⟩ := Cell.mentions_quotation.mp hw
    obtain ⟨i, hi, rfl⟩ := List.mem_iff_getElem.mp hc
    have hzip : i < (code.zip code').length := by
      rw [List.length_zip, ← hlength, min_self]
      exact hi
    have hmem := List.getElem_mem hzip
    rw [List.getElem_zip] at hmem
    exact ih _ _ hmem hmentions
  | other hq hv =>
    cases hw with
    | var => exact absurd rfl (hv w)
    | quotation => exact absurd rfl (hq _)

/-- **The recursion of `substitute` ends everywhere exactly on acyclic substitutions.** -/
theorem acyclic_iff_substituteEnds : θ.Acyclic ↔ ∀ c, ∃ d, θ.SubstituteEnds c d := by
  refine ⟨fun hacyc c => ⟨_, substituteEnds_substitute hacyc c⟩, fun hends v hcycle => ?_⟩
  obtain ⟨d, hd⟩ := hends (.var v)
  have hacc := (hd.acc_leads (.var v)).transGen
  have hback := Relation.transGen_swap.mpr hcycle
  clear hd
  induction hacc with
  | intro v _ ih => exact ih v hback hcycle hback

/-! ### The recursion of the occurs check -/

/-- The recursion of the occurs check for a variable in a term ends, with this answer. -/
inductive OccursEnds (θ : Substitution) (var : String) : Cell → Bool → Prop
  /-- The variable itself is found. -/
  | here : OccursEnds θ var (.var var) true
  /-- Another variable that is bound is followed. -/
  | bound {w : String} {b : Cell} {found : Bool} (hne : w ≠ var) (hw : θ.get? w = some b)
      (h : OccursEnds θ var b found) : OccursEnds θ var (.var w) found
  /-- Another variable that is free is none of its places. -/
  | free {w : String} (hne : w ≠ var) (hw : θ.get? w = none) : OccursEnds θ var (.var w) false
  /-- The cells of a quotation are searched until it is found. -/
  | found {before after : List Cell} {c : Cell} (hbefore : ∀ d ∈ before, OccursEnds θ var d false)
      (h : OccursEnds θ var c true) :
      OccursEnds θ var (.quotation (before ++ c :: after)) true
  /-- If it is in none of them, it is not in the quotation. -/
  | absent {code : List Cell} (h : ∀ d ∈ code, OccursEnds θ var d false) :
      OccursEnds θ var (.quotation code) false
  /-- It is in no other cell. -/
  | other {c : Cell} (hq : ∀ code, c ≠ .quotation code) (hv : ∀ v, c ≠ .var v) :
      OccursEnds θ var c false

section Occurs

variable {var : String}

/-- The occurs check finds what a variable of the term leads to. -/
theorem occurs_iff (hacyc : θ.Acyclic) (c : Cell) :
    θ.occurs var c = true ↔ ∃ w, c.Mentions w ∧ Relation.ReflTransGen θ.Leads w var :=
  ⟨exists_leads_of_occursWithin _, fun ⟨_, hw, hlead⟩ =>
    occursWithin_of_leads (rankedBy_rank hacyc) _ c (fun v _ => rank_le_length hacyc v) hw hlead⟩

theorem occursWithin_eq_anyVar (θ : Substitution) (n : Nat) (c : Cell) :
    θ.occursWithin var n c = c.anyVar fun v => θ.occursWithin var n (.var v) := by
  cases n with
  | zero => simp only [occursWithin, Cell.anyVar]
  | succ n => simp only [occursWithin, Cell.anyVar]

theorem occurs_quotation (code : List Cell) :
    θ.occurs var (.quotation code) = code.any (θ.occurs var) := by
  rw [occurs, occursWithin_eq_anyVar, Cell.anyVar, Cell.anyVarList_eq_any]
  exact congrArg _ (funext fun c => (occursWithin_eq_anyVar θ _ c).symm)

theorem occurs_other {c : Cell} (hq : ∀ code, c ≠ .quotation code) (hv : ∀ v, c ≠ .var v) :
    θ.occurs var c = false := by
  refine Bool.eq_false_iff.mpr fun h => ?_
  obtain ⟨w, hw, -⟩ := exists_leads_of_occursWithin _ h
  cases hw with
  | var => exact absurd rfl (hv w)
  | quotation => exact absurd rfl (hq _)

theorem occurs_self (hacyc : θ.Acyclic) (var : String) : θ.occurs var (.var var) = true :=
  (occurs_iff hacyc _).mpr ⟨var, .var var, .refl⟩

theorem occurs_var_bound (hacyc : θ.Acyclic) {w : String} {b : Cell} (hne : w ≠ var)
    (hw : θ.get? w = some b) : θ.occurs var (.var w) = θ.occurs var b := by
  rw [Bool.eq_iff_iff, occurs_iff hacyc, occurs_iff hacyc]
  constructor
  · rintro ⟨u, hu, hlead⟩
    rw [Cell.mentions_var.mp hu] at hlead
    rcases hlead.cases_head with heq | ⟨x, ⟨c, hc, hx⟩, hrest⟩
    · exact absurd heq hne
    · rw [hw] at hc
      cases hc
      exact ⟨x, hx, hrest⟩
  · rintro ⟨x, hx, hlead⟩
    exact ⟨w, .var w, .head ⟨b, hw, hx⟩ hlead⟩

theorem occurs_var_free {w : String} (hne : w ≠ var) (hw : θ.get? w = none) :
    θ.occurs var (.var w) = false := by
  refine Bool.eq_false_iff.mpr fun h => ?_
  obtain ⟨u, hu, hlead⟩ := exists_leads_of_occursWithin _ h
  rw [Cell.mentions_var.mp hu] at hlead
  rcases hlead.cases_head with heq | ⟨x, ⟨c, hc, -⟩, -⟩
  · exact hne heq
  · rw [hw] at hc
    cases hc

/-- A quotation is searched cell by cell, up to the first one that has the variable. -/
theorem occursEnds_quotation {code : List Cell} {f : Cell → Bool}
    (h : ∀ c ∈ code, θ.OccursEnds var c (f c)) :
    θ.OccursEnds var (.quotation code) (code.any f) := by
  cases hany : code.any f with
  | false =>
    refine .absent fun d hd => ?_
    rw [List.any_eq_false] at hany
    exact Bool.eq_false_iff.mpr (hany d hd) ▸ h d hd
  | true =>
    obtain ⟨c, hfind⟩ := Option.isSome_iff_exists.mp
      (List.find?_isSome.mpr (List.any_eq_true.mp hany))
    obtain ⟨hc, before, after, rfl, hbefore⟩ := List.find?_eq_some_iff_append.mp hfind
    refine .found (fun d hd => ?_) (hc ▸ h c (by simp))
    have hfalse : f d = false := by simpa using hbefore d hd
    exact hfalse ▸ h d (List.mem_append_left _ hd)

theorem occursEnds_occurs (hacyc : θ.Acyclic) (c : Cell) :
    θ.OccursEnds var c (θ.occurs var c) := by
  induction c using hacyc.cell_induction with
  | quotation code ih =>
    rw [occurs_quotation]
    exact occursEnds_quotation ih
  | bound w b hw ih =>
    by_cases hne : w = var
    · rw [hne, occurs_self hacyc]
      exact .here
    · rw [occurs_var_bound hacyc hne hw]
      exact .bound hne hw ih
  | free w hw =>
    by_cases hne : w = var
    · rw [hne, occurs_self hacyc]
      exact .here
    · rw [occurs_var_free hne hw]
      exact .free hne hw
  | other c hq hv =>
    rw [occurs_other hq hv]
    exact .other hq hv

theorem OccursEnds.eq_occurs (hacyc : θ.Acyclic) {c : Cell} {found : Bool}
    (h : θ.OccursEnds var c found) : found = θ.occurs var c := by
  induction h with
  | here => rw [occurs_self hacyc]
  | bound hne hw _ ih => rw [ih, occurs_var_bound hacyc hne hw]
  | free hne hw => rw [occurs_var_free hne hw]
  | found _ _ _ ih =>
    rw [occurs_quotation, List.any_append, List.any_cons, ← ih, Bool.true_or, Bool.or_true]
  | absent _ ih =>
    rw [occurs_quotation, eq_comm, List.any_eq_false]
    exact fun d hd => Bool.eq_false_iff.mp (ih d hd).symm
  | other hq hv => rw [occurs_other hq hv]

end Occurs

end Substitution

/-! ### The branches of unification -/

section Equations

variable {n : Nat} {a b : Cell}

theorem unifyWithin_equal (h : (a == b) = true) : unifyWithin (n + 1) a b θ = .ok θ := by
  unfold unifyWithin
  rw [if_pos h]

theorem unifyWithin_left {v : String} (hne : (Cell.var v == b) = false) :
    unifyWithin (n + 1) (.var v) b θ = unifyVarBy (unifyWithin n) v b θ := by
  rw [unifyWithin, if_neg (Bool.eq_false_iff.mp hne)]

theorem unifyWithin_right {v : String} (hne : (a == Cell.var v) = false) (ha : ∀ w, a ≠ .var w) :
    unifyWithin (n + 1) a (.var v) θ = unifyVarBy (unifyWithin n) v a θ := by
  rw [unifyWithin, if_neg (Bool.eq_false_iff.mp hne)]
  exact fun w => ha w

theorem unifyWithin_quotations {as bs : List Cell}
    (hne : (Cell.quotation as == Cell.quotation bs) = false) :
    unifyWithin (n + 1) (.quotation as) (.quotation bs) θ =
      unifyEach (unifyWithin n) (.lengthMismatch as bs) as bs θ := by
  rw [unifyWithin, if_neg (Bool.eq_false_iff.mp hne)]

theorem unifyWithin_constants (hne : (a == b) = false) (ha : ∀ v, a ≠ .var v)
    (hb : ∀ v, b ≠ .var v) (hquotations : ∀ as bs, a = .quotation as → b ≠ .quotation bs) :
    unifyWithin (n + 1) a b θ =
      if θ.substitute a == θ.substitute b then .ok θ else .error (.conflict a b) := by
  rw [unifyWithin, if_neg (Bool.eq_false_iff.mp hne)]
  · exact ha
  · exact hb
  · exact hquotations

end Equations

/-! ### The recursion of unification -/

/-- A call in the course of a unification. -/
inductive UnifyCall
  /-- Two cells are unified. -/
  | cells (a b : Cell)
  /-- A variable is unified with a term. -/
  | var (v : String) (term : Cell)
  /-- Two sequences are unified from here on; `mismatch` reports different lengths. -/
  | each (mismatch : UnifyError) (as bs : List Cell)

namespace UnifyCall

/-- The recursion of a call ends, with this result. -/
inductive Ends : UnifyCall → Substitution → Except UnifyError Substitution → Prop
  /-- Equal cells are unified as they are. -/
  | equal {a b : Cell} {θ : Substitution} (h : (a == b) = true) : Ends (.cells a b) θ (.ok θ)
  /-- A variable on the left is unified with the other cell. -/
  | left {v : String} {b : Cell} {θ : Substitution} {r : Except UnifyError Substitution}
      (hne : (Cell.var v == b) = false) (h : Ends (.var v b) θ r) : Ends (.cells (.var v) b) θ r
  /-- So is one on the right, if there is none on the left. -/
  | right {a : Cell} {v : String} {θ : Substitution} {r : Except UnifyError Substitution}
      (hne : (a == Cell.var v) = false) (hleft : ∀ w, a ≠ .var w) (h : Ends (.var v a) θ r) :
      Ends (.cells a (.var v)) θ r
  /-- Quotations are unified element by element. -/
  | quotations {as bs : List Cell} {θ : Substitution} {r : Except UnifyError Substitution}
      (hne : (Cell.quotation as == Cell.quotation bs) = false)
      (h : Ends (.each (.lengthMismatch as bs) as bs) θ r) :
      Ends (.cells (.quotation as) (.quotation bs)) θ r
  /-- Any other two cells must be equal once their variables are replaced. -/
  | constants {a b a' b' : Cell} {θ : Substitution} (hne : (a == b) = false)
      (hleft : ∀ v, a ≠ .var v) (hright : ∀ v, b ≠ .var v)
      (hquotations : ∀ as bs, a = .quotation as → b ≠ .quotation bs)
      (ha : θ.SubstituteEnds a a') (hb : θ.SubstituteEnds b b') :
      Ends (.cells a b) θ (if a' == b' then .ok θ else .error (.conflict a b))
  /-- A bound variable is followed. -/
  | bound {v : String} {term b : Cell} {θ : Substitution} {r : Except UnifyError Substitution}
      (hv : θ.get? v = some b) (h : Ends (.cells b term) θ r) : Ends (.var v term) θ r
  /-- So is a bound variable that a free one is unified with. -/
  | boundTerm {v w : String} {b : Cell} {θ : Substitution} {r : Except UnifyError Substitution}
      (hv : θ.get? v = none) (hw : θ.get? w = some b) (h : Ends (.cells (.var v) b) θ r) :
      Ends (.var v (.var w)) θ r
  /-- A free variable is not bound to a term in which it occurs. -/
  | occurs {v : String} {term : Cell} {θ : Substitution} (hv : θ.get? v = none)
      (hterm : θ.binding? term = none) (h : θ.OccursEnds v term true) :
      Ends (.var v term) θ (.error (.occurs v term))
  /-- It is bound to any other term. -/
  | bind {v : String} {term : Cell} {θ : Substitution} (hv : θ.get? v = none)
      (hterm : θ.binding? term = none) (h : θ.OccursEnds v term false) :
      Ends (.var v term) θ (.ok (θ.bind v term))
  /-- Sequences that end together are unified. -/
  | nil {mismatch : UnifyError} {θ : Substitution} : Ends (.each mismatch [] []) θ (.ok θ)
  /-- The bindings of the first elements are kept for the others. -/
  | cons {mismatch : UnifyError} {a b : Cell} {as bs : List Cell} {θ θ' : Substitution}
      {r : Except UnifyError Substitution} (h : Ends (.cells a b) θ (.ok θ'))
      (hrest : Ends (.each mismatch as bs) θ' r) : Ends (.each mismatch (a :: as) (b :: bs)) θ r
  /-- If the first elements are not unified, the others are not looked at. -/
  | fail {mismatch : UnifyError} {a b : Cell} {as bs : List Cell} {θ : Substitution}
      {e : UnifyError} (h : Ends (.cells a b) θ (.error e)) :
      Ends (.each mismatch (a :: as) (b :: bs)) θ (.error e)
  /-- Sequences of different lengths are not unified: there are elements left on the left. -/
  | longer {mismatch : UnifyError} {a : Cell} {as : List Cell} {θ : Substitution} :
      Ends (.each mismatch (a :: as) []) θ (.error mismatch)
  /-- Or there are elements left on the right. -/
  | shorter {mismatch : UnifyError} {b : Cell} {bs : List Cell} {θ : Substitution} :
      Ends (.each mismatch [] (b :: bs)) θ (.error mismatch)

/-- The result of a call with at most `n` calls in a row beneath it. -/
def within (n : Nat) : UnifyCall → Substitution → Except UnifyError Substitution
  | .cells a b, θ => unifyWithin n a b θ
  | .var v term, θ => unifyVarBy (unifyWithin n) v term θ
  | .each mismatch as bs, θ => unifyEach (unifyWithin n) mismatch as bs θ

/-! ### Calls that suffice end -/

/-- A unification step whose calls end wherever they suffice. -/
def EndingUnifier (f : Unifier) : Prop :=
  ∀ a b θ, θ.Acyclic → f a b θ ≠ .error .cyclic → Ends (.cells a b) θ (f a b θ)

theorem ends_var {f : Unifier} (hf : EndingUnifier f) (hacyc : θ.Acyclic) {v : String} {term : Cell}
    (h : unifyVarBy f v term θ ≠ .error .cyclic) :
    Ends (.var v term) θ (unifyVarBy f v term θ) := by
  rw [unifyVarBy] at h ⊢
  cases hv : θ.get? v with
  | some b =>
    rw [hv] at h
    exact .bound hv (hf b term θ hacyc h)
  | none =>
    rw [hv] at h
    cases hterm : θ.binding? term with
    | some b =>
      rw [hterm] at h
      cases term with
      | var w => exact .boundTerm hv hterm (hf (.var v) b θ hacyc h)
      | _ => cases hterm
    | none =>
      have hends : θ.OccursEnds v term (θ.occurs v term) := occursEnds_occurs hacyc term
      cases hocc : θ.occurs v term with
      | true =>
        rw [hocc] at hends
        exact .occurs hv hterm hends
      | false =>
        rw [hocc] at hends
        exact .bind hv hterm hends

theorem ends_each {f : Unifier} (hf : EndingUnifier f)
    (hkeeps : ∀ a b θ θ', θ.Acyclic → f a b θ = .ok θ' → θ'.Acyclic) (mismatch : UnifyError)
    {as bs : List Cell} (hacyc : θ.Acyclic)
    (h : unifyEach f mismatch as bs θ ≠ .error .cyclic) :
    Ends (.each mismatch as bs) θ (unifyEach f mismatch as bs θ) := by
  induction as generalizing bs θ with
  | nil =>
    cases bs with
    | nil => exact .nil
    | cons b bs => exact .shorter
  | cons a as ih =>
    cases bs with
    | nil => exact .longer
    | cons b bs =>
      rw [unifyEach] at h ⊢
      cases hab : f a b θ with
      | error e =>
        rw [hab] at h
        exact .fail (hab ▸ hf a b θ hacyc (hab ▸ h))
      | ok θ' =>
        rw [hab] at h
        have hok : f a b θ ≠ .error .cyclic := by
          rw [hab]
          intro hcyclic
          cases hcyclic
        have hfirst : Ends (.cells a b) θ (.ok θ') := hab ▸ hf a b θ hacyc hok
        exact .cons hfirst (ih (hkeeps a b θ θ' hacyc hab) h)

/-- **Calls that suffice end.** -/
theorem endingUnifier_unifyWithin (n : Nat) : EndingUnifier (unifyWithin n) := by
  induction n with
  | zero => exact fun a b θ _ h => absurd rfl h
  | succ n ih =>
    intro a b θ hacyc h
    cases hab : a == b with
    | true =>
      rw [unifyWithin_equal hab]
      exact .equal hab
    | false =>
      by_cases hleft : ∃ v, a = .var v
      · obtain ⟨v, rfl⟩ := hleft
        rw [unifyWithin_left hab] at h ⊢
        exact .left hab (ends_var ih hacyc h)
      have ha : ∀ v, a ≠ .var v := fun v hv => hleft ⟨v, hv⟩
      by_cases hright : ∃ v, b = .var v
      · obtain ⟨v, rfl⟩ := hright
        rw [unifyWithin_right hab ha] at h ⊢
        exact .right hab ha (ends_var ih hacyc h)
      have hb : ∀ v, b ≠ .var v := fun v hv => hright ⟨v, hv⟩
      by_cases hboth : ∃ as bs, a = .quotation as ∧ b = .quotation bs
      · obtain ⟨as, bs, rfl, rfl⟩ := hboth
        rw [unifyWithin_quotations hab] at h ⊢
        exact .quotations hab (ends_each ih (fun _ _ _ _ hθ hok => (unifyWithin_keeps n hθ hok).1)
          _ hacyc h)
      · have hquotations : ∀ as bs, a = .quotation as → b ≠ .quotation bs :=
          fun as bs has hbs => hboth ⟨as, bs, has, hbs⟩
        rw [unifyWithin_constants hab ha hb hquotations]
        exact .constants hab ha hb hquotations (substituteEnds_substitute hacyc a)
          (substituteEnds_substitute hacyc b)

/-! ### Calls that end suffice -/

theorem eventually_succ {α : Type} {x : α} {g g' : Nat → α} (hg : ∀ n, g' (n + 1) = g n)
    (h : ∃ n, ∀ m, n ≤ m → g m = x) : ∃ n, ∀ m, n ≤ m → g' m = x := by
  obtain ⟨n, hn⟩ := h
  refine ⟨n + 1, fun m hm => ?_⟩
  obtain ⟨k, rfl⟩ := Nat.exists_eq_add_of_le' (Nat.one_le_of_lt hm)
  rw [hg, hn k (Nat.le_of_succ_le_succ hm)]

/-- **A call that ends has its result under every bound that is large enough.** -/
theorem Ends.eventually {call : UnifyCall} {r : Except UnifyError Substitution}
    (h : call.Ends θ r) : θ.Acyclic → ∃ n, ∀ m, n ≤ m → call.within m θ = r := by
  induction h with
  | equal hab =>
    exact fun _ => eventually_succ (fun n => unifyWithin_equal hab) ⟨0, fun _ _ => rfl⟩
  | left hne _ ih => exact fun hacyc => eventually_succ (fun n => unifyWithin_left hne) (ih hacyc)
  | right hne hleft _ ih =>
    exact fun hacyc => eventually_succ (fun n => unifyWithin_right hne hleft) (ih hacyc)
  | quotations hne _ ih =>
    exact fun hacyc => eventually_succ (fun n => unifyWithin_quotations hne) (ih hacyc)
  | constants hne hleft hright hquotations ha hb =>
    intro hacyc
    rw [ha.eq_substitute hacyc, hb.eq_substitute hacyc]
    exact eventually_succ (fun n => unifyWithin_constants hne hleft hright hquotations)
      ⟨0, fun _ _ => rfl⟩
  | bound hv _ ih =>
    intro hacyc
    obtain ⟨n, hn⟩ := ih hacyc
    refine ⟨n, fun m hm => ?_⟩
    rw [within, unifyVarBy, hv]
    exact hn m hm
  | @boundTerm v w b θ r hv hw _ ih =>
    intro hacyc
    obtain ⟨n, hn⟩ := ih hacyc
    refine ⟨n, fun m hm => ?_⟩
    rw [within, unifyVarBy, hv, binding?, hw]
    exact hn m hm
  | occurs hv hterm hends =>
    refine fun hacyc => ⟨0, fun m _ => ?_⟩
    rw [within, unifyVarBy, hv, hterm, ← hends.eq_occurs hacyc]
    rfl
  | bind hv hterm hends =>
    refine fun hacyc => ⟨0, fun m _ => ?_⟩
    rw [within, unifyVarBy, hv, hterm, ← hends.eq_occurs hacyc]
    rfl
  | nil => exact fun _ => ⟨0, fun _ _ => rfl⟩
  | @cons mismatch a b as bs θ θ' r _ _ ih ihrest =>
    intro hacyc
    obtain ⟨n, hn⟩ := ih hacyc
    -- the loop goes on with an acyclic substitution
    obtain ⟨n', hn'⟩ := ihrest (unifyWithin_keeps n hacyc (hn n le_rfl)).1
    refine ⟨max n n', fun m hm => ?_⟩
    have hfirst : unifyWithin m a b θ = .ok θ' := hn m (le_of_max_le_left hm)
    rw [within, unifyEach, hfirst]
    exact hn' m (le_of_max_le_right hm)
  | @fail mismatch a b as bs θ e _ ih =>
    intro hacyc
    obtain ⟨n, hn⟩ := ih hacyc
    refine ⟨n, fun m hm => ?_⟩
    have hfirst : unifyWithin m a b θ = .error e := hn m hm
    rw [within, unifyEach, hfirst]
  | longer => exact fun _ => ⟨0, fun _ _ => rfl⟩
  | shorter => exact fun _ => ⟨0, fun _ _ => rfl⟩

/-- A call has one result. -/
theorem Ends.unique {call : UnifyCall} {r r' : Except UnifyError Substitution}
    (hacyc : θ.Acyclic) (h : call.Ends θ r) (h' : call.Ends θ r') : r = r' := by
  obtain ⟨n, hn⟩ := h.eventually hacyc
  obtain ⟨n', hn'⟩ := h'.eventually hacyc
  rw [← hn (max n n') (le_max_left n n'), hn' (max n n') (le_max_right n n')]

end UnifyCall

/-- **On an acyclic substitution every recursion ends**, with one result, which is the result of the
function with a bound on its calls: that of `substitute`, of the occurs check, of unification, and
of the unification of a variable with a term. No bound variable is left by `substitute` where
quotations lead to it, and so it changes nothing when it is used again. -/
theorem unification_terminates (hacyc : θ.Acyclic) :
    (∀ c d, θ.SubstituteEnds c d ↔ d = θ.substitute c) ∧
      (∀ v term found, θ.OccursEnds v term found ↔ found = θ.occurs v term) ∧
      (∀ a b r, UnifyCall.Ends (.cells a b) θ r ↔ r = unify a b θ) ∧
      (∀ v term r, UnifyCall.Ends (.var v term) θ r ↔ r = unifyVar v term θ) ∧
      (∀ c v, (θ.substitute c).Mentions v → θ.get? v = none) ∧
      ∀ c, θ.substitute (θ.substitute c) = θ.substitute c := by
  refine ⟨fun c d => ⟨fun h => h.eq_substitute hacyc, ?_⟩,
    fun v term found => ⟨fun h => h.eq_occurs hacyc, ?_⟩, fun a b r => ?_, fun v term r => ?_,
    fun c v h => get?_of_mentions_substitute hacyc c h,
    fun c => substitute_substitute hacyc (.refl θ) c⟩
  · rintro rfl
    exact substituteEnds_substitute hacyc c
  · rintro rfl
    exact occursEnds_occurs hacyc term
  · have hends : UnifyCall.Ends (.cells a b) θ (unify a b θ) :=
      UnifyCall.endingUnifier_unifyWithin _ a b θ hacyc (unify_suffices hacyc a b)
    exact ⟨fun h => h.unique hacyc hends, fun h => h ▸ hends⟩
  · have hends : UnifyCall.Ends (.var v term) θ (unifyVar v term θ) :=
      UnifyCall.ends_var (UnifyCall.endingUnifier_unifyWithin _) hacyc
        (unifyVar_suffices hacyc v term)
    exact ⟨fun h => h.unique hacyc hends, fun h => h ▸ hends⟩

/-- The theorem where `'a` is bound to `['b]` and `'b` to `'c`: unifying `'a` with `[1]` goes inside
the quotation and along both bindings, and binds `'c`. -/
theorem unification_terminates_chain :
    Acyclic [("a", .quotation [.var "b"]), ("b", .var "c")] ∧
      UnifyCall.Ends (.cells (.var "a") (.quotation [.int 1]))
        [("a", .quotation [.var "b"]), ("b", .var "c")]
        (.ok [("a", .quotation [.var "b"]), ("b", .var "c"), ("c", .int 1)]) ∧
      SubstituteEnds [("a", .quotation [.var "b"]), ("b", .var "c")]
        (.quotation [.var "a", .var "b"]) (.quotation [.quotation [.var "c"], .var "c"]) ∧
      OccursEnds [("a", .quotation [.var "b"]), ("b", .var "c")] "c" (.var "a") true := by
  have hlast : Acyclic [("b", .var "c")] := acyclic_bind acyclic_nil rfl rfl
  have hacyc : (Substitution.bind [("b", .var "c")] "a" (.quotation [.var "b"])).Acyclic :=
    acyclic_bind hlast rfl rfl
  obtain ⟨hsubstitute, hoccurs, hunify, -⟩ := unification_terminates hacyc
  exact ⟨hacyc, (hunify _ _ _).mpr rfl, (hsubstitute _ _).mpr rfl, (hoccurs _ _ _).mpr rfl⟩

end Restack
