import Restack.Proofs.Typing
import Restack.Proofs.Unification

/-!
# Types for variables

Inference works on types and variables only. Given a type for each variable, such a term
denotes a type, and a substitution of terms is true if every variable it binds denotes
what its binding denotes. If the outcome of a unification is true, then so was the
substitution it started from, and the two terms denote the same type.

## Main definitions

* `Substitution.OfTerms` — variables are bound to types and variables only.
* `Models` — a choice of types makes a list of bindings true.
* `Substitution.pull` — the choice of types that goes by way of a substitution.

## Main results

* `denotes_substitute` — substituting first is choosing types by way of the substitution.
* `Models.denotes_substitute` — a true substitution does not change what a term denotes.
* `unify_terms`, `unifyBindings_terms` — what is true after a unification.
* `models_pull` — the outcome of unifying all bindings makes all of them true.
-/

namespace Restack

variable {types : String → TypeTag} {θ θ' : Substitution}

/-- Every variable is bound to a type or a variable. -/
def Substitution.OfTerms (θ : Substitution) : Prop := ∀ e ∈ θ, e.2.IsTerm

/-- Every variable denotes what it is bound to. -/
def Models (types : String → TypeTag) (θ : Substitution) : Prop :=
  ∀ e ∈ θ, denotes types (.var e.1) = denotes types e.2

theorem Cell.IsTerm.noNaN {c : Cell} (hc : c.IsTerm) : c.noNaN = true := by
  cases hc <;> rfl

/-- Equal terms are the same. -/
theorem Cell.IsTerm.eq_of_beq {a b : Cell} (ha : a.IsTerm) (h : (a == b) = true) : a = b := by
  cases ha with
  | type tag =>
    cases b with
    | type tag' =>
      have htag : (tag == tag') = true := h
      rw [beq_iff_eq.mp htag]
    | _ => cases h
  | var v =>
    cases b with
    | var w =>
      have hvar : (v == w) = true := h
      rw [beq_iff_eq.mp hvar]
    | _ => cases h

/-! ### The bindings of a substitution -/

namespace Substitution

theorem mem_of_get? {v : String} {c : Cell} (h : θ.get? v = some c) : (v, c) ∈ θ := by
  induction θ with
  | nil => cases h
  | cons e θ ih =>
    obtain ⟨w, d⟩ := e
    rw [get?_cons] at h
    split at h
    · rename_i hv
      cases h
      rw [hv]
      exact List.mem_cons_self
    · exact List.mem_cons_of_mem _ (ih h)

theorem mem_bind {v : String} {c : Cell} {e : String × Cell} (h : e ∈ θ.bind v c) :
    e = (v, c) ∨ e ∈ θ := by
  induction θ with
  | nil => exact .inl (List.mem_singleton.mp h)
  | cons d θ ih =>
    obtain ⟨w, d⟩ := d
    rw [bind] at h
    split at h
    · exact List.mem_cons.mp h
    · split at h
      · rcases List.mem_cons.mp h with h | h
        · exact .inl h
        · exact .inr (List.mem_cons_of_mem _ h)
      · rcases List.mem_cons.mp h with rfl | h
        · exact .inr List.mem_cons_self
        · exact (ih h).imp_right (List.mem_cons_of_mem _)

/-- Binding a free variable keeps every binding there is. -/
theorem mem_bind_of_mem {v : String} {c : Cell} (hv : θ.get? v = none) {e : String × Cell}
    (h : e ∈ θ) : e ∈ θ.bind v c := by
  induction θ with
  | nil => cases h
  | cons d θ ih =>
    obtain ⟨w, d⟩ := d
    rw [get?_cons] at hv
    rw [bind]
    split
    · exact List.mem_cons_of_mem _ h
    · split
      · rename_i hvw
        rw [if_pos hvw] at hv
        cases hv
      · rename_i hvw
        rw [if_neg hvw] at hv
        rcases List.mem_cons.mp h with rfl | h
        · exact List.mem_cons_self
        · exact List.mem_cons_of_mem _ (ih hv h)

theorem ofTerms_nil : OfTerms [] := fun _ h => nomatch h

theorem ofTerms_bind (hθ : θ.OfTerms) (v : String) {c : Cell} (hc : c.IsTerm) :
    (θ.bind v c).OfTerms := by
  intro e he
  rcases mem_bind he with rfl | he
  · exact hc
  · exact hθ e he

/-! ### Substituting terms -/

@[simp] theorem substitute_type (θ : Substitution) (tag : TypeTag) :
    θ.substitute (.type tag) = .type tag :=
  substitute_other θ (fun _ => nofun) (fun _ => nofun)

/-- A term stays one. -/
theorem substitute_isTerm (hθ : θ.OfTerms) {c : Cell} (hc : c.IsTerm) :
    (θ.substitute c).IsTerm := by
  have key : ∀ n (d : Cell), d.IsTerm → (θ.substituteWithin n d).IsTerm := by
    intro n
    induction n with
    | zero => exact fun d hd => hd
    | succ n ih =>
      intro d hd
      cases hd with
      | type tag => exact .type tag
      | var v =>
        cases hv : θ.get? v with
        | none => rw [substituteWithin_var_none _ hv]; exact .var v
        | some bound =>
          rw [substituteWithin_var_some n hv]
          exact ih bound (hθ _ (mem_of_get? hv))
  exact key _ c hc

/-- The types that variables have by way of a substitution. -/
def pull (types : String → TypeTag) (θ : Substitution) (v : String) : TypeTag :=
  (denotes types (θ.substitute (.var v))).getD default

/-- **Substituting first is choosing types by way of the substitution.** -/
theorem denotes_substitute (types : String → TypeTag) (hθ : θ.OfTerms) {c : Cell}
    (hc : c.IsTerm) : denotes types (θ.substitute c) = denotes (pull types θ) c := by
  cases hc with
  | type tag => rw [substitute_type]; rfl
  | var v =>
    obtain ⟨tag, htag⟩ :=
      Option.isSome_iff_exists.mp ((substitute_isTerm hθ (.var v)).denotes_isSome types)
    rw [denotes_var, pull, htag, Option.getD_some]

end Substitution

namespace Models

theorem nil (types : String → TypeTag) : Models types [] := fun _ h => nomatch h

theorem of_get? (h : Models types θ) {v : String} {c : Cell} (hv : θ.get? v = some c) :
    denotes types (.var v) = denotes types c :=
  h (v, c) (Substitution.mem_of_get? hv)

/-- Following bindings that are true does not change what a term denotes. -/
theorem denotes_substituteWithin (h : Models types θ) (hθ : θ.OfTerms) (n : Nat) {c : Cell}
    (hc : c.IsTerm) : denotes types (θ.substituteWithin n c) = denotes types c := by
  induction n generalizing c with
  | zero => rfl
  | succ n ih =>
    cases hc with
    | type tag => rfl
    | var v =>
      cases hv : θ.get? v with
      | none => rw [Substitution.substituteWithin_var_none _ hv]
      | some bound =>
        rw [Substitution.substituteWithin_var_some n hv,
          ih (hθ _ (Substitution.mem_of_get? hv)), h.of_get? hv]

/-- **A true substitution does not change what a term denotes.** -/
theorem denotes_substitute (h : Models types θ) (hθ : θ.OfTerms) {c : Cell} (hc : c.IsTerm) :
    denotes types (θ.substitute c) = denotes types c :=
  h.denotes_substituteWithin hθ _ hc

end Models

/-! ### Unifying terms -/

/-- What a successful unification of two terms means: the outcome is one of terms, and types that
make it true make the earlier substitution true and the two terms the same. -/
structure Entails (θ θ' : Substitution) (a b : Cell) : Prop where
  /-- The outcome binds variables to terms. -/
  ofTerms : θ'.OfTerms
  /-- What makes the outcome true makes the earlier substitution true. -/
  models : ∀ types, Models types θ' → Models types θ
  /-- What makes the outcome true makes the two terms the same. -/
  same : ∀ types, Models types θ' → denotes types a = denotes types b

theorem Entails.symm {a b : Cell} (h : Entails θ θ' a b) : Entails θ θ' b a :=
  ⟨h.ofTerms, h.models, fun types hm => (h.same types hm).symm⟩

/-- Unifying a variable with a term entails what the calls that it makes entail. -/
theorem unifyVarBy_terms {f : Unifier}
    (hf : ∀ a b θ θ', a.IsTerm → b.IsTerm → θ.OfTerms → f a b θ = .ok θ' → Entails θ θ' a b)
    {v : String} {term : Cell} (hterm : term.IsTerm) (hθ : θ.OfTerms)
    (h : unifyVarBy f v term θ = .ok θ') : Entails θ θ' (.var v) term := by
  rw [unifyVarBy] at h
  cases hv : θ.get? v with
  | some bound =>
    rw [hv] at h
    have hb := hf bound term θ θ' (hθ _ (Substitution.mem_of_get? hv)) hterm hθ h
    exact ⟨hb.ofTerms, hb.models, fun types hm =>
      ((hb.models types hm).of_get? hv).trans (hb.same types hm)⟩
  | none =>
    rw [hv] at h
    cases ht : θ.binding? term with
    | some bound =>
      rw [ht] at h
      obtain ⟨w, rfl, hw⟩ : ∃ w, term = .var w ∧ θ.get? w = some bound := by
        cases hterm with
        | type tag => cases ht
        | var w => exact ⟨w, rfl, ht⟩
      have hb := hf (.var v) bound θ θ' (.var v) (hθ _ (Substitution.mem_of_get? hw)) hθ h
      exact ⟨hb.ofTerms, hb.models, fun types hm =>
        (hb.same types hm).trans ((hb.models types hm).of_get? hw).symm⟩
    | none =>
      rw [ht] at h
      cases hocc : θ.occurs v term with
      | true => simp [hocc] at h
      | false =>
        simp only [hocc, Bool.false_eq_true, if_false, Except.ok.injEq] at h
        subst h
        -- a new binding is true under the types that make the whole true, and so are the old ones
        refine ⟨Substitution.ofTerms_bind hθ v hterm, fun types hm e he => ?_, fun types hm => ?_⟩
        · exact hm e (Substitution.mem_bind_of_mem hv he)
        · exact hm.of_get? (by rw [Substitution.get?_bind, if_pos rfl])

theorem unifyWithin_terms (n : Nat) (a b : Cell) (θ θ' : Substitution) (ha : a.IsTerm)
    (hb : b.IsTerm) (hθ : θ.OfTerms) (h : unifyWithin n a b θ = .ok θ') : Entails θ θ' a b := by
  induction n generalizing a b θ θ' with
  | zero => cases h
  | succ n ih =>
    unfold unifyWithin at h
    split at h
    · rename_i hab
      cases h
      exact ⟨hθ, fun _ hm => hm, fun types _ => by rw [ha.eq_of_beq hab]⟩
    · rename_i hab
      split at h
      · exact unifyVarBy_terms ih hb hθ h
      · exact (unifyVarBy_terms ih ha hθ h).symm
      · cases ha
      · -- two types: they are equal, or the unification fails
        rename_i hna hnb _
        cases ha with
        | var v => exact absurd rfl (hna v)
        | type tag =>
          cases hb with
          | var v => exact absurd rfl (hnb v)
          | type tag' =>
            rw [Substitution.substitute_type, Substitution.substitute_type, if_neg hab] at h
            cases h

/-- **What is true after a unification of terms.** -/
theorem unify_terms {a b : Cell} (ha : a.IsTerm) (hb : b.IsTerm) (hθ : θ.OfTerms)
    (h : unify a b θ = .ok θ') : Entails θ θ' a b :=
  unifyWithin_terms _ a b θ θ' ha hb hθ h

/-- **What is true after a unification of bindings.** -/
theorem unifyBindings_terms {entries : Substitution} (hentries : entries.OfTerms)
    (hθ : θ.OfTerms) (h : unifyBindings entries θ = .ok θ') :
    θ'.OfTerms ∧ ∀ types, Models types θ' → Models types θ ∧ Models types entries := by
  induction entries generalizing θ with
  | nil =>
    cases h
    exact ⟨hθ, fun types hm => ⟨hm, .nil types⟩⟩
  | cons e entries ih =>
    obtain ⟨v, c⟩ := e
    rw [unifyBindings] at h
    cases hu : unify (.var v) c θ with
    | error err => rw [hu] at h; cases h
    | ok θ₁ =>
      rw [hu] at h
      have hhead := unify_terms (.var v) (hentries _ List.mem_cons_self) hθ hu
      obtain ⟨hterms, hmodels⟩ :=
        ih (fun d hd => hentries d (List.mem_cons_of_mem _ hd)) hhead.ofTerms h
      refine ⟨hterms, fun types hm => ?_⟩
      obtain ⟨hm₁, hrest⟩ := hmodels types hm
      refine ⟨hhead.models types hm₁, fun d hd => ?_⟩
      rcases List.mem_cons.mp hd with rfl | hd
      · exact hhead.same types hm₁
      · exact hrest d hd

/-! ### Unifying all bindings -/

/-- Unifying bindings is a sequence of unifications. -/
theorem unifyBindings_eq_foldlM (entries : List (String × Cell)) (θ : Substitution) :
    unifyBindings entries θ =
      (entries.map fun e => (Cell.var e.1, e.2)).foldlM (fun θ e => unify e.1 e.2 θ) θ := by
  induction entries generalizing θ with
  | nil => rfl
  | cons e entries ih =>
    obtain ⟨v, c⟩ := e
    rw [unifyBindings, List.map_cons, List.foldlM_cons]
    cases unify (.var v) c θ with
    | error err => rfl
    | ok θ₁ => exact ih θ₁

/-- The outcome of unifying all bindings makes both sides of each of them the same. -/
theorem substitute_eq_of_unifyBindings {entries : Substitution} (hentries : entries.OfTerms)
    (h : unifyBindings entries [] = .ok θ) {e : String × Cell} (he : e ∈ entries) :
    θ.substitute (.var e.1) = θ.substitute e.2 := by
  have hterms := (unifyBindings_terms hentries Substitution.ofTerms_nil h).1
  rw [unifyBindings_eq_foldlM] at h
  have hnan : ∀ e ∈ entries.map fun e => (Cell.var e.1, e.2),
      e.1.noNaN = true ∧ e.2.noNaN = true := by
    intro e he
    obtain ⟨d, hd, rfl⟩ := List.mem_map.mp he
    exact ⟨(Cell.IsTerm.var d.1).noNaN, (hentries d hd).noNaN⟩
  obtain ⟨-, -, -, hall⟩ :=
    foldlM_unify_sound Substitution.acyclic_nil Substitution.noNaN_nil hnan h
  -- terms are equal cells only if they are the same
  exact (Substitution.substitute_isTerm hterms (.var e.1)).eq_of_beq
    (hall _ (List.mem_map_of_mem he))

/-- **The outcome of unifying all bindings makes all of them true**, whatever the types of the
variables that stay free. -/
theorem models_pull {entries : Substitution} (hentries : entries.OfTerms)
    (h : unifyBindings entries [] = .ok θ) (types : String → TypeTag) :
    Models (Substitution.pull types θ) entries := by
  have hterms := (unifyBindings_terms hentries Substitution.ofTerms_nil h).1
  intro e he
  rw [← Substitution.denotes_substitute types hterms (.var e.1),
    ← Substitution.denotes_substitute types hterms (hentries e he),
    substitute_eq_of_unifyBindings hentries h he]

end Restack
