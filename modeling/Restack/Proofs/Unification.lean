import Restack.Proofs.Substitution

/-!
# Soundness of unification

A successful unification extends its substitution, keeps it acyclic, and makes the two
cells equal under the result. One call is followed through a bounded number of calls in
a row, so the proof is an induction on that number; the element-wise loop and the
binding of a variable each have a lemma of their own, which takes the soundness of the
calls they make as a hypothesis.

## Main definitions

* `Solves θ θ' a b` — what a successful unification of `a` and `b` promises.
* `SoundUnifier` — a unification step that keeps this promise.

## Main results

* `soundUnifier_unifyWithin` — the step with any number of calls in a row is sound.
* `unify_solves_equations` — so is unification, and a sequence of unifications solves
  all of its equations at once.
-/

namespace Restack

open Substitution

/-- `θ'` is an acyclic extension of `θ`, without a NaN, under which `a` and `b` are equal. -/
structure Solves (θ θ' : Substitution) (a b : Cell) : Prop where
  /-- No variable leads back to itself. -/
  acyclic : θ'.Acyclic
  /-- Earlier bindings are kept. -/
  keeps : θ'.Extends θ
  /-- No NaN was brought in. -/
  noNaN : θ'.NoNaN
  /-- The two cells are equal. -/
  equal : (θ'.substitute a == θ'.substitute b) = true

theorem Solves.symm {θ θ' : Substitution} {a b : Cell} (h : Solves θ θ' a b) :
    Solves θ θ' b a :=
  ⟨h.acyclic, h.keeps, h.noNaN, Cell.beq_symm h.equal⟩

/-- An equation that holds under a substitution holds under every acyclic extension. -/
theorem Solves.equal_of_extends {θ θ₁ θ₂ : Substitution} {a b : Cell} (h : Solves θ θ₁ a b)
    (hacyc : θ₂.Acyclic) (hext : θ₂.Extends θ₁) (hnan : θ₂.NoNaN) :
    (θ₂.substitute a == θ₂.substitute b) = true := by
  rw [← substitute_substitute hacyc hext a, ← substitute_substitute hacyc hext b]
  exact substitute_beq hnan h.equal

/-- A unification step that keeps the promise of unification wherever it succeeds. -/
def SoundUnifier (f : Unifier) : Prop :=
  ∀ a b θ θ', θ.Acyclic → θ.NoNaN → a.noNaN = true → b.noNaN = true → f a b θ = .ok θ' →
    Solves θ θ' a b

/-! ### The element-wise loop -/

/-- What unifying two sequences element by element promises. -/
theorem unifyEach_sound {f : Unifier} (hf : SoundUnifier f) (mismatch : UnifyError)
    {as bs : List Cell} {θ θ' : Substitution} (hacyc : θ.Acyclic) (hnan : θ.NoNaN)
    (has : ∀ a ∈ as, a.noNaN = true) (hbs : ∀ b ∈ bs, b.noNaN = true)
    (h : unifyEach f mismatch as bs θ = .ok θ') :
    θ'.Acyclic ∧ θ'.Extends θ ∧ θ'.NoNaN ∧
      List.Forall₂ (fun a b => (θ'.substitute a == θ'.substitute b) = true) as bs := by
  induction as generalizing bs θ with
  | nil =>
    cases bs with
    | nil =>
      cases h
      exact ⟨hacyc, .refl _, hnan, .nil⟩
    | cons b bs => cases h
  | cons a as ih =>
    cases bs with
    | nil => cases h
    | cons b bs =>
      rw [unifyEach] at h
      cases hab : f a b θ with
      | error e => rw [hab] at h; cases h
      | ok θ₁ =>
        rw [hab] at h
        have hhead : Solves θ θ₁ a b :=
          hf a b θ θ₁ hacyc hnan (has a List.mem_cons_self) (hbs b List.mem_cons_self) hab
        obtain ⟨hacyc', hext, hnan', hall⟩ := ih hhead.acyclic hhead.noNaN
          (fun c hc => has c (List.mem_cons_of_mem a hc))
          (fun c hc => hbs c (List.mem_cons_of_mem b hc)) h
        -- the first equation survives the extension that the tail makes
        exact ⟨hacyc', hext.trans hhead.keeps, hnan',
          .cons (hhead.equal_of_extends hacyc' hext hnan') hall⟩

/-! ### Variables -/

/-- Unifying a variable with a term is sound if the calls it makes are. -/
theorem unifyVarBy_sound {f : Unifier} (hf : SoundUnifier f) {v : String} {term : Cell}
    {θ θ' : Substitution} (hacyc : θ.Acyclic) (hnan : θ.NoNaN) (hterm : term.noNaN = true)
    (h : unifyVarBy f v term θ = .ok θ') : Solves θ θ' (.var v) term := by
  rw [unifyVarBy] at h
  cases hv : θ.get? v with
  | some bound =>
    -- the variable stands for what it is bound to, before and after
    rw [hv] at h
    have hb := hf bound term θ θ' hacyc hnan (hnan v bound hv) hterm h
    refine ⟨hb.acyclic, hb.keeps, hb.noNaN, ?_⟩
    rw [substitute_var_bound hb.acyclic (hb.keeps v bound hv)]
    exact hb.equal
  | none =>
    rw [hv] at h
    cases ht : θ.binding? term with
    | some bound =>
      rw [ht] at h
      obtain ⟨w, rfl, hw⟩ : ∃ w, term = .var w ∧ θ.get? w = some bound := by
        cases term with
        | var w => exact ⟨w, rfl, ht⟩
        | _ => cases ht
      have hb := hf (.var v) bound θ θ' hacyc hnan (by simp [Cell.noNaN]) (hnan w bound hw) h
      refine ⟨hb.acyclic, hb.keeps, hb.noNaN, ?_⟩
      rw [substitute_var_bound hb.acyclic (hb.keeps w bound hw)]
      exact hb.equal
    | none =>
      rw [ht] at h
      cases hocc : θ.occurs v term with
      | true => simp [hocc] at h
      | false =>
        simp only [hocc, Bool.false_eq_true, if_false, Except.ok.injEq] at h
        subst h
        -- both are free, and the occurs check has ruled out a cycle through the new binding
        have hacyc' : (θ.bind v term).Acyclic := acyclic_bind hacyc hv hocc
        have hnan' : (θ.bind v term).NoNaN := noNaN_bind hnan v hterm
        refine ⟨hacyc', extends_bind hv term, hnan', ?_⟩
        rw [substitute_var_bound hacyc' (by rw [get?_bind, if_pos rfl])]
        exact Cell.beq_self (noNaN_substitute hnan' hterm)

/-! ### Any number of calls in a row -/

/-- **Unification with any bound on the calls in a row is sound.** -/
theorem soundUnifier_unifyWithin (n : Nat) : SoundUnifier (unifyWithin n) := by
  induction n with
  | zero => intro a b θ θ' _ _ _ _ h; cases h
  | succ n ih =>
    intro a b θ θ' hacyc hnan ha hb h
    unfold unifyWithin at h
    split at h
    · rename_i hab
      cases h
      exact ⟨hacyc, .refl _, hnan, substitute_beq hnan hab⟩
    · split at h
      · exact unifyVarBy_sound ih hacyc hnan hb h
      · exact (unifyVarBy_sound ih hacyc hnan ha h).symm
      · rename_i as bs
        rw [Cell.noNaN, Cell.noNaNList_iff] at ha hb
        obtain ⟨hacyc', hext, hnan', hall⟩ := unifyEach_sound ih _ hacyc hnan ha hb h
        refine ⟨hacyc', hext, hnan', ?_⟩
        rw [substitute_quotation, substitute_quotation, Cell.quotation_beq_iff,
          List.forall₂_map_left_iff, List.forall₂_map_right_iff]
        exact hall
      · -- constants: nothing is bound, and the test made is the one that is promised
        split at h
        · rename_i hab
          cases h
          exact ⟨hacyc, .refl _, hnan, hab⟩
        · cases h

theorem soundUnifier_unify : SoundUnifier unify := fun a b θ θ' =>
  soundUnifier_unifyWithin (callBound (a.size + b.size + θ.size)) a b θ θ'

/-! ### Sequences of unifications -/

/-- A sequence of unifications solves all of its equations at once. -/
theorem foldlM_unify_sound {eqs : List (Cell × Cell)} {θ θ' : Substitution} (hacyc : θ.Acyclic)
    (hnan : θ.NoNaN) (heqs : ∀ e ∈ eqs, e.1.noNaN = true ∧ e.2.noNaN = true)
    (h : eqs.foldlM (fun θ e => unify e.1 e.2 θ) θ = .ok θ') :
    θ'.Acyclic ∧ θ'.Extends θ ∧ θ'.NoNaN ∧
      ∀ e ∈ eqs, (θ'.substitute e.1 == θ'.substitute e.2) = true := by
  induction eqs generalizing θ with
  | nil =>
    cases h
    exact ⟨hacyc, .refl _, hnan, fun _ he => absurd he List.not_mem_nil⟩
  | cons e eqs ih =>
    rw [List.foldlM_cons] at h
    cases he : unify e.1 e.2 θ with
    | error err => rw [he] at h; cases h
    | ok θ₁ =>
      rw [he] at h
      obtain ⟨hleft, hright⟩ := heqs e List.mem_cons_self
      have hhead := soundUnifier_unify e.1 e.2 θ θ₁ hacyc hnan hleft hright he
      obtain ⟨hacyc', hext, hnan', hall⟩ :=
        ih hhead.acyclic hhead.noNaN (fun d hd => heqs d (List.mem_cons_of_mem e hd)) h
      refine ⟨hacyc', hext.trans hhead.keeps, hnan', fun d hd => ?_⟩
      rcases List.mem_cons.mp hd with rfl | hd
      · exact hhead.equal_of_extends hacyc' hext hnan'
      · exact hall d hd

/-- **Soundness of unification.** A successful unification leaves an acyclic substitution that keeps
every binding and makes the two cells equal; and after any sequence of successful unifications,
started on the same substitution (the empty one, say), every equation of the sequence holds. -/
theorem unify_solves_equations {θ : Substitution} (hacyc : θ.Acyclic) (hnan : θ.NoNaN) :
    (∀ a b θ', a.noNaN = true → b.noNaN = true → unify a b θ = .ok θ' →
      θ'.Acyclic ∧ (∀ v c, θ.get? v = some c → θ'.get? v = some c) ∧
        (θ'.substitute a == θ'.substitute b) = true) ∧
    (∀ (eqs : List (Cell × Cell)) θ', (∀ e ∈ eqs, e.1.noNaN = true ∧ e.2.noNaN = true) →
      eqs.foldlM (fun θ e => unify e.1 e.2 θ) θ = .ok θ' →
      ∀ e ∈ eqs, (θ'.substitute e.1 == θ'.substitute e.2) = true) := by
  constructor
  · intro a b θ' ha hb h
    have hsol := soundUnifier_unify a b θ θ' hacyc hnan ha hb h
    exact ⟨hsol.acyclic, hsol.keeps, hsol.equal⟩
  · intro eqs θ' heqs h
    exact (foldlM_unify_sound hacyc hnan heqs h).2.2.2

/-- The theorem at an alias: `'a` is bound to `'b`, so unifying `['a 1]` with `[true 'c]` binds `'b`
and leaves `'a` as it was. -/
theorem unify_solves_equations_alias :
    Acyclic [("a", .var "b")] ∧ NoNaN [("a", .var "b")] ∧
      unify (.quotation [.var "a", .int 1]) (.quotation [.bool true, .var "c"])
          [("a", .var "b")] =
        .ok [("a", .var "b"), ("b", .bool true), ("c", .int 1)] ∧
      Acyclic [("a", .var "b"), ("b", .bool true), ("c", .int 1)] ∧
      (substitute [("a", .var "b"), ("b", .bool true), ("c", .int 1)]
          (.quotation [.var "a", .int 1]) ==
        substitute [("a", .var "b"), ("b", .bool true), ("c", .int 1)]
          (.quotation [.bool true, .var "c"])) = true := by
  have hbound : ∀ v c, get? [("a", .var "b")] v = some c → v = "a" ∧ c = .var "b" := by
    intro v c h
    rw [get?_cons] at h
    split at h
    · rename_i hv
      exact ⟨hv, (Option.some.inj h).symm⟩
    · cases h
  have hacyc : Acyclic [("a", .var "b")] := by
    refine acyclic_of_rankedBy (r := fun v => if v = "a" then 1 else 0) fun v c h => ?_
    obtain ⟨rfl, rfl⟩ := hbound v c h
    refine ⟨by decide, fun w hw => ?_⟩
    rw [Cell.mentions_var.mp hw]
    decide
  have hnan : NoNaN [("a", .var "b")] := by
    intro v c h
    obtain ⟨rfl, rfl⟩ := hbound v c h
    rfl
  have hunify : unify (.quotation [.var "a", .int 1]) (.quotation [.bool true, .var "c"])
      [("a", .var "b")] = .ok [("a", .var "b"), ("b", .bool true), ("c", .int 1)] := rfl
  obtain ⟨hacyc', -, hequal⟩ := (unify_solves_equations hacyc hnan).1 _ _ _ rfl rfl hunify
  exact ⟨hacyc, hnan, hunify, hacyc', hequal⟩

end Restack
