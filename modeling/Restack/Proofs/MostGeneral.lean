import Restack.Proofs.CallBound

/-!
# Unification finds the most general solution

A substitution that makes two cells equal, and agrees with the bindings there are, also
agrees with every binding that unification adds. So unification never has to give up where
such a solution exists: two quotations with a solution are equally long, two constants with
a solution are equal, and a variable is never equal to a quotation in which it occurs,
because the one would have to be as large as the other.

## Main definitions

* `Substitution.Satisfies σ θ` — under `σ`, every variable that `θ` binds is equal to what
  it is bound to.
* `Agrees σ r` — the outcome `r` of a unification is one that `σ` satisfies.

## Main results

* `not_equal_of_occurs` — the occurs check rejects no equation that has a solution.
* `unifyWithin_agrees` — every solution satisfies the outcome.
* `unify_most_general` — unification succeeds whenever there is a solution, and every
  solution satisfies what it returns.
-/

namespace Restack

open Substitution

/-! ### Equal cells are equally large -/

/-- Only a quotation is equal to a quotation. -/
theorem Cell.eq_quotation_of_beq {as : List Cell} {b : Cell} (h : (Cell.quotation as == b) = true) :
    ∃ bs, b = .quotation bs := by
  cases b with
  | quotation bs => exact ⟨bs, rfl⟩
  | _ => exact absurd h (by simp [BEq.beq, Cell.beq])

theorem Cell.size_eq_one {c : Cell} (h : ∀ code, c ≠ .quotation code) : c.size = 1 := by
  cases c with
  | quotation code => exact absurd rfl (h code)
  | _ => rw [Cell.size]; simp

theorem Cell.sizeList_eq_of_forall₂ {as bs : List Cell}
    (h : List.Forall₂ (fun a b => a.size = b.size) as bs) :
    Cell.sizeList as = Cell.sizeList bs := by
  induction h with
  | nil => rfl
  | cons hab _ ih => rw [Cell.sizeList, Cell.sizeList, hab, ih]

/-- **Equal cells are equally large.** -/
theorem Cell.size_eq_of_beq {a b : Cell} (h : (a == b) = true) : a.size = b.size := by
  induction a using Cell.induction_on_vars generalizing b with
  | quotation as ih =>
    obtain ⟨bs, rfl⟩ := Cell.eq_quotation_of_beq h
    rw [Cell.size_quotation, Cell.size_quotation]
    rw [Cell.quotation_beq_iff] at h
    have hsizes := (List.forall₂_and_left _ _).mpr ⟨fun a ha b => @ih a ha b, h⟩
    rw [Cell.sizeList_eq_of_forall₂ (hsizes.imp fun a b hab => hab.1 b hab.2)]
  | var v =>
    cases b with
    | var w => simp [Cell.size]
    | _ => exact absurd h (by simp [BEq.beq, Cell.beq])
  | other a hq hv =>
    rw [Cell.size_eq_one hq, Cell.size_eq_one]
    rintro bs rfl
    obtain ⟨as, rfl⟩ := Cell.eq_quotation_of_beq (Cell.beq_symm h)
    exact hq as rfl

/-- Only a variable or a quotation can stand for a quotation. -/
theorem eq_quotation_of_substitute {σ : Substitution} {c : Cell} (hv : ∀ v, c ≠ .var v)
    {code : List Cell} (h : σ.substitute c = .quotation code) : ∃ cs, c = .quotation cs := by
  by_contra hq
  rw [substitute_other σ (fun cs hcs => hq ⟨cs, hcs⟩) hv] at h
  exact hq ⟨code, h⟩

/-- What a variable stands for is no larger than what a cell with that variable stands for. -/
theorem size_substitute_le (σ : Substitution) {c : Cell} {v : String} (h : c.Mentions v) :
    (σ.substitute (.var v)).size ≤ (σ.substitute c).size := by
  induction h with
  | var v => exact le_rfl
  | @quotation code c v hc _ ih =>
    have hle := Cell.size_le_sizeList (List.mem_map_of_mem (f := σ.substitute) hc)
    rw [substitute_quotation, Cell.size_quotation]
    omega

/-! ### Solutions -/

/-- Every variable that `θ` binds is equal, under `σ`, to what it is bound to. -/
def Substitution.Satisfies (σ θ : Substitution) : Prop :=
  ∀ v c, θ.get? v = some c → (σ.substitute (.var v) == σ.substitute c) = true

/-- What is ahead along the bindings stands for something no larger. -/
theorem size_substitute_le_of_leads {σ θ : Substitution} (hσ : σ.Satisfies θ) {v w : String}
    (h : Relation.ReflTransGen θ.Leads w v) :
    (σ.substitute (.var v)).size ≤ (σ.substitute (.var w)).size := by
  induction h using Relation.ReflTransGen.head_induction_on with
  | refl => exact le_rfl
  | head hlead _ ih =>
    obtain ⟨c, hc, hmentions⟩ := hlead
    rw [Cell.size_eq_of_beq (hσ _ c hc)]
    exact ih.trans (size_substitute_le σ hmentions)

/-- What the occurs check finds, a variable of the term leads to. -/
theorem exists_leads_of_occursWithin {θ : Substitution} {var : String} (n : Nat) {term : Cell}
    (h : θ.occursWithin var n term = true) :
    ∃ w, term.Mentions w ∧ Relation.ReflTransGen θ.Leads w var := by
  induction n generalizing term with
  | zero =>
    rw [occursWithin, Cell.anyVar_iff] at h
    obtain ⟨w, hw, hvar⟩ := h
    exact ⟨w, hw, by rw [beq_iff_eq.mp hvar]⟩
  | succ n ih =>
    rw [occursWithin, Cell.anyVar_iff] at h
    obtain ⟨w, hw, hvar⟩ := h
    refine ⟨w, hw, ?_⟩
    rcases Bool.or_eq_true_iff.mp hvar with hvar | hvar
    · rw [beq_iff_eq.mp hvar]
    · cases hc : θ.get? w with
      | none => rw [hc] at hvar; cases hvar
      | some c =>
        rw [hc] at hvar
        obtain ⟨u, hu, hlead⟩ := ih hvar
        exact .head ⟨c, hc, hu⟩ hlead

/-- **The occurs check rejects no equation that has a solution.** -/
theorem not_equal_of_occurs {σ θ : Substitution} (hσ : σ.Satisfies θ) {v : String} {term : Cell}
    (hne : (Cell.var v == term) = false) (hfree : θ.binding? term = none)
    (hocc : θ.occurs v term = true) : (σ.substitute (.var v) == σ.substitute term) = false := by
  obtain ⟨w, hw, hlead⟩ := exists_leads_of_occursWithin _ hocc
  cases hw with
  | var =>
    -- a free variable leads nowhere but to itself, and is not `v`
    rcases hlead.cases_head with rfl | ⟨u, ⟨c, hc, -⟩, -⟩
    · simp [BEq.beq, Cell.beq] at hne
    · rw [binding?, hc] at hfree
      cases hfree
  | @quotation code c _ hc hcw =>
    -- a quotation is larger than anything its cells lead to
    refine Bool.eq_false_iff.mpr fun hequal => ?_
    have hsize := Cell.size_eq_of_beq hequal
    have hcell := (size_substitute_le_of_leads hσ hlead).trans (size_substitute_le σ hcw)
    have hlist := Cell.size_le_sizeList (List.mem_map_of_mem (f := σ.substitute) hc)
    rw [substitute_quotation, Cell.size_quotation] at hsize
    omega

/-! ### Every solution satisfies the outcome -/

/-- A unification that succeeds has an outcome that `σ` satisfies, and one that fails has run out of
calls. -/
def Agrees (σ : Substitution) : Except UnifyError Substitution → Prop
  | .ok θ => σ.Satisfies θ
  | .error e => e = .cyclic

/-- A unification step that agrees with every solution of its equation. -/
def AgreeingUnifier (σ : Substitution) (f : Unifier) : Prop :=
  ∀ a b θ, σ.Satisfies θ → (σ.substitute a == σ.substitute b) = true → Agrees σ (f a b θ)

section Solution

variable {σ θ : Substitution} {f : Unifier}

theorem satisfies_bind (hσ : σ.Satisfies θ) {v : String} {c : Cell}
    (h : (σ.substitute (.var v) == σ.substitute c) = true) : σ.Satisfies (θ.bind v c) := by
  intro w d hw
  rw [get?_bind] at hw
  split at hw
  · rename_i hwv
    cases hw
    rwa [hwv]
  · exact hσ w d hw

/-- Two sequences with a solution are equally long, and are unified element by element. -/
theorem unifyEach_agrees (hf : AgreeingUnifier σ f) (mismatch : UnifyError) {as bs : List Cell}
    (hσ : σ.Satisfies θ)
    (h : List.Forall₂ (fun a b => (σ.substitute a == σ.substitute b) = true) as bs) :
    Agrees σ (unifyEach f mismatch as bs θ) := by
  induction h generalizing θ with
  | nil => exact hσ
  | @cons a b as bs hab _ ih =>
    have hhead := hf a b θ hσ hab
    rw [unifyEach]
    cases hr : f a b θ with
    | error e => rw [hr] at hhead; exact hhead
    | ok θ₁ => rw [hr] at hhead; exact ih hhead

/-- A variable and a term that differ, and have a solution, are unified. -/
theorem unifyVarBy_agrees (hf : AgreeingUnifier σ f) {v : String} {term : Cell}
    (hσ : σ.Satisfies θ) (hne : (Cell.var v == term) = false)
    (h : (σ.substitute (.var v) == σ.substitute term) = true) :
    Agrees σ (unifyVarBy f v term θ) := by
  rcases unifyVarBy_cases f v term θ with ⟨bound, hbound, heq⟩ | ⟨w, bound, rfl, hbound, heq⟩ |
    ⟨-, hfree, hocc, heq⟩ | ⟨-, -, heq⟩
  · rw [heq]
    exact hf bound term θ hσ (Cell.beq_trans (Cell.beq_symm (hσ v bound hbound)) h)
  · rw [heq]
    exact hf (.var v) bound θ hσ (Cell.beq_trans h (hσ w bound hbound))
  · rw [not_equal_of_occurs hσ hne hfree hocc] at h
    cases h
  · rw [heq]
    exact satisfies_bind hσ h

/-- **Every solution satisfies the outcome**, whatever the bound on the calls in a row. -/
theorem unifyWithin_agrees (n : Nat) : AgreeingUnifier σ (unifyWithin n) := by
  induction n with
  | zero => intro a b θ _ _; rfl
  | succ n ih =>
    intro a b θ hσ h
    unfold unifyWithin
    split
    · exact hσ
    · rename_i hne
      split
      · exact unifyVarBy_agrees ih hσ (by simpa using hne) h
      · rename_i v _ _
        refine unifyVarBy_agrees ih hσ (Bool.eq_false_iff.mpr fun heq => hne ?_) (Cell.beq_symm h)
        exact Cell.beq_symm heq
      · rw [substitute_quotation, substitute_quotation, Cell.quotation_beq_iff,
          List.forall₂_map_left_iff, List.forall₂_map_right_iff] at h
        exact unifyEach_agrees ih _ hσ h
      · rename_i hva hvb hqq
        -- neither is a variable, and not both are quotations: no solution changes anything
        have hleft : ∀ as, a ≠ .quotation as := by
          rintro as rfl
          rw [substitute_quotation] at h
          obtain ⟨cs, hcs⟩ := Cell.eq_quotation_of_beq h
          obtain ⟨bs, rfl⟩ := eq_quotation_of_substitute hvb hcs
          exact hqq as bs rfl rfl
        have hright : ∀ bs, b ≠ .quotation bs := by
          rintro bs rfl
          rw [substitute_quotation] at h
          obtain ⟨cs, hcs⟩ := Cell.eq_quotation_of_beq (Cell.beq_symm h)
          obtain ⟨as, rfl⟩ := eq_quotation_of_substitute hva hcs
          exact hleft as rfl
        rw [substitute_other σ hleft hva, substitute_other σ hright hvb] at h
        exact absurd h hne

/-- Where there is a solution, unification succeeds, and the solution satisfies the outcome. -/
theorem unify_of_solution (hacyc : θ.Acyclic) (hnan : θ.NoNaN) {a b : Cell} (ha : a.noNaN = true)
    (hb : b.noNaN = true) (hσ : σ.Satisfies θ)
    (h : (σ.substitute a == σ.substitute b) = true) :
    ∃ θ', unify a b θ = .ok θ' ∧ σ.Satisfies θ' := by
  have hagrees : Agrees σ (unify a b θ) := unifyWithin_agrees _ a b θ hσ h
  cases hr : unify a b θ with
  | ok θ' => rw [hr] at hagrees; exact ⟨θ', rfl, hagrees⟩
  | error e =>
    rw [hr] at hagrees
    exact absurd (hagrees ▸ hr) (unify_ne_cyclic hacyc hnan ha hb)

end Solution

/-- **Unification is complete, and finds the most general solution.** Over an acyclic substitution,
unification succeeds for every two cells that some solution makes equal, and that solution satisfies
every binding of the outcome. So it fails only where there is no solution, and never for want of
calls. -/
theorem unify_most_general {θ : Substitution} (hacyc : θ.Acyclic) (hnan : θ.NoNaN) {a b : Cell}
    (ha : a.noNaN = true) (hb : b.noNaN = true) :
    (∀ σ : Substitution, σ.Acyclic → σ.NoNaN → σ.Satisfies θ →
      (σ.substitute a == σ.substitute b) = true →
        ∃ θ', unify a b θ = .ok θ' ∧ σ.Satisfies θ') ∧
    ∀ e, unify a b θ = .error e → e ≠ .cyclic ∧
      ∀ σ : Substitution, σ.Acyclic → σ.NoNaN → σ.Satisfies θ →
        (σ.substitute a == σ.substitute b) = false := by
  refine ⟨fun σ _ _ hσ h => unify_of_solution hacyc hnan ha hb hσ h, fun e he => ⟨?_, ?_⟩⟩
  · rintro rfl
    exact unify_ne_cyclic hacyc hnan ha hb he
  · intro σ _ _ hσ
    refine Bool.eq_false_iff.mpr fun h => ?_
    obtain ⟨θ', hok, -⟩ := unify_of_solution hacyc hnan ha hb hσ h
    rw [he] at hok
    cases hok

/-- The theorem over `'a` bound to `'b`. A solution of `['a 1]` and `[true 'c]` that binds `'a`
directly satisfies the outcome, in which `'a` still stands for `'b`; and `'a` and `['b]` have no
solution. -/
theorem unify_most_general_alias :
    (∃ θ', unify (.quotation [.var "a", .int 1]) (.quotation [.bool true, .var "c"])
        [("a", .var "b")] = .ok θ' ∧
      Satisfies [("a", .bool true), ("b", .bool true), ("c", .int 1)] θ') ∧
    ∀ σ : Substitution, σ.Acyclic → σ.NoNaN → σ.Satisfies [("a", .var "b")] →
      (σ.substitute (.var "a") == σ.substitute (.quotation [.var "b"])) = false := by
  have hacyc : Acyclic [("a", .var "b")] := acyclic_bind acyclic_nil rfl rfl
  have hnan : NoNaN [("a", .var "b")] := noNaN_bind noNaN_nil "a" rfl
  constructor
  · have hsolution : Acyclic [("a", .bool true), ("b", .bool true), ("c", .int 1)] := by
      have hfirst : Acyclic [("a", .bool true)] := acyclic_bind acyclic_nil rfl rfl
      have hsecond : (Substitution.bind [("a", .bool true)] "b" (.bool true)).Acyclic :=
        acyclic_bind hfirst rfl rfl
      have hthird : ((Substitution.bind [("a", .bool true)] "b" (.bool true)).bind "c"
          (.int 1)).Acyclic := acyclic_bind hsecond rfl rfl
      exact hthird
    have hplain : NoNaN [("a", .bool true), ("b", .bool true), ("c", .int 1)] :=
      noNaN_bind (noNaN_bind (noNaN_bind noNaN_nil "a" rfl) "b" rfl) "c" rfl
    have hsatisfies : Satisfies [("a", .bool true), ("b", .bool true), ("c", .int 1)]
        [("a", .var "b")] := by
      intro v c h
      rw [get?_cons] at h
      split at h
      · rename_i hv
        cases h
        subst hv
        rfl
      · cases h
    exact (unify_most_general hacyc hnan rfl rfl).1 _ hsolution hplain hsatisfies rfl
  · have hfails : unify (.var "a") (.quotation [.var "b"]) [("a", .var "b")] =
        .error (.occurs "b" (.quotation [.var "b"])) := rfl
    exact ((unify_most_general hacyc hnan rfl rfl).2 _ hfails).2

end Restack
