import Mathlib.Data.Finset.Card
import Mathlib.Tactic.Ring
import Restack.Proofs.Unification

/-!
# The calls that unification makes

Unification allows itself a number of calls in a row that depends on the sizes of its
cells and bindings, and reports a cyclic substitution if that number does not suffice. On
an acyclic substitution it always suffices. Every cell that comes up is part of a cell or
of a binding given at the start, so sizes and variables stay within fixed limits. Following
a binding leads to variables of smaller rank, and between two such moves the cells only get
smaller. Bindings that are added on the way change the ranks, so all calls in a row are
measured with the ranks of the substitution in the last of them.

## Main definitions

* `Cell.Within vars size` — cells of limited size, with variables from a finite set.
* `Substitution.Consists P` — bindings between cells that satisfy `P`.
* `Affords size θ n a b` — the ranks and sizes of `a` and `b` allow for `n` calls in a row.

## Main results

* `unifyWithin_consists` — unification binds parts of what it is given.
* `affords_of_cyclic` — calls that do not suffice are afforded.
* `unifyWithin_keeps` — unification keeps bindings, and substitutions acyclic.
* `unify_suffices` — on an acyclic substitution the calls suffice.
-/

namespace Restack

open Substitution

/-! ### Sizes and variables -/

theorem Cell.size_quotation (code : List Cell) :
    (Cell.quotation code).size = Cell.sizeList code + 1 := by
  rw [Cell.size]

theorem Cell.size_pos (c : Cell) : 0 < c.size := by
  cases c <;> simp [Cell.size]

theorem Cell.size_le_sizeList {c : Cell} {cs : List Cell} (h : c ∈ cs) :
    c.size ≤ Cell.sizeList cs := by
  induction cs with
  | nil => cases h
  | cons d cs ih =>
    rw [Cell.sizeList]
    rcases List.mem_cons.mp h with rfl | h
    · exact Nat.le_add_right _ _
    · exact (ih h).trans (Nat.le_add_left _ _)

/-- A cell has no more variables than cells. -/
theorem Cell.exists_vars (c : Cell) :
    ∃ vars : Finset String, (∀ v, c.Mentions v → v ∈ vars) ∧ vars.card ≤ c.size := by
  induction c using Cell.induction_on_vars with
  | quotation code ih =>
    have hcells : ∃ vars : Finset String,
        (∀ c ∈ code, ∀ v, c.Mentions v → v ∈ vars) ∧ vars.card ≤ Cell.sizeList code := by
      induction code with
      | nil => exact ⟨∅, nofun, Nat.zero_le _⟩
      | cons c code ihcode =>
        obtain ⟨first, hfirst, hcard⟩ := ih c List.mem_cons_self
        obtain ⟨others, hothers, hcard'⟩ := ihcode fun d hd => ih d (List.mem_cons_of_mem c hd)
        refine ⟨first ∪ others, fun d hd v hv => ?_, ?_⟩
        · rcases List.mem_cons.mp hd with rfl | hd
          · exact Finset.mem_union_left _ (hfirst v hv)
          · exact Finset.mem_union_right _ (hothers d hd v hv)
        · rw [Cell.sizeList]
          exact (Finset.card_union_le _ _).trans (Nat.add_le_add hcard hcard')
    obtain ⟨vars, hvars, hcard⟩ := hcells
    refine ⟨vars, fun v hv => ?_, by rw [Cell.size_quotation]; omega⟩
    obtain ⟨c, hc, hcv⟩ := Cell.mentions_quotation.mp hv
    exact hvars c hc v hcv
  | var w =>
    refine ⟨{w}, fun v hv => ?_, by simp [Cell.size]⟩
    rw [Cell.mentions_var.mp hv]
    exact Finset.mem_singleton_self w
  | other c hq hv =>
    refine ⟨∅, fun v hm => ?_, Nat.zero_le _⟩
    cases hm with
    | var => exact absurd rfl (hv v)
    | quotation => exact absurd rfl (hq _)

namespace Substitution

theorem size_cons (v : String) (c : Cell) (θ : Substitution) :
    size ((v, c) :: θ) = c.size + 1 + size θ := rfl

/-- A substitution has no more variables than cells, and binds none to a cell larger than itself. -/
theorem exists_vars (θ : Substitution) :
    ∃ vars : Finset String, vars.card ≤ θ.size ∧
      ∀ v c, θ.get? v = some c → v ∈ vars ∧ (∀ w, c.Mentions w → w ∈ vars) ∧ c.size ≤ θ.size := by
  induction θ with
  | nil => exact ⟨∅, Nat.zero_le _, fun v c h => by simp at h⟩
  | cons e θ ih =>
    obtain ⟨u, d⟩ := e
    obtain ⟨first, hfirst, hcard⟩ := d.exists_vars
    obtain ⟨others, hcard', hothers⟩ := ih
    refine ⟨insert u (first ∪ others), ?_, fun v c hv => ?_⟩
    · have hunion := Finset.card_union_le first others
      have hinsert := Finset.card_insert_le u (first ∪ others)
      rw [size_cons]
      omega
    · rw [get?_cons] at hv
      rw [size_cons]
      split at hv
      · rename_i hvu
        cases hv
        refine ⟨Finset.mem_insert.mpr (.inl hvu), fun w hw => ?_, by omega⟩
        exact Finset.mem_insert_of_mem (Finset.mem_union_left _ (hfirst w hw))
      · obtain ⟨hmem, hmentions, hsize⟩ := hothers v c hv
        refine ⟨Finset.mem_insert_of_mem (Finset.mem_union_right _ hmem), fun w hw => ?_, by omega⟩
        exact Finset.mem_insert_of_mem (Finset.mem_union_right _ (hmentions w hw))

end Substitution

/-! ### Bindings of parts -/

/-- Every variable that is bound, and every cell that one is bound to, satisfies `P`. -/
def Substitution.Consists (P : Cell → Prop) (θ : Substitution) : Prop :=
  ∀ v c, θ.get? v = some c → P (.var v) ∧ P c

/-- What holds of a substitution and is kept by every call holds after the element-wise loop, and in
the call at which the loop fails. -/
theorem unifyEach_invariant {f : Unifier} {Inv : Substitution → Prop} {as bs : List Cell}
    (hf : ∀ a ∈ as, ∀ b ∈ bs, ∀ θ θ', Inv θ → f a b θ = .ok θ' → Inv θ') (mismatch : UnifyError)
    {θ : Substitution} (hθ : Inv θ) :
    (∀ θ', unifyEach f mismatch as bs θ = .ok θ' → Inv θ') ∧
      ∀ e, unifyEach f mismatch as bs θ = .error e →
        e = mismatch ∨ ∃ a ∈ as, ∃ b ∈ bs, ∃ θ₁, Inv θ₁ ∧ f a b θ₁ = .error e := by
  induction as generalizing bs θ with
  | nil =>
    cases bs with
    | nil => exact ⟨fun θ' h => Except.ok.inj h ▸ hθ, nofun⟩
    | cons b bs => exact ⟨nofun, fun e h => .inl (Except.error.inj h).symm⟩
  | cons a as ih =>
    cases bs with
    | nil => exact ⟨nofun, fun e h => .inl (Except.error.inj h).symm⟩
    | cons b bs =>
      rw [unifyEach]
      cases hab : f a b θ with
      | error e' =>
        constructor
        · intro θ' h
          cases h
        · intro e h
          cases h
          exact .inr ⟨a, List.mem_cons_self, b, List.mem_cons_self, θ, hθ, hab⟩
      | ok θ₁ =>
        have hθ₁ : Inv θ₁ := hf a List.mem_cons_self b List.mem_cons_self θ θ₁ hθ hab
        obtain ⟨hok, herr⟩ := @ih bs (fun c hc d hd => hf c (List.mem_cons_of_mem a hc) d
          (List.mem_cons_of_mem b hd)) θ₁ hθ₁
        refine ⟨hok, fun e h => ?_⟩
        rcases herr e h with rfl | ⟨c, hc, d, hd, hfail⟩
        · exact .inl rfl
        · exact .inr ⟨c, List.mem_cons_of_mem a hc, d, List.mem_cons_of_mem b hd, hfail⟩

/-- Unifying a variable binds it, or leads to a call on what it or the term is bound to. -/
theorem unifyVarBy_cases (f : Unifier) (v : String) (term : Cell) (θ : Substitution) :
    (∃ bound, θ.get? v = some bound ∧ unifyVarBy f v term θ = f bound term θ) ∨
      (∃ w bound, term = .var w ∧ θ.get? w = some bound ∧
        unifyVarBy f v term θ = f (.var v) bound θ) ∨
      (θ.get? v = none ∧ θ.binding? term = none ∧ θ.occurs v term = true ∧
        unifyVarBy f v term θ = .error (.occurs v term)) ∨
      (θ.get? v = none ∧ θ.occurs v term = false ∧
        unifyVarBy f v term θ = .ok (θ.bind v term)) := by
  rw [unifyVarBy]
  cases hv : θ.get? v with
  | some bound => exact .inl ⟨bound, rfl, rfl⟩
  | none =>
    cases ht : θ.binding? term with
    | some bound =>
      cases term with
      | var w => exact .inr (.inl ⟨w, bound, rfl, ht, rfl⟩)
      | _ => cases ht
    | none =>
      cases hocc : θ.occurs v term with
      | true => exact .inr (.inr (.inl ⟨rfl, rfl, rfl, rfl⟩))
      | false => exact .inr (.inr (.inr ⟨rfl, rfl, rfl⟩))

/-- Whatever the bound on the calls in a row, unification keeps every binding and leads no variable
back to itself. -/
theorem unifyWithin_keeps (n : Nat) {a b : Cell} {θ θ' : Substitution} (hacyc : θ.Acyclic)
    (h : unifyWithin n a b θ = .ok θ') : θ'.Acyclic ∧ θ'.Extends θ := by
  induction n generalizing a b θ θ' with
  | zero => cases h
  | succ n ih =>
    have hvar : ∀ {v term}, unifyVarBy (unifyWithin n) v term θ = .ok θ' →
        θ'.Acyclic ∧ θ'.Extends θ := by
      intro v term h
      rcases unifyVarBy_cases (unifyWithin n) v term θ with ⟨bound, hbound, heq⟩ |
        ⟨w, bound, rfl, hbound, heq⟩ | ⟨-, -, -, heq⟩ | ⟨hfree, hocc, heq⟩
      · exact ih hacyc (heq ▸ h)
      · exact ih hacyc (heq ▸ h)
      · rw [heq] at h; cases h
      · rw [heq] at h
        cases h
        exact ⟨acyclic_bind hacyc hfree hocc, extends_bind hfree term⟩
    unfold unifyWithin at h
    split at h
    · cases h; exact ⟨hacyc, .refl θ⟩
    · split at h
      · exact hvar h
      · exact hvar h
      · rename_i as bs _
        have hkept : ∀ c ∈ as, ∀ d ∈ bs, ∀ θ₁ θ₂, θ₁.Acyclic ∧ θ₁.Extends θ →
            unifyWithin n c d θ₁ = .ok θ₂ → θ₂.Acyclic ∧ θ₂.Extends θ := by
          intro c _ d _ θ₁ θ₂ hθ₁ h₂
          obtain ⟨hacyc₂, hext⟩ := ih hθ₁.1 h₂
          exact ⟨hacyc₂, hext.trans hθ₁.2⟩
        exact (unifyEach_invariant hkept _ ⟨hacyc, .refl θ⟩).1 θ' h
      · split at h
        · cases h; exact ⟨hacyc, .refl θ⟩
        · cases h

section Parts

variable {P : Cell → Prop}

theorem consists_bind {θ : Substitution} (hθ : θ.Consists P) {v : String} {c : Cell}
    (hv : P (.var v)) (hc : P c) : (θ.bind v c).Consists P := by
  intro w d hw
  rw [get?_bind] at hw
  split at hw
  · rename_i hwv
    cases hw
    exact ⟨hwv ▸ hv, hc⟩
  · exact hθ w d hw

/-- **Unification binds parts of what it is given**: whatever holds of the cells and bindings, and
passes from a quotation to its cells, holds of the new bindings. -/
theorem unifyWithin_consists (hparts : ∀ code, P (.quotation code) → ∀ c ∈ code, P c) (n : Nat)
    {a b : Cell} {θ θ' : Substitution} (ha : P a) (hb : P b) (hθ : θ.Consists P)
    (h : unifyWithin n a b θ = .ok θ') : θ'.Consists P := by
  induction n generalizing a b θ θ' with
  | zero => cases h
  | succ n ih =>
    have hvar : ∀ {v term}, P (.var v) → P term →
        unifyVarBy (unifyWithin n) v term θ = .ok θ' → θ'.Consists P := by
      intro v term hv ht h
      rcases unifyVarBy_cases (unifyWithin n) v term θ with ⟨bound, hbound, heq⟩ |
        ⟨w, bound, rfl, hbound, heq⟩ | ⟨-, -, -, heq⟩ | ⟨-, -, heq⟩
      · exact ih (hθ v bound hbound).2 ht hθ (heq ▸ h)
      · exact ih hv (hθ w bound hbound).2 hθ (heq ▸ h)
      · rw [heq] at h; cases h
      · rw [heq] at h
        cases h
        exact consists_bind hθ hv ht
    unfold unifyWithin at h
    split at h
    · cases h; exact hθ
    · split at h
      · exact hvar ha hb h
      · exact hvar hb ha h
      · refine (unifyEach_invariant (fun c hc d hd θ₁ θ₂ hθ₁ h₂ => ?_) _ hθ).1 θ' h
        exact ih (hparts _ ha c hc) (hparts _ hb d hd) hθ₁ h₂
      · split at h
        · cases h; exact hθ
        · cases h

end Parts

/-! ### Limits -/

/-- The cell has at most `size` cells, and its variables are among `vars`. -/
structure Cell.Within (vars : Finset String) (size : Nat) (c : Cell) : Prop where
  /-- The variables are known. -/
  mem : ∀ v, c.Mentions v → v ∈ vars
  /-- The size is limited. -/
  size_le : c.size ≤ size

variable {vars : Finset String} {size : Nat}

theorem Cell.Within.of_mem {code : List Cell} (h : (Cell.quotation code).Within vars size)
    {c : Cell} (hc : c ∈ code) : c.Within vars size where
  mem := fun v hv => h.mem v (.quotation hc hv)
  size_le := by
    have hle := Cell.size_le_sizeList hc
    have hcode := h.size_le
    rw [Cell.size_quotation] at hcode
    omega

theorem get?_of_mem_keys {θ : Substitution} {v : String} (h : v ∈ θ.map Prod.fst) :
    ∃ c, θ.get? v = some c := by
  induction θ with
  | nil => cases h
  | cons e θ ih =>
    rw [get?_cons]
    split
    · exact ⟨_, rfl⟩
    · rename_i hne
      rw [List.map_cons, List.mem_cons] at h
      exact ih (h.resolve_left hne)

/-- There are no more ranks than variables. -/
theorem rank_le_card {θ : Substitution} (hacyc : θ.Acyclic)
    (hθ : θ.Consists (Cell.Within vars size)) (v : String) : θ.rank v ≤ vars.card := by
  cases hv : θ.get? v with
  | none => rw [rank_free hv]; exact Nat.zero_le _
  | some c =>
    have hmem : ∀ {w d}, θ.get? w = some d → w ∈ vars := fun hw => (hθ _ _ hw).1.mem _ (.var _)
    rw [rank_bound hv]
    -- the bound variables ahead of `v` are among the variables, and `v` is not one of them
    refine Finset.card_lt_card ⟨fun w hw => ?_, fun hsub => ?_⟩
    · obtain ⟨d, hd⟩ := get?_of_mem_keys (mem_reached.mp hw).1
      exact hmem hd
    · exact hacyc v (mem_reached.mp (hsub (hmem hv))).2

/-! ### Calls in a row -/

/-- The ranks of the variables of `a` and `b` and the sizes of `a` and `b` allow for `n` calls in a
row: for each rank, one that follows a binding and up to `size` that go inside a quotation. -/
def Affords (size : Nat) (θ : Substitution) (n : Nat) (a b : Cell) : Prop :=
  ∀ p q, (∀ v, a.Mentions v → θ.rank v ≤ p) → (∀ v, b.Mentions v → θ.rank v ≤ q) →
    n ≤ (size + 1) * (p + q) + min a.size b.size

namespace Affords

variable {θ : Substitution} {n : Nat} {a b : Cell}

theorem symm (h : Affords size θ n a b) : Affords size θ n b a := by
  intro p q hp hq
  rw [Nat.add_comm p q, min_comm]
  exact h q p hq hp

/-- Following a binding affords one more call. -/
theorem follow (hacyc : θ.Acyclic) {v : String} {bound : Cell} (hv : θ.get? v = some bound)
    (hsize : bound.size ≤ size) (h : Affords size θ n bound b) :
    Affords size θ (n + 1) (.var v) b := by
  intro p q hp hq
  obtain ⟨hpos, hdown⟩ := rankedBy_rank hacyc v bound hv
  have hle := hp v (.var v)
  -- every rank in the binding is below the rank of `v`
  obtain ⟨k, rfl⟩ : ∃ k, p = k + 1 := ⟨p - 1, by omega⟩
  have hcalls := h k q (fun w hw => by have := hdown w hw; omega) hq
  have hmin : min bound.size b.size ≤ size := (min_le_left _ _).trans hsize
  calc n + 1 ≤ (size + 1) * (k + q) + min bound.size b.size + 1 := Nat.succ_le_succ hcalls
    _ ≤ (size + 1) * (k + q) + (size + 1) := by omega
    _ = (size + 1) * (k + 1 + q) := by ring
    _ ≤ (size + 1) * (k + 1 + q) + min (Cell.var v).size b.size := Nat.le_add_right _ _

/-- Going inside two quotations affords one more call. -/
theorem enter {as bs : List Cell} (ha : a ∈ as) (hb : b ∈ bs) (h : Affords size θ n a b) :
    Affords size θ (n + 1) (.quotation as) (.quotation bs) := by
  intro p q hp hq
  have hcalls := h p q (fun v hv => hp v (.quotation ha hv)) fun v hv => hq v (.quotation hb hv)
  have hleft := Cell.size_le_sizeList ha
  have hright := Cell.size_le_sizeList hb
  rw [Cell.size_quotation, Cell.size_quotation]
  omega

end Affords

/-- A substitution that a call in the course of a unification can be made on. -/
structure Reached (vars : Finset String) (size : Nat) (θ θ' : Substitution) : Prop where
  /-- No variable leads back to itself. -/
  acyclic : θ'.Acyclic
  /-- Cells and bindings stay within the limits. -/
  consists : θ'.Consists (Cell.Within vars size)
  /-- Earlier bindings are kept. -/
  keeps : θ'.Extends θ

/-- **Calls that do not suffice are afforded**, measured with the ranks of the substitution on which
the last of them is made. -/
theorem affords_of_cyclic (n : Nat) {a b : Cell} {θ : Substitution} (ha : a.Within vars size)
    (hb : b.Within vars size) (hacyc : θ.Acyclic) (hθ : θ.Consists (Cell.Within vars size))
    (h : unifyWithin n a b θ = .error .cyclic) :
    ∃ θ', Reached vars size θ θ' ∧ Affords size θ' n a b := by
  induction n generalizing a b θ with
  | zero => exact ⟨θ, ⟨hacyc, hθ, .refl θ⟩, fun _ _ _ _ => Nat.zero_le _⟩
  | succ n ih =>
    have hvar : ∀ {v term}, (Cell.var v).Within vars size → term.Within vars size →
        unifyVarBy (unifyWithin n) v term θ = .error .cyclic →
        ∃ θ', Reached vars size θ θ' ∧ Affords size θ' (n + 1) (.var v) term := by
      intro v term hv ht h
      rcases unifyVarBy_cases (unifyWithin n) v term θ with ⟨bound, hbound, heq⟩ |
        ⟨w, bound, rfl, hbound, heq⟩ | ⟨-, -, -, heq⟩ | ⟨-, -, heq⟩
      · have hwithin := (hθ v bound hbound).2
        obtain ⟨θ', hreach, haff⟩ := ih hwithin ht hacyc hθ (heq ▸ h)
        exact ⟨θ', hreach, haff.follow hreach.acyclic (hreach.keeps v bound hbound)
          hwithin.size_le⟩
      · have hwithin := (hθ w bound hbound).2
        obtain ⟨θ', hreach, haff⟩ := ih hv hwithin hacyc hθ (heq ▸ h)
        exact ⟨θ', hreach, (haff.symm.follow hreach.acyclic (hreach.keeps w bound hbound)
          hwithin.size_le).symm⟩
      · rw [heq] at h; cases h
      · rw [heq] at h; cases h
    unfold unifyWithin at h
    split at h
    · cases h
    · split at h
      · exact hvar ha hb h
      · obtain ⟨θ', hreach, haff⟩ := hvar hb ha h
        exact ⟨θ', hreach, haff.symm⟩
      · rename_i as bs _
        -- the loop has extended the substitution when it comes to the call that fails
        have hkept : ∀ c ∈ as, ∀ d ∈ bs, ∀ θ₁ θ₂, Reached vars size θ θ₁ →
            unifyWithin n c d θ₁ = .ok θ₂ → Reached vars size θ θ₂ := by
          intro c hc d hd θ₁ θ₂ hθ₁ h₂
          obtain ⟨hacyc₂, hext⟩ := unifyWithin_keeps n hθ₁.acyclic h₂
          exact ⟨hacyc₂, unifyWithin_consists (fun _ hq _ hm => hq.of_mem hm) n (ha.of_mem hc)
            (hb.of_mem hd) hθ₁.consists h₂, hext.trans hθ₁.keeps⟩
        rcases (unifyEach_invariant hkept _ ⟨hacyc, hθ, .refl θ⟩).2 _ h with hmis |
          ⟨c, hc, d, hd, θ₁, hθ₁, hfail⟩
        · cases hmis
        · obtain ⟨θ', hreach, haff⟩ :=
            ih (ha.of_mem hc) (hb.of_mem hd) hθ₁.acyclic hθ₁.consists hfail
          exact ⟨θ', ⟨hreach.acyclic, hreach.consists, hreach.keeps.trans hθ₁.keeps⟩,
            haff.enter hc hd⟩
      · split at h <;> cases h

/-- Cells and bindings are within the limits that their sizes set. -/
theorem exists_within (θ : Substitution) (a b : Cell) {size : Nat}
    (hsize : size = a.size + b.size + θ.size) :
    ∃ vars : Finset String, vars.card ≤ size ∧ a.Within vars size ∧ b.Within vars size ∧
      θ.Consists (Cell.Within vars size) := by
  obtain ⟨left, hleft, hleftCard⟩ := a.exists_vars
  obtain ⟨right, hright, hrightCard⟩ := b.exists_vars
  obtain ⟨others, hcard, hothers⟩ := θ.exists_vars
  have hinLeft : ∀ {v}, v ∈ left → v ∈ left ∪ right ∪ others :=
    fun hv => Finset.mem_union_left _ (Finset.mem_union_left _ hv)
  have hinRight : ∀ {v}, v ∈ right → v ∈ left ∪ right ∪ others :=
    fun hv => Finset.mem_union_left _ (Finset.mem_union_right _ hv)
  have hinOthers : ∀ {v}, v ∈ others → v ∈ left ∪ right ∪ others := Finset.mem_union_right _
  refine ⟨left ∪ right ∪ others, ?_, ⟨fun v hv => hinLeft (hleft v hv), by omega⟩,
    ⟨fun v hv => hinRight (hright v hv), by omega⟩, fun v c hv => ?_⟩
  · have hall := Finset.card_union_le (left ∪ right) others
    have hboth := Finset.card_union_le left right
    omega
  · obtain ⟨hmem, hmentions, hle⟩ := hothers v c hv
    refine ⟨⟨fun w hw => ?_, ?_⟩, fun w hw => hinOthers (hmentions w hw), by omega⟩
    · rw [Cell.mentions_var.mp hw]
      exact hinOthers hmem
    · have hpos := a.size_pos
      simp only [Cell.size]
      omega

/-- **On an acyclic substitution the calls suffice** for all cells within the limits. -/
theorem unifyWithin_callBound_ne_cyclic {θ : Substitution} (hacyc : θ.Acyclic) {a b : Cell}
    (ha : a.Within vars size) (hb : b.Within vars size) (hθ : θ.Consists (Cell.Within vars size))
    (hcard : vars.card ≤ size) : unifyWithin (callBound size) a b θ ≠ .error .cyclic := by
  intro h
  obtain ⟨θ', hreach, haff⟩ := affords_of_cyclic (callBound size) ha hb hacyc hθ h
  -- no rank exceeds the size, which is less than the calls allow for
  have hrank := fun v => (rank_le_card hreach.acyclic hreach.consists v).trans hcard
  have hcalls := haff size size (fun v _ => hrank v) fun v _ => hrank v
  have hmin : min a.size b.size ≤ size := (min_le_left _ _).trans ha.size_le
  have hbound : callBound size = (size + 1) * (size + size) + 2 * (size + 1) := by
    rw [callBound]
    ring
  omega

/-- The calls of a unification suffice. -/
theorem unify_suffices {θ : Substitution} (hacyc : θ.Acyclic) (a b : Cell) :
    unify a b θ ≠ .error .cyclic := by
  obtain ⟨vars, hcard, ha, hb, hθ⟩ := exists_within θ a b rfl
  exact unifyWithin_callBound_ne_cyclic hacyc ha hb hθ hcard

/-- So do those of the unification of a variable with a term. -/
theorem unifyVar_suffices {θ : Substitution} (hacyc : θ.Acyclic) (v : String) (term : Cell) :
    unifyVar v term θ ≠ .error .cyclic := by
  obtain ⟨vars, hcard, hv, hterm, hθ⟩ := exists_within θ (.var v) term rfl
  rw [unifyVar]
  rcases unifyVarBy_cases (unifyWithin (callBound (1 + term.size + θ.size))) v term θ with
    ⟨bound, hbound, heq⟩ | ⟨w, bound, rfl, hbound, heq⟩ | ⟨-, -, -, heq⟩ | ⟨-, -, heq⟩
  · rw [heq]
    exact unifyWithin_callBound_ne_cyclic hacyc (hθ v bound hbound).2 hterm hθ hcard
  · rw [heq]
    exact unifyWithin_callBound_ne_cyclic hacyc hv (hθ w bound hbound).2 hθ hcard
  · rw [heq]; nofun
  · rw [heq]; nofun

/-- In particular the calls suffice for cells without a NaN, which solutions are sought for. -/
theorem unify_ne_cyclic {θ : Substitution} (hacyc : θ.Acyclic) :
    θ.NoNaN → ∀ {a b : Cell}, a.noNaN = true → b.noNaN = true → unify a b θ ≠ .error .cyclic :=
  fun _ a b _ _ => unify_suffices hacyc a b

end Restack
