import Mathlib.Data.Finset.Card
import Mathlib.Data.Finset.Max
import Mathlib.Logic.Relation
import Restack.Proofs.Equality
import Restack.Unification

/-!
# Acyclic substitutions

A substitution is acyclic when no variable leads back to itself through bindings and
nested quotations. Along the bindings of an acyclic substitution a rank goes down, and
that rank is below the number of bindings, so following as many bindings as there are
follows all of them: `substitute` and `occurs`, which follow a bounded number, then
obey the equations one would write without a bound.

## Main definitions

* `Cell.Mentions c v` — the variable `v` stands in `c`, inside quotations too.
* `Substitution.Leads θ v w` — the binding of `v` mentions `w`.
* `Substitution.Acyclic`, `Substitution.Extends`.

## Main results

* `Substitution.acyclic_iff_ranked` — acyclic means that a rank goes down.
* `Substitution.substitute_eq` — the equation of `substitute` without a bound.
* `Substitution.substitute_substitute` — an earlier substitution is absorbed by any
  extension of it.
* `Substitution.acyclic_bind` — binding a variable that does not occur keeps
  acyclicity.
-/

namespace Restack

/-! ### Cells and the variables in them -/

/-- To prove a fact of every cell, prove it of quotations whose cells have it, of variables, and of
all other cells. -/
theorem Cell.induction_on_vars {motive : Cell → Prop}
    (quotation : ∀ code, (∀ c ∈ code, motive c) → motive (.quotation code))
    (var : ∀ v, motive (.var v))
    (other : ∀ c, (∀ code, c ≠ .quotation code) → (∀ v, c ≠ .var v) → motive c) : ∀ c, motive c
  | .quotation code => quotation code fun c _ => Cell.induction_on_vars quotation var other c
  | .var v => var v
  | .int _ => other _ nofun nofun
  | .float _ => other _ nofun nofun
  | .double _ => other _ nofun nofun
  | .bool _ => other _ nofun nofun
  | .text _ => other _ nofun nofun
  | .symbol _ => other _ nofun nofun
  | .instruction _ => other _ nofun nofun
  | .continuation _ => other _ nofun nofun
  | .defer _ _ => other _ nofun nofun
  | .dummy _ => other _ nofun nofun
  | .type _ => other _ nofun nofun
  | .bindings _ => other _ nofun nofun
  | .residual _ => other _ nofun nofun

/-- The variable `v` stands in the cell, inside quotations too. -/
inductive Cell.Mentions : Cell → String → Prop
  /-- A variable mentions itself. -/
  | var (v : String) : Cell.Mentions (.var v) v
  /-- A quotation mentions what its cells mention. -/
  | quotation {code : List Cell} {c : Cell} {v : String} (hc : c ∈ code) (hv : Cell.Mentions c v) :
      Cell.Mentions (.quotation code) v

@[simp] theorem Cell.mentions_var {v w : String} : (Cell.var v).Mentions w ↔ w = v := by
  constructor
  · rintro ⟨⟩; rfl
  · rintro rfl; exact .var w

@[simp] theorem Cell.mentions_quotation {code : List Cell} {v : String} :
    (Cell.quotation code).Mentions v ↔ ∃ c ∈ code, c.Mentions v := by
  constructor
  · rintro (_ | ⟨hc, hv⟩); exact ⟨_, hc, hv⟩
  · rintro ⟨c, hc, hv⟩; exact .quotation hc hv

@[simp] theorem Cell.mapVars_var (f : String → Cell) (v : String) :
    (Cell.var v).mapVars f = f v := by rw [Cell.mapVars]

@[simp] theorem Cell.mapVars_quotation (f : String → Cell) (code : List Cell) :
    (Cell.quotation code).mapVars f = .quotation (code.map (Cell.mapVars f)) := by
  rw [Cell.mapVars, Cell.mapVarsList_eq_map]

/-- A cell that is neither a variable nor a quotation is left as it is. -/
theorem Cell.mapVars_other (f : String → Cell) {c : Cell} (hq : ∀ code, c ≠ .quotation code)
    (hv : ∀ v, c ≠ .var v) : c.mapVars f = c := by
  cases c with
  | quotation code => exact absurd rfl (hq code)
  | var v => exact absurd rfl (hv v)
  | _ => rw [Cell.mapVars] <;> simp

theorem Cell.mapVars_congr {f g : String → Cell} (c : Cell)
    (h : ∀ v, c.Mentions v → f v = g v) : c.mapVars f = c.mapVars g := by
  induction c using Cell.induction_on_vars with
  | quotation code ih =>
    rw [Cell.mapVars_quotation, Cell.mapVars_quotation]
    refine congrArg _ (List.map_congr_left fun c hc => ?_)
    exact ih c hc fun v hv => h v (.quotation hc hv)
  | var v => rw [Cell.mapVars_var, Cell.mapVars_var, h v (.var v)]
  | other c hq hv => rw [Cell.mapVars_other f hq hv, Cell.mapVars_other g hq hv]

/-- Two replacements one after the other are one replacement. -/
theorem Cell.mapVars_mapVars (f g : String → Cell) (c : Cell) :
    (c.mapVars f).mapVars g = c.mapVars fun v => (f v).mapVars g := by
  induction c using Cell.induction_on_vars with
  | quotation code ih =>
    simp only [Cell.mapVars_quotation, List.map_map]
    exact congrArg _ (List.map_congr_left fun c hc => ih c hc)
  | var v => simp only [Cell.mapVars_var]
  | other c hq hv =>
    rw [Cell.mapVars_other f hq hv, Cell.mapVars_other g hq hv, Cell.mapVars_other _ hq hv]

/-- Replacing every variable by itself changes nothing. -/
theorem Cell.mapVars_self (c : Cell) : c.mapVars Cell.var = c := by
  induction c using Cell.induction_on_vars with
  | quotation code ih => rw [Cell.mapVars_quotation, List.map_congr_left ih, List.map_id']
  | var v => rw [Cell.mapVars_var]
  | other c hq hv => exact Cell.mapVars_other _ hq hv

/-- A variable of a cell satisfies `p` exactly when the cell mentions one that does. -/
theorem Cell.anyVar_iff {p : String → Bool} (c : Cell) :
    c.anyVar p = true ↔ ∃ v, c.Mentions v ∧ p v = true := by
  induction c using Cell.induction_on_vars with
  | quotation code ih =>
    rw [Cell.anyVar, Cell.anyVarList_eq_any, List.any_eq_true]
    constructor
    · rintro ⟨c, hc, hp⟩
      obtain ⟨v, hv, hpv⟩ := (ih c hc).mp hp
      exact ⟨v, .quotation hc hv, hpv⟩
    · rintro ⟨v, hv, hpv⟩
      obtain ⟨c, hc, hcv⟩ := Cell.mentions_quotation.mp hv
      exact ⟨c, hc, (ih c hc).mpr ⟨v, hcv, hpv⟩⟩
  | var w =>
    rw [Cell.anyVar]
    constructor
    · intro hw; exact ⟨w, .var w, hw⟩
    · rintro ⟨v, hv, hpv⟩
      rw [Cell.mentions_var.mp hv] at hpv
      exact hpv
  | other c hq hv =>
    cases c with
    | quotation code => exact absurd rfl (hq code)
    | var w => exact absurd rfl (hv w)
    | _ => exact ⟨fun h => absurd h (by simp [Cell.anyVar]), fun ⟨_, h, _⟩ => nomatch h⟩

/-! ### Replacing variables and equality -/

/-- Replacing variables by cells without a NaN keeps cells equal. -/
theorem Cell.mapVars_beq {f : String → Cell} (hf : ∀ v, (f v).noNaN = true) {a b : Cell}
    (hab : (a == b) = true) : (a.mapVars f == b.mapVars f) = true := by
  induction a using Cell.induction_on_vars generalizing b with
  | quotation as ih =>
    cases b with
    | quotation bs =>
      rw [Cell.quotation_beq_iff] at hab
      rw [Cell.mapVars_quotation, Cell.mapVars_quotation, Cell.quotation_beq_iff,
        List.forall₂_map_left_iff, List.forall₂_map_right_iff]
      refine ((List.forall₂_and_left _ _).mpr ⟨fun a ha b => @ih a ha b, hab⟩).imp ?_
      rintro a b ⟨hih, hab⟩
      exact hih b hab
    | _ => exact absurd hab (by simp [BEq.beq, Cell.beq])
  | var v =>
    cases b with
    | var w =>
      have hvw : v = w := by simpa [BEq.beq, Cell.beq] using hab
      rw [Cell.mapVars_var, Cell.mapVars_var, hvw]
      exact Cell.beq_self (hf w)
    | _ => exact absurd hab (by simp [BEq.beq, Cell.beq])
  | other a hq hv =>
    -- equal cells have the same form, so neither side has a variable to replace
    have hqb : ∀ code, b ≠ .quotation code := by
      rintro code rfl
      cases a with
      | quotation as => exact absurd rfl (hq as)
      | _ => exact absurd hab (by simp [BEq.beq, Cell.beq])
    have hvb : ∀ v, b ≠ .var v := by
      rintro v rfl
      cases a with
      | var w => exact absurd rfl (hv w)
      | _ => exact absurd hab (by simp [BEq.beq, Cell.beq])
    rwa [Cell.mapVars_other f hq hv, Cell.mapVars_other f hqb hvb]

/-- Replacing variables by cells without a NaN brings no NaN in. -/
theorem Cell.noNaN_mapVars {f : String → Cell} (hf : ∀ v, (f v).noNaN = true) {c : Cell}
    (hc : c.noNaN = true) : (c.mapVars f).noNaN = true := by
  induction c using Cell.induction_on_vars with
  | quotation code ih =>
    rw [Cell.noNaN, Cell.noNaNList_iff] at hc
    rw [Cell.mapVars_quotation, Cell.noNaN, Cell.noNaNList_iff]
    rintro d hd
    obtain ⟨c, hcm, rfl⟩ := List.mem_map.mp hd
    exact ih c hcm (hc c hcm)
  | var v => rw [Cell.mapVars_var]; exact hf v
  | other c hq hv => rwa [Cell.mapVars_other f hq hv]

namespace Substitution

/-! ### Acyclicity and ranks -/

/-- The binding of `v` mentions `w`. -/
def Leads (θ : Substitution) (v w : String) : Prop := ∃ c, θ.get? v = some c ∧ c.Mentions w

/-- No variable leads back to itself. -/
def Acyclic (θ : Substitution) : Prop := ∀ v, ¬ Relation.TransGen θ.Leads v v

/-- `θ'` keeps every binding of `θ`. -/
def Extends (θ' θ : Substitution) : Prop := ∀ v c, θ.get? v = some c → θ'.get? v = some c

/-- No float that a substitution binds a variable to is a NaN. -/
def NoNaN (θ : Substitution) : Prop := ∀ v c, θ.get? v = some c → c.noNaN = true

/-- A rank that is positive at bound variables and goes down along bindings. -/
def RankedBy (θ : Substitution) (r : String → Nat) : Prop :=
  ∀ v c, θ.get? v = some c → 0 < r v ∧ ∀ w, c.Mentions w → r w < r v

theorem Extends.refl (θ : Substitution) : θ.Extends θ := fun _ _ h => h

theorem Extends.trans {θ₁ θ₂ θ₃ : Substitution} (h₃ : θ₃.Extends θ₂) (h₂ : θ₂.Extends θ₁) :
    θ₃.Extends θ₁ := fun v c h => h₃ v c (h₂ v c h)

theorem acyclic_of_rankedBy {θ : Substitution} {r : String → Nat} (hr : θ.RankedBy r) :
    θ.Acyclic := by
  have hdown : ∀ v w, Relation.TransGen θ.Leads v w → r w < r v := by
    intro v w h
    induction h with
    | single h =>
      obtain ⟨c, hc, hw⟩ := h
      exact (hr _ _ hc).2 _ hw
    | tail _ h ih =>
      obtain ⟨c, hc, hw⟩ := h
      exact ((hr _ _ hc).2 _ hw).trans ih
  intro v hv
  exact lt_irrefl _ (hdown v v hv)

@[simp] theorem get?_nil (v : String) : get? [] v = none := rfl

theorem get?_cons (w : String) (d : Cell) (θ : Substitution) (v : String) :
    get? ((w, d) :: θ) v = if v = w then some d else θ.get? v := by
  rw [get?, List.lookup_cons]
  by_cases hvw : v = w
  · rw [if_pos hvw, beq_iff_eq.mpr hvw]
  · rw [if_neg hvw, beq_eq_false_iff_ne.mpr hvw]; rfl

theorem mem_keys_of_get? {θ : Substitution} {v : String} {c : Cell} (h : θ.get? v = some c) :
    v ∈ θ.map Prod.fst := by
  induction θ with
  | nil => exact absurd h (by simp)
  | cons e θ ih =>
    rw [get?_cons] at h
    by_cases hve : v = e.1
    · rw [hve]; exact List.mem_cons_self
    · rw [if_neg hve] at h
      exact List.mem_cons_of_mem _ (ih h)

open Classical in
/-- The bound variables that a variable leads to. -/
noncomputable def reached (θ : Substitution) (v : String) : Finset String :=
  (θ.map Prod.fst).toFinset.filter fun w => Relation.TransGen θ.Leads v w

theorem mem_reached {θ : Substitution} {v w : String} :
    w ∈ θ.reached v ↔ w ∈ θ.map Prod.fst ∧ Relation.TransGen θ.Leads v w := by
  simp only [reached, Finset.mem_filter, List.mem_toFinset]

/-- The number of bound variables ahead goes down along a binding. -/
theorem card_reached_lt {θ : Substitution} (hθ : θ.Acyclic) {v w : String} {d : Cell}
    (hvw : θ.Leads v w) (hw : θ.get? w = some d) : (θ.reached w).card < (θ.reached v).card := by
  have hmem : w ∈ θ.reached v := mem_reached.mpr ⟨mem_keys_of_get? hw, .single hvw⟩
  -- `w` is ahead of `v`, and not ahead of itself
  have hnot : w ∉ θ.reached w := fun h => hθ w (mem_reached.mp h).2
  refine Finset.card_lt_card ⟨fun u hu => ?_, fun h => hnot (h hmem)⟩
  obtain ⟨hu, hwu⟩ := mem_reached.mp hu
  exact mem_reached.mpr ⟨hu, .head hvw hwu⟩

/-- Not every bound variable is ahead of a bound variable: it is not ahead of itself. -/
theorem card_reached_lt_length {θ : Substitution} (hθ : θ.Acyclic) {v : String} {c : Cell}
    (hv : θ.get? v = some c) : (θ.reached v).card < θ.length := by
  have hlt : (θ.reached v).card < (θ.map Prod.fst).toFinset.card := by
    refine Finset.card_lt_card ⟨fun u hu => ?_, fun h => ?_⟩
    · exact List.mem_toFinset.mpr (mem_reached.mp hu).1
    · exact hθ v (mem_reached.mp (h (List.mem_toFinset.mpr (mem_keys_of_get? hv)))).2
  have hle := List.toFinset_card_le (θ.map Prod.fst)
  rw [List.length_map] at hle
  exact hlt.trans_le hle

/-- The rank of a variable: at a bound one, one more than the number of bound variables ahead. -/
noncomputable def rank (θ : Substitution) (v : String) : Nat :=
  match θ.get? v with
  | some _ => (θ.reached v).card + 1
  | none => 0

theorem rank_bound {θ : Substitution} {v : String} {c : Cell} (hv : θ.get? v = some c) :
    θ.rank v = (θ.reached v).card + 1 := by rw [rank, hv]

theorem rank_free {θ : Substitution} {v : String} (hv : θ.get? v = none) : θ.rank v = 0 := by
  rw [rank, hv]

theorem rankedBy_rank {θ : Substitution} (hθ : θ.Acyclic) : θ.RankedBy θ.rank := by
  intro v c hv
  rw [rank_bound hv]
  refine ⟨Nat.succ_pos _, fun w hw => ?_⟩
  cases hd : θ.get? w with
  | none => rw [rank_free hd]; exact Nat.succ_pos _
  | some d =>
    rw [rank_bound hd]
    exact Nat.succ_lt_succ (card_reached_lt hθ ⟨c, hv, hw⟩ hd)

theorem rank_le_length {θ : Substitution} (hθ : θ.Acyclic) (v : String) :
    θ.rank v ≤ θ.length := by
  cases hc : θ.get? v with
  | none => rw [rank_free hc]; exact Nat.zero_le _
  | some c => rw [rank_bound hc]; exact card_reached_lt_length hθ hc

/-- **Acyclic means that a rank goes down along the bindings.** -/
theorem acyclic_iff_ranked {θ : Substitution} : θ.Acyclic ↔ ∃ r, θ.RankedBy r :=
  ⟨fun hθ => ⟨θ.rank, rankedBy_rank hθ⟩, fun ⟨_, hr⟩ => acyclic_of_rankedBy hr⟩

/-! ### The equations of substitution -/

theorem substituteWithin_eq_mapVars (θ : Substitution) (n : Nat) (c : Cell) :
    θ.substituteWithin n c = c.mapVars fun v => θ.substituteWithin n (.var v) := by
  cases n with
  | zero => exact (Cell.mapVars_self c).symm
  | succ n => simp only [substituteWithin, Cell.mapVars_var]

theorem substituteWithin_var_some {θ : Substitution} {v : String} {c : Cell} (n : Nat)
    (hv : θ.get? v = some c) : θ.substituteWithin (n + 1) (.var v) = θ.substituteWithin n c := by
  rw [substituteWithin, Cell.mapVars_var, hv]

theorem substituteWithin_var_none {θ : Substitution} {v : String} (n : Nat)
    (hv : θ.get? v = none) : θ.substituteWithin n (.var v) = .var v := by
  cases n with
  | zero => rfl
  | succ n => rw [substituteWithin, Cell.mapVars_var, hv]

/-- Following more bindings than the rank of every variable in sight changes nothing. -/
theorem substituteWithin_succ {θ : Substitution} {r : String → Nat} (hr : θ.RankedBy r)
    (n : Nat) (c : Cell) (hc : ∀ v, c.Mentions v → r v ≤ n) :
    θ.substituteWithin (n + 1) c = θ.substituteWithin n c := by
  induction n generalizing c with
  | zero =>
    rw [substituteWithin_eq_mapVars θ 1, substituteWithin_eq_mapVars θ 0]
    refine Cell.mapVars_congr c fun v hv => ?_
    cases hb : θ.get? v with
    | none => rw [substituteWithin_var_none _ hb, substituteWithin_var_none _ hb]
    | some b =>
      have hpos := (hr v b hb).1
      have hzero := hc v hv
      omega
  | succ n ih =>
    rw [substituteWithin_eq_mapVars θ (n + 2), substituteWithin_eq_mapVars θ (n + 1)]
    -- a bound variable sends us to its binding, in which every rank is smaller
    refine Cell.mapVars_congr c fun v hv => ?_
    cases hb : θ.get? v with
    | none => rw [substituteWithin_var_none _ hb, substituteWithin_var_none _ hb]
    | some b =>
      rw [substituteWithin_var_some _ hb, substituteWithin_var_some _ hb]
      refine ih b fun w hw => ?_
      have hlt := (hr v b hb).2 w hw
      have hle := hc v hv
      omega

/-- A substitution replaces each variable on its own. -/
theorem substitute_eq_mapVars (θ : Substitution) (c : Cell) :
    θ.substitute c = c.mapVars fun v => θ.substitute (.var v) :=
  substituteWithin_eq_mapVars θ _ c

@[simp] theorem substitute_quotation (θ : Substitution) (code : List Cell) :
    θ.substitute (.quotation code) = .quotation (code.map θ.substitute) := by
  rw [substitute_eq_mapVars, Cell.mapVars_quotation]
  exact congrArg _ (List.map_congr_left fun c _ => (substitute_eq_mapVars θ c).symm)

/-- A free variable stands for itself. -/
theorem substitute_var_free {θ : Substitution} {v : String} (hv : θ.get? v = none) :
    θ.substitute (.var v) = .var v := substituteWithin_var_none _ hv

/-- **A bound variable stands for what its binding stands for.** -/
theorem substitute_var_bound {θ : Substitution} (hθ : θ.Acyclic) {v : String} {c : Cell}
    (hv : θ.get? v = some c) : θ.substitute (.var v) = θ.substitute c := by
  calc θ.substitute (.var v)
      = θ.substituteWithin (θ.length + 1) (.var v) :=
        (substituteWithin_succ (rankedBy_rank hθ) _ _ fun w _ => rank_le_length hθ w).symm
    _ = θ.substitute c := substituteWithin_var_some _ hv

/-- A cell that is neither a variable nor a quotation is left as it is. -/
theorem substitute_other (θ : Substitution) {c : Cell} (hq : ∀ code, c ≠ .quotation code)
    (hv : ∀ v, c ≠ .var v) : θ.substitute c = c := by
  rw [substitute_eq_mapVars, Cell.mapVars_other _ hq hv]

/-- **An earlier substitution is absorbed by any acyclic extension of it.** -/
theorem substitute_substitute {θ θ' : Substitution} (hθ' : θ'.Acyclic) (hext : θ'.Extends θ)
    (c : Cell) : θ'.substitute (θ.substitute c) = θ'.substitute c := by
  have key : ∀ n d, θ'.substitute (θ.substituteWithin n d) = θ'.substitute d := by
    intro n
    induction n with
    | zero => intro d; rfl
    | succ n ih =>
      intro d
      rw [substituteWithin_eq_mapVars, substitute_eq_mapVars θ', Cell.mapVars_mapVars,
        substitute_eq_mapVars θ' d]
      refine Cell.mapVars_congr d fun v _ => ?_
      rw [← substitute_eq_mapVars]
      cases hb : θ.get? v with
      | none => rw [substituteWithin_var_none _ hb]
      | some b => rw [substituteWithin_var_some _ hb, ih, substitute_var_bound hθ' (hext v b hb)]
  exact key θ.length c

/-! ### NaNs and substitution -/

theorem noNaN_substitute_var {θ : Substitution} (hnan : θ.NoNaN) (v : String) :
    (θ.substitute (.var v)).noNaN = true := by
  have key : ∀ n w, (θ.substituteWithin n (.var w)).noNaN = true := by
    intro n
    induction n with
    | zero => intro w; simp [substituteWithin, Cell.noNaN]
    | succ n ih =>
      intro w
      cases hb : θ.get? w with
      | none => rw [substituteWithin_var_none _ hb]; simp [Cell.noNaN]
      | some b =>
        rw [substituteWithin_var_some _ hb, substituteWithin_eq_mapVars]
        exact Cell.noNaN_mapVars ih (hnan w b hb)
  exact key _ v

theorem noNaN_substitute {θ : Substitution} (hnan : θ.NoNaN) {c : Cell} (hc : c.noNaN = true) :
    (θ.substitute c).noNaN = true := by
  rw [substitute_eq_mapVars]
  exact Cell.noNaN_mapVars (noNaN_substitute_var hnan) hc

/-- Equal cells stay equal under a substitution without a NaN. -/
theorem substitute_beq {θ : Substitution} (hnan : θ.NoNaN) {a b : Cell} (hab : (a == b) = true) :
    (θ.substitute a == θ.substitute b) = true := by
  rw [substitute_eq_mapVars θ a, substitute_eq_mapVars θ b]
  exact Cell.mapVars_beq (noNaN_substitute_var hnan) hab

/-! ### Binding a variable -/

@[simp] theorem get?_bind (θ : Substitution) (v : String) (c : Cell) (w : String) :
    (θ.bind v c).get? w = if w = v then some c else θ.get? w := by
  induction θ with
  | nil => rw [bind, get?_cons, get?_nil]
  | cons e θ ih =>
    obtain ⟨u, d⟩ := e
    rw [bind]
    split
    · rw [get?_cons]
    · split
      · rename_i hvu
        rw [get?_cons, get?_cons, hvu]
        by_cases hwu : w = u <;> simp [hwu]
      · rename_i hvu
        rw [get?_cons, get?_cons, ih]
        by_cases hwu : w = u
        · have hwv : w ≠ v := fun h => hvu (h ▸ hwu)
          rw [if_pos hwu, if_neg hwv, if_pos hwu]
        · rw [if_neg hwu, if_neg hwu]

theorem extends_bind {θ : Substitution} {v : String} (hv : θ.get? v = none) (c : Cell) :
    (θ.bind v c).Extends θ := by
  intro w d hw
  have hwv : w ≠ v := by
    rintro rfl
    rw [hv] at hw
    cases hw
  rw [get?_bind, if_neg hwv, hw]

theorem noNaN_bind {θ : Substitution} (hnan : θ.NoNaN) (v : String) {c : Cell}
    (hc : c.noNaN = true) : (θ.bind v c).NoNaN := by
  intro w d hw
  rw [get?_bind] at hw
  by_cases hwv : w = v
  · rw [if_pos hwv] at hw
    cases hw
    exact hc
  · rw [if_neg hwv] at hw
    exact hnan w d hw

/-- Whatever a mentioned variable leads to, the occurs check finds, if it follows as many bindings
as the rank of every variable in sight. -/
theorem occursWithin_of_leads {θ : Substitution} {r : String → Nat} (hr : θ.RankedBy r)
    {var : String} (n : Nat) (term : Cell) (hn : ∀ v, term.Mentions v → r v ≤ n) {w : String}
    (hw : term.Mentions w) (hlead : Relation.ReflTransGen θ.Leads w var) :
    θ.occursWithin var n term = true := by
  induction n generalizing term w with
  | zero =>
    rw [occursWithin, Cell.anyVar_iff]
    rcases hlead.cases_head with rfl | ⟨u, ⟨c, hc, _⟩, _⟩
    · exact ⟨w, hw, beq_self_eq_true w⟩
    · -- a bound variable has a positive rank
      have hpos := (hr w c hc).1
      have hzero := hn w hw
      omega
  | succ n ih =>
    rw [occursWithin, Cell.anyVar_iff]
    refine ⟨w, hw, ?_⟩
    rcases hlead.cases_head with rfl | ⟨u, ⟨c, hc, hu⟩, hrest⟩
    · rw [beq_self_eq_true, Bool.true_or]
    · have hfound : θ.occursWithin var n c = true := by
        refine ih c (fun x hx => ?_) hu hrest
        have hlt := (hr w c hc).2 x hx
        have hle := hn w hw
        omega
      simp only [hc, hfound, Bool.or_true]

/-- A variable that does not occur in a term is reached from no variable of the term. -/
theorem not_leads_of_not_occurs {θ : Substitution} (hθ : θ.Acyclic) {v : String} {term : Cell}
    (hocc : θ.occurs v term = false) {w : String} (hw : term.Mentions w) :
    ¬ Relation.ReflTransGen θ.Leads w v := by
  intro hlead
  have := occursWithin_of_leads (rankedBy_rank hθ) θ.length term
    (fun x _ => rank_le_length hθ x) hw hlead
  rw [occurs, this] at hocc
  cases hocc

open Classical in
/-- **Binding a free variable that does not occur in the term keeps a substitution acyclic.** -/
theorem acyclic_bind {θ : Substitution} (hθ : θ.Acyclic) {v : String} {term : Cell}
    (hv : θ.get? v = none) (hocc : θ.occurs v term = false) : (θ.bind v term).Acyclic := by
  -- everything that reaches `v` is lifted above everything in `term`, which does not reach it
  let lift : String → Nat := fun x =>
    if Relation.ReflTransGen θ.Leads x v then θ.length + 1 else 0
  have hlift : ∀ x y, θ.Leads x y → lift y ≤ lift x := by
    intro x y hxy
    by_cases hy : Relation.ReflTransGen θ.Leads y v
    · have hx : Relation.ReflTransGen θ.Leads x v := .head hxy hy
      simp only [lift, if_pos hy, if_pos hx, le_refl]
    · simp only [lift, if_neg hy, Nat.zero_le]
  refine acyclic_of_rankedBy (r := fun x => θ.rank x + lift x) fun w c hw => ?_
  change 0 < θ.rank w + lift w ∧ ∀ x, c.Mentions x → θ.rank x + lift x < θ.rank w + lift w
  rw [get?_bind] at hw
  by_cases hwv : w = v
  -- the new binding: `v` itself is lifted, and nothing in `term` is
  · rw [if_pos hwv] at hw
    cases hw
    subst hwv
    have hself : lift w = θ.length + 1 := if_pos Relation.ReflTransGen.refl
    refine ⟨by omega, fun x hx => ?_⟩
    have hzero : lift x = 0 := if_neg (not_leads_of_not_occurs hθ hocc hx)
    have hle := rank_le_length hθ x
    omega
  · rw [if_neg hwv] at hw
    -- an old binding: the rank goes down, and the lift does not go up
    obtain ⟨hpos, hdown⟩ := rankedBy_rank hθ w c hw
    refine ⟨by omega, fun x hx => ?_⟩
    have hlt := hdown x hx
    have hle := hlift w x ⟨c, hw, hx⟩
    omega

theorem acyclic_nil : Acyclic [] :=
  acyclic_of_rankedBy (r := fun _ => 0) fun _ _ h => by simp at h

theorem noNaN_nil : NoNaN [] := fun _ _ h => by simp at h

end Substitution

end Restack
