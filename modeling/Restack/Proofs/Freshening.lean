import Restack.Proofs.FreshNames
import Restack.Proofs.Renaming

/-!
# Fresh copies of stack effects

Each use of an instruction renames the variables of its stack effect. A fresh name is an old
name with a number behind it, which no other fresh name carries, so two variables are never
given one name. A declared variable may have the name that another one is given, though: the
renaming is applied as a substitution is, and so a variable is followed until it leads to a
name that is not declared. The two are one variable then.

A fresh name is longer than the name that it is made of. Following therefore ends, and a fresh
copy is always the stack effect under some renaming. It keeps the variables apart exactly when
no fresh name is declared.

## Main definitions

* `Signature.vars` — the declared variables, each once.
* `Signature.freshName` — the name that a variable is given.
* `Signature.freshNames` — the substitution that gives them.

## Main results

* `Signature.freshName_ne_of_later` — no name is given in two uses.
* `Signature.freshen_eq_rename` — a fresh copy is a renamed stack effect.
* `Signature.freshen_of_mem_signatures` — the stack effects of the vocabulary.
* `Signature.freshen_injective_tfae` — when the variables are kept apart.
* `Signature.freshen_merges_numbered_variable` — two declared variables that become one.
-/

namespace Restack

open Substitution

/-! ### The names that are given -/

theorem eraseDups_concat (vs : List String) (v : String) :
    (vs ++ [v]).eraseDups = if v ∈ vs then vs.eraseDups else vs.eraseDups ++ [v] := by
  rw [List.eraseDups_append]
  by_cases hv : v ∈ vs
  · simp [hv, List.removeAll]
  · simp [hv, List.removeAll, List.eraseDups_cons]

namespace Renaming

/-- The renaming has met the variables `vs`, and each has the name drawn when it was first met. -/
structure HasMet (r : Renaming) (names : NameSource) (vs : List String) : Prop where
  /-- One name was drawn for each. -/
  next : r.names = ⟨names.next + vs.eraseDups.length⟩
  /-- Those that were met are bound to their names. -/
  bound : ∀ v ∈ vs, r.map.get? v =
    some (.var (NameSource.fresh ⟨names.next + vs.eraseDups.idxOf v⟩ v).1)
  /-- The others are free. -/
  free : ∀ v, v ∉ vs → r.map.get? v = none

variable {r : Renaming} {names : NameSource} {vs : List String}

theorem HasMet.meet (h : r.HasMet names vs) (w : String) :
    (r.meet w).HasMet names (vs ++ [w]) := by
  by_cases hw : w ∈ vs
  · -- it has a name already
    have hmeet : r.meet w = r := by rw [Renaming.meet, h.bound w hw]
    have hvars : (vs ++ [w]).eraseDups = vs.eraseDups := by rw [eraseDups_concat, if_pos hw]
    have hmem : ∀ v, v ∈ vs ++ [w] ↔ v ∈ vs := fun v => by
      rw [List.mem_append, List.mem_singleton]
      exact ⟨fun hv => hv.elim id fun heq => heq ▸ hw, .inl⟩
    rw [hmeet]
    refine ⟨by rw [hvars, h.next], fun v hv => ?_, fun v hv => h.free v fun hm => hv ?_⟩
    · rw [hvars, h.bound v ((hmem v).mp hv)]
    · exact (hmem v).mpr hm
  · have hmeet : r.meet w = ⟨r.map.bind w (.var (r.names.fresh w).1), (r.names.fresh w).2⟩ := by
      rw [Renaming.meet, h.free w hw]
    have hvars : (vs ++ [w]).eraseDups = vs.eraseDups ++ [w] := by
      rw [eraseDups_concat, if_neg hw]
    have hnot : w ∉ vs.eraseDups := fun hm => hw (List.mem_eraseDups.mp hm)
    rw [hmeet]
    refine ⟨?_, fun v hv => ?_, fun v hv => ?_⟩
    · rw [hvars, h.next, NameSource.fresh, List.length_append, List.length_singleton,
        Nat.add_assoc]
    · rw [get?_bind, hvars]
      by_cases hvw : v = w
      · rw [if_pos hvw, hvw, h.next, List.idxOf_append_of_notMem hnot, List.idxOf_cons_self,
          Nat.add_zero]
      · have hmem : v ∈ vs := (List.mem_append.mp hv).resolve_right fun hm =>
          hvw (List.mem_singleton.mp hm)
        rw [if_neg hvw, h.bound v hmem, List.idxOf_append_of_mem (List.mem_eraseDups.mpr hmem)]
    · rw [List.mem_append, List.mem_singleton, not_or] at hv
      rw [get?_bind, if_neg hv.2, h.free v hv.1]

theorem hasMet_foldl (names : NameSource) (vs : List String) :
    (vs.foldl meet { names }).HasMet names vs := by
  induction vs using List.reverseRecOn with
  | nil => exact ⟨rfl, nofun, fun _ _ => rfl⟩
  | append_singleton vs w ih =>
    rw [List.foldl_append]
    exact ih.meet w

end Renaming

/-- Two replacements that agree on a cell agree on each of its variables. -/
theorem Cell.eq_of_mapVars_eq {f g : String → Cell} {c : Cell} (h : c.mapVars f = c.mapVars g)
    {v : String} (hv : c.Mentions v) : f v = g v := by
  induction hv with
  | var v => rwa [Cell.mapVars_var, Cell.mapVars_var] at h
  | @quotation code d v hd _ ih =>
    rw [Cell.mapVars_quotation, Cell.mapVars_quotation, Cell.quotation.injEq] at h
    exact ih (List.map_inj_left.mp h d hd)

namespace Signature

variable {s : Signature} {names : NameSource} {ρ : String → String} {v : String}

/-- The declared variables, each once, in the order in which they are met. -/
def vars (s : Signature) : List String := (Cell.varsList (s.consumes ++ s.produces)).eraseDups

/-- The fresh name of a declared variable: one name was drawn for each that is met before it. -/
def freshName (s : Signature) (names : NameSource) (v : String) : String :=
  (NameSource.fresh ⟨names.next + s.vars.idxOf v⟩ v).1

/-- The substitution that gives the declared variables their fresh names. -/
def freshNames (s : Signature) (names : NameSource) : Substitution :=
  ((Cell.varsList (s.consumes ++ s.produces)).foldl Renaming.meet { names }).map

theorem mem_vars_iff : v ∈ s.vars ↔ ∃ c ∈ s.consumes ++ s.produces, c.Mentions v := by
  rw [vars, List.mem_eraseDups, Cell.mem_varsList_iff]

theorem freshen_eq (s : Signature) (names : NameSource) :
    (s.freshen names).1 = ⟨s.consumes.map (s.freshNames names).substitute,
      s.produces.map (s.freshNames names).substitute⟩ := rfl

/-- One name is drawn for each declared variable. -/
theorem freshen_names (s : Signature) (names : NameSource) :
    (s.freshen names).2 = ⟨names.next + s.vars.length⟩ :=
  (Renaming.hasMet_foldl names _).next

theorem get?_freshNames (hv : v ∈ s.vars) :
    (s.freshNames names).get? v = some (.var (s.freshName names v)) :=
  (Renaming.hasMet_foldl names _).bound v (List.mem_eraseDups.mp hv)

theorem get?_freshNames_of_notMem (hv : v ∉ s.vars) : (s.freshNames names).get? v = none :=
  (Renaming.hasMet_foldl names _).free v fun hm => hv (List.mem_eraseDups.mpr hm)

/-- Two variables are never given the same name. -/
theorem freshName_injective (s : Signature) (names : NameSource) :
    Function.Injective (s.freshName names) :=
  fun _ _ h => (NameSource.fresh_eq_iff.mp h).2

/-- No name is given in two uses, one of which is later: what the source gave to the variables of
the first use, it gives to none in the second, be it a use of the same stack effect or of another. -/
theorem freshName_ne_of_later {t : Signature} {later : NameSource}
    (hlater : (s.freshen names).2.next ≤ later.next) (hv : v ∈ s.vars) (w : String) :
    s.freshName names v ≠ t.freshName later w := by
  intro hsame
  have hposition : s.vars.idxOf v < s.vars.length := List.idxOf_lt_length_of_mem hv
  simp only [freshen_names] at hlater
  rw [freshName, freshName, NameSource.fresh_eq_iff, NameSource.mk.injEq] at hsame
  omega

theorem length_lt_freshName (s : Signature) (names : NameSource) (v : String) :
    v.length < (s.freshName names v).length :=
  NameSource.length_lt_fresh _ v

/-- Declared names get longer along the bindings, so they do not lead back. -/
theorem acyclic_freshNames (s : Signature) (names : NameSource) :
    (s.freshNames names).Acyclic := by
  have hlonger : ∀ v w, Relation.TransGen (s.freshNames names).Leads v w →
      v.length < w.length := by
    have hstep : ∀ v w, (s.freshNames names).Leads v w → v.length < w.length := by
      rintro v w ⟨c, hc, hw⟩
      by_cases hv : v ∈ s.vars
      · rw [get?_freshNames hv] at hc
        cases hc
        rw [Cell.mentions_var.mp hw]
        exact s.length_lt_freshName names v
      · rw [get?_freshNames_of_notMem hv] at hc
        cases hc
    intro v w h
    induction h with
    | single h => exact hstep _ _ h
    | tail _ h ih => exact ih.trans (hstep _ _ h)
  exact fun v h => lt_irrefl _ (hlonger v v h)

/-! ### Following the names -/

/-- A declared variable stands for what its fresh name stands for. -/
theorem substitute_declared (hv : v ∈ s.vars) : (s.freshNames names).substitute (.var v) =
    (s.freshNames names).substitute (.var (s.freshName names v)) :=
  substitute_var_bound (s.acyclic_freshNames names) (get?_freshNames hv)

/-- A name that is not declared stands for itself. -/
theorem substitute_undeclared (hv : v ∉ s.vars) :
    (s.freshNames names).substitute (.var v) = .var v :=
  substitute_var_free (get?_freshNames_of_notMem hv)

/-- A fresh copy is the renamed stack effect exactly when each declared variable stands for its new
name. -/
theorem freshen_eq_rename_iff : (s.freshen names).1 = s.rename ρ ↔
    ∀ v ∈ s.vars, (s.freshNames names).substitute (.var v) = .var (ρ v) := by
  have hcells : (s.freshen names).1 = s.rename ρ ↔ ∀ c ∈ s.consumes ++ s.produces,
      (s.freshNames names).substitute c = c.rename ρ := by
    rw [freshen_eq, rename, mapVars, mk.injEq, List.map_inj_left, List.map_inj_left,
      List.forall_mem_append]
    rfl
  rw [hcells]
  constructor
  · intro h v hv
    obtain ⟨c, hc, hcv⟩ := mem_vars_iff.mp hv
    have heq := h c hc
    rw [substitute_eq_mapVars] at heq
    exact Cell.eq_of_mapVars_eq heq hcv
  · intro h c hc
    rw [substitute_eq_mapVars]
    exact c.mapVars_congr fun v hv => h v (mem_vars_iff.mpr ⟨c, hc, hv⟩)

/-- A declared variable leads to a fresh name that is not declared. -/
theorem exists_substitute_eq (s : Signature) (names : NameSource) (hv : v ∈ s.vars) :
    ∃ w ∈ s.vars, s.freshName names w ∉ s.vars ∧
      (s.freshNames names).substitute (.var v) = .var (s.freshName names w) := by
  -- by induction on the rank, which goes down along the bindings
  induction hr : (s.freshNames names).rank v using Nat.strong_induction_on generalizing v with
  | _ r ih =>
    rw [substitute_declared hv]
    by_cases hdeclared : s.freshName names v ∈ s.vars
    · have hlt := (rankedBy_rank (s.acyclic_freshNames names) v _ (get?_freshNames hv)).2
        (s.freshName names v) (.var _)
      exact ih _ (hr ▸ hlt) hdeclared rfl
    · exact ⟨v, hv, hdeclared, substitute_undeclared hdeclared⟩

/-- **A fresh copy is a renamed stack effect**: there is a renaming to fresh names, none of them
declared, that gives the fresh copy when it is applied to every declared variable. -/
theorem freshen_eq_rename (s : Signature) (names : NameSource) :
    ∃ ρ : String → String, (s.freshen names).1 = s.rename ρ ∧
      ∀ v ∈ s.vars, ρ v ∉ s.vars ∧ ∃ w ∈ s.vars, ρ v = s.freshName names w := by
  have hleads := fun v (hv : v ∈ s.vars) => s.exists_substitute_eq names hv
  choose! last hlast hfree hsubstitute using hleads
  exact ⟨fun v => s.freshName names (last v), freshen_eq_rename_iff.mpr hsubstitute,
    fun v hv => ⟨hfree v hv, last v, hlast v hv, rfl⟩⟩

/-- Where no fresh name is declared, each variable gets its own. -/
theorem freshen_eq_rename_freshName (h : ∀ v ∈ s.vars, s.freshName names v ∉ s.vars) :
    (s.freshen names).1 = s.rename (s.freshName names) := by
  refine freshen_eq_rename_iff.mpr fun v hv => ?_
  rw [substitute_declared hv, substitute_undeclared (h v hv)]

/-- A fresh name has an underscore, so it is not declared where no variable has one. -/
theorem freshName_notMem_vars (h : ∀ v ∈ s.vars, '_' ∉ v.toList) (names : NameSource)
    (v : String) : s.freshName names v ∉ s.vars := by
  intro hdeclared
  refine h _ hdeclared ?_
  rw [freshName, NameSource.toList_fresh]
  exact List.mem_append_right _ List.mem_cons_self

/-- The words of the vocabulary declare no variable with an underscore, so every use of one keeps
its variables apart. -/
theorem freshen_of_mem_signatures {name : String} (h : (name, s) ∈ Vocabulary.signatures)
    (names : NameSource) : (s.freshen names).1 = s.rename (s.freshName names) := by
  have hplain : ∀ entry ∈ Vocabulary.signatures, ∀ v ∈ entry.2.vars, '_' ∉ v.toList := by
    decide
  exact freshen_eq_rename_freshName fun v _ => freshName_notMem_vars (hplain _ h) names v

/-- **When a fresh copy keeps the variables apart.** These say the same of every stack effect and
every source of names: no fresh name is declared; the fresh copy is the stack effect with each
variable replaced by its own fresh name, and these names differ; the fresh copy is the stack effect
under some renaming that keeps its variables apart. -/
theorem freshen_injective_tfae (s : Signature) (names : NameSource) :
    [∀ v ∈ s.vars, s.freshName names v ∉ s.vars,
      Set.InjOn (s.freshName names) { v | v ∈ s.vars } ∧
        (s.freshen names).1 = s.rename (s.freshName names),
      ∃ ρ : String → String, Set.InjOn ρ { v | v ∈ s.vars } ∧
        (s.freshen names).1 = s.rename ρ].TFAE := by
  tfae_have 1 → 2 := fun h =>
    ⟨(s.freshName_injective names).injOn, freshen_eq_rename_freshName h⟩
  tfae_have 2 → 3 := fun h => ⟨s.freshName names, h⟩
  tfae_have 3 → 1 := by
    rintro ⟨ρ, hinjective, hcopy⟩ v hv hdeclared
    rw [freshen_eq_rename_iff] at hcopy
    -- the variable and its fresh name stand for the same, so they are one, which they are not
    have heq : Cell.var (ρ v) = .var (ρ (s.freshName names v)) := by
      rw [← hcopy v hv, ← hcopy _ hdeclared, substitute_declared hv]
    have hlt := s.length_lt_freshName names v
    rw [← hinjective hv hdeclared (Cell.var.inj heq)] at hlt
    exact lt_irrefl _ hlt
  tfae_finish

/-- Two declared variables that become one: `'a` is renamed to `'a_0`, which is declared too, and so
it is followed to the fresh name of that one. No renaming that keeps the two apart does this. -/
theorem freshen_merges_numbered_variable :
    (freshen ⟨[.var "a", .var "a_0"], [.var "a", .var "a_0"]⟩ {}).1 =
        ⟨[.var "a_0_1", .var "a_0_1"], [.var "a_0_1", .var "a_0_1"]⟩ ∧
      ¬ ∃ ρ : String → String,
        Set.InjOn ρ { v | v ∈ vars ⟨[.var "a", .var "a_0"], [.var "a", .var "a_0"]⟩ } ∧
          (freshen ⟨[.var "a", .var "a_0"], [.var "a", .var "a_0"]⟩ {}).1 =
            rename ρ ⟨[.var "a", .var "a_0"], [.var "a", .var "a_0"]⟩ := by
  have hcopy : (freshen ⟨[.var "a", .var "a_0"], [.var "a", .var "a_0"]⟩ {}).1 =
      ⟨[.var "a_0_1", .var "a_0_1"], [.var "a_0_1", .var "a_0_1"]⟩ := rfl
  refine ⟨hcopy, fun ⟨ρ, hinjective, hrename⟩ => ?_⟩
  have hmem : ∀ v ∈ ["a", "a_0"],
      v ∈ vars ⟨[.var "a", .var "a_0"], [.var "a", .var "a_0"]⟩ := by decide
  rw [hcopy] at hrename
  simp only [rename, mapVars, List.map_cons, List.map_nil, Cell.mapVars_var, mk.injEq,
    List.cons.injEq, Cell.var.injEq] at hrename
  have hsame : "a" = "a_0" := hinjective (hmem "a" (by decide)) (hmem "a_0" (by decide))
    (hrename.1.1.symm.trans hrename.1.2.1)
  exact absurd hsame (by decide)

end Signature

end Restack
