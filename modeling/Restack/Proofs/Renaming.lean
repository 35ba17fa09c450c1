import Mathlib.Logic.Equiv.Fintype
import Restack.Proofs.Principal

/-!
# Renaming the variables of a program

The variables of a program are names like any other, so renaming them should not matter to
inference. What a renamed program asks of its types is what the program itself asks,
renamed, as long as the renaming leaves the fresh names alone: those that inference draws
for the stack effects in use. Such a renaming extends to a bijection of all names, which
carries solutions to solutions and back. The stack effects of both programs are principal,
so each is an instance of the other, and then they differ by a renaming only.

A fresh name is not kept apart from the names in the program. A program may mention a name
before inference draws it, and what is found out about the one is then taken to be true of
the other.

## Main definitions

* `Cell.rename`, `Signature.rename` — variables replaced by variables.
* `drawnNames` — the fresh names that inference draws for a program.
* `EqualUpToRenaming` — both outcomes are failures, or stack effects up to a bijection.

## Main results

* `obligationsOf_rename` — renaming commutes with collecting obligations.
* `exists_perm_of_instances` — cells that are instances of one another.
* `infer_renamed` — inference on a renamed program.
* `infer_captures_drawn_name` — a program that mentions a fresh name.
-/

namespace Restack

variable {ρ : String → String} {f : String → Cell} {c : Cell} {program : List Cell}

/-- Renames every variable of a cell, inside quotations too. -/
def Cell.rename (ρ : String → String) (c : Cell) : Cell := c.mapVars fun v => .var (ρ v)

/-- Renames every variable of a stack effect. -/
def Signature.rename (ρ : String → String) (s : Signature) : Signature :=
  s.mapVars fun v => .var (ρ v)

/-- The fresh names that inference draws for a program. -/
def drawnNames (program : List Cell) : List String := (obligationsOf program).drawn

/-- Both inferences have failed, or a bijection of names takes one stack effect to the other. -/
inductive EqualUpToRenaming :
    Except EngineError Signature → Except EngineError Signature → Prop
  /-- Neither shows a stack effect. -/
  | failed (e e' : EngineError) : EqualUpToRenaming (.error e) (.error e')
  /-- Both show one, and they differ in names only. -/
  | renamed (effect : Signature) (τ : Equiv.Perm String) :
      EqualUpToRenaming (.ok effect) (.ok (effect.rename τ))

/-! ### Variables -/

theorem Cell.varsList_eq_flatMap (cs : List Cell) : Cell.varsList cs = cs.flatMap Cell.vars := by
  induction cs with
  | nil => rfl
  | cons c cs ih => rw [Cell.varsList, ih, List.flatMap_cons]

theorem Cell.mem_vars_iff {v : String} : v ∈ c.vars ↔ c.Mentions v := by
  induction c using Cell.induction_on_vars with
  | quotation code ih =>
    rw [Cell.vars, Cell.varsList_eq_flatMap, List.mem_flatMap, Cell.mentions_quotation]
    exact exists_congr fun c => and_congr_right fun hc => ih c hc
  | var w => rw [Cell.vars, List.mem_singleton, Cell.mentions_var]
  | other c hq hv =>
    cases c with
    | quotation code => exact absurd rfl (hq code)
    | var w => exact absurd rfl (hv w)
    | _ => exact ⟨fun h => absurd h (by simp [Cell.vars]), fun h => nomatch h⟩

theorem Cell.mem_varsList_iff {cs : List Cell} {v : String} :
    v ∈ Cell.varsList cs ↔ ∃ c ∈ cs, c.Mentions v := by
  rw [Cell.varsList_eq_flatMap, List.mem_flatMap]
  exact exists_congr fun c => and_congr_right fun _ => Cell.mem_vars_iff

/-- A renaming that is injective on finitely many names is part of a bijection of all names. -/
theorem exists_perm_of_injOn {names : List String} (hρ : Set.InjOn ρ { v | v ∈ names }) :
    ∃ π : Equiv.Perm String, ∀ v ∈ names, π v = ρ v := by
  obtain ⟨π, hπ⟩ := Equiv.Perm.exists_extending_pair (fun v : { v // v ∈ names } => v.1)
    (fun v : { v // v ∈ names } => ρ v.1) Subtype.val_injective
    fun v w h => Subtype.ext (hρ v.2 w.2 h)
  exact ⟨π, fun v hv => hπ ⟨v, hv⟩⟩

/-! ### Renamed cells -/

namespace Cell

theorem rename_congr {ρ' : String → String} (h : ∀ v, c.Mentions v → ρ v = ρ' v) :
    c.rename ρ = c.rename ρ' :=
  c.mapVars_congr fun v hv => by rw [h v hv]

theorem rename_eq_self (h : ∀ v, c.Mentions v → ρ v = v) : c.rename ρ = c := by
  rw [rename, c.mapVars_congr fun v hv => by rw [h v hv], c.mapVars_self]

/-- Renaming first is replacing each variable by what its new name is replaced by. -/
theorem mapVars_rename (c : Cell) : (c.rename ρ).mapVars f = c.mapVars (f ∘ ρ) := by
  rw [rename, mapVars_mapVars]
  exact c.mapVars_congr fun v _ => mapVars_var f (ρ v)

theorem rename_symbol (name : String) : (Cell.symbol name).rename ρ = .symbol name :=
  mapVars_other _ (fun _ h => nomatch h) fun _ h => nomatch h

theorem valueType_rename (c : Cell) : (c.rename ρ).valueType = c.valueType := by
  rw [rename]
  induction c using Cell.induction_on_vars with
  | quotation code => rw [mapVars_quotation]; rfl
  | var v => rw [mapVars_var]; rfl
  | other c hq hv => rw [mapVars_other _ hq hv]

/-- The type of a value is the value itself or a type. -/
theorem typeTerm_cases (c : Cell) : c.typeTerm = c ∨ ∃ tag, c.typeTerm = .type tag := by
  unfold typeTerm
  split
  · exact .inl rfl
  · exact .inl rfl
  · split
    · exact .inr ⟨_, rfl⟩
    · exact .inl rfl

theorem typeTerm_rename (c : Cell) : (c.rename ρ).typeTerm = c.typeTerm.rename ρ := by
  unfold rename
  induction c using Cell.induction_on_vars with
  | quotation code => rw [mapVars_quotation]; exact (mapVars_type _ .quot).symm
  | var v => rw [mapVars_var, IsTerm.typeTerm (.var v), mapVars_var, IsTerm.typeTerm (.var _)]
  | other c hq hv =>
    rw [mapVars_other _ hq hv]
    rcases c.typeTerm_cases with h | ⟨tag, h⟩
    · rw [h, mapVars_other _ hq hv]
    · rw [h, mapVars_type]

theorem IsTypable.rename (h : c.IsTypable) : (c.rename ρ).IsTypable := by
  cases h with
  | value h => exact .value (by rw [valueType_rename]; exact h)
  | word h => rw [rename_symbol]; exact .word h

end Cell

/-! ### Renamed obligations -/

namespace Obligations

variable {o : Obligations} {π : String → String}

/-- Renames the variables of obligations. The fresh names stay what they are. -/
def rename (π : String → String) (o : Obligations) : Obligations :=
  { o with
    values := o.values.map (Cell.rename π)
    needs := o.needs.map (Cell.rename π)
    equations := o.equations.map (Prod.map (Cell.rename π) (Cell.rename π)) }

/-- A stack effect is used in the same way, if the fresh names stay what they are. -/
theorem use_rename {effect : Signature} (hdrawn : ∀ w ∈ (o.use effect).drawn, π w = w) :
    (o.rename π).use effect = (o.use effect).rename π := by
  have hfresh : ∀ r ∈ (effect.freshen o.names).1.consumes ++ (effect.freshen o.names).1.produces,
      r.rename π = r := by
    intro r hr
    refine r.rename_eq_self fun v hv => hdrawn v ?_
    exact List.mem_append_right _ (Cell.mem_varsList_iff.mpr ⟨r, hr, hv⟩)
  have hconsumes : (effect.freshen o.names).1.consumes.map (Cell.rename π) =
      (effect.freshen o.names).1.consumes :=
    List.map_congr_left (fun r hr => hfresh r (List.mem_append_left _ hr)) |>.trans (List.map_id _)
  have hproduces : (effect.freshen o.names).1.produces.map (Cell.rename π) =
      (effect.freshen o.names).1.produces :=
    List.map_congr_left (fun r hr => hfresh r (List.mem_append_right _ hr)) |>.trans (List.map_id _)
  have hzip : (effect.freshen o.names).1.consumes.zip
        ((o.values.map (Cell.rename π)).map Cell.typeTerm) =
      ((effect.freshen o.names).1.consumes.zip (o.values.map Cell.typeTerm)).map
        (Prod.map (Cell.rename π) (Cell.rename π)) := by
    rw [← List.zip_map, hconsumes, List.map_map, List.map_map]
    exact congrArg _ (List.map_congr_left fun c _ => c.typeTerm_rename)
  simp only [use, rename, List.map_append, List.map_drop, List.length_map, hproduces, hconsumes,
    hzip]

/-- Taking a renamed cell is taking the cell, and renaming. -/
theorem take_rename {c : Cell} (hc : c.IsTypable) (hdrawn : ∀ w ∈ (o.take c).drawn, π w = w) :
    (o.rename π).take (c.rename π) = (o.take c).rename π := by
  cases hc with
  | value hc =>
    rw [take_value hc, take_value (by rw [Cell.valueType_rename]; exact hc)]
    rfl
  | word hw =>
    rw [take_word hw] at hdrawn ⊢
    rw [Cell.rename_symbol, take_word hw, use_rename hdrawn]

/-- A name that was drawn stays drawn. -/
theorem drawn_subset_take (o : Obligations) (c : Cell) : o.drawn ⊆ (o.take c).drawn := by
  unfold take
  split
  · exact List.subset_append_left _ _
  · exact List.Subset.refl _

theorem drawn_subset_foldl_take (code : List Cell) (o : Obligations) :
    o.drawn ⊆ (code.foldl take o).drawn := by
  induction code generalizing o with
  | nil => exact List.Subset.refl _
  | cons c code ih => exact List.Subset.trans (o.drawn_subset_take c) (ih (o.take c))

theorem foldl_take_rename (code : List Cell) (hcode : ∀ c ∈ code, c.IsTypable)
    (hdrawn : ∀ w ∈ (code.foldl take o).drawn, π w = w) :
    (code.map (Cell.rename π)).foldl take (o.rename π) = (code.foldl take o).rename π := by
  induction code generalizing o with
  | nil => rfl
  | cons c code ih =>
    rw [List.map_cons, List.foldl_cons, List.foldl_cons,
      take_rename (hcode c List.mem_cons_self)
        fun w hw => hdrawn w (drawn_subset_foldl_take code _ hw)]
    exact ih (fun d hd => hcode d (List.mem_cons_of_mem c hd)) hdrawn

end Obligations

/-- **Renaming commutes with collecting obligations**, if the fresh names stay what they are. -/
theorem obligationsOf_rename {π : String → String} (hprogram : ∀ c ∈ program, c.IsTypable)
    (hdrawn : ∀ w ∈ drawnNames program, π w = w) :
    obligationsOf (program.map (Cell.rename π)) = (obligationsOf program).rename π :=
  Obligations.foldl_take_rename program hprogram hdrawn

/-- What is drawn for a part of a program is drawn for the program. -/
theorem drawnNames_take_subset (n : Nat) : drawnNames (program.take n) ⊆ drawnNames program := by
  have hsplit : obligationsOf program =
      (program.drop n).foldl Obligations.take (obligationsOf (program.take n)) := by
    rw [obligationsOf, obligationsOf, ← List.foldl_append, List.take_append_drop]
  rw [drawnNames, drawnNames, hsplit]
  exact Obligations.drawn_subset_foldl_take _ _

/-! ### Cells that are instances of one another -/

/-- If replacing variables changes nothing, every variable was replaced by itself. -/
theorem Cell.eq_var_of_mapVars_eq_self (h : c.mapVars f = c) {v : String} (hv : c.Mentions v) :
    f v = .var v := by
  induction hv with
  | var v => rwa [Cell.mapVars_var] at h
  | @quotation code d v hd _ ih =>
    rw [Cell.mapVars_quotation, Cell.quotation.injEq] at h
    refine ih (List.map_inj_left.mp (h.trans (List.map_id _).symm) d hd)

/-- Only a variable is replaced by a variable. -/
theorem Cell.exists_var_of_mapVars_eq_var {v : String} (h : c.mapVars f = .var v) :
    ∃ w, c = .var w ∧ f w = .var v := by
  induction c using Cell.induction_on_vars with
  | quotation code => rw [Cell.mapVars_quotation] at h; cases h
  | var w => exact ⟨w, rfl, by rwa [Cell.mapVars_var] at h⟩
  | other c hq hv =>
    rw [Cell.mapVars_other f hq hv] at h
    exact absurd h (hv v)

/-- **Cells that are instances of one another differ by a renaming.** -/
theorem exists_perm_of_instances {cells : List Cell} {g : String → Cell}
    (h : ∀ c ∈ cells, (c.mapVars f).mapVars g = c) :
    ∃ τ : Equiv.Perm String, ∀ c ∈ cells, c.mapVars f = c.rename τ := by
  -- what a variable is replaced by can be replaced back, and so is a variable
  have hvars : ∀ v, v ∈ Cell.varsList cells → ∃ w, f v = .var w ∧ g w = .var v := by
    intro v hv
    obtain ⟨c, hc, hcv⟩ := Cell.mem_varsList_iff.mp hv
    have hself := h c hc
    rw [Cell.mapVars_mapVars] at hself
    exact Cell.exists_var_of_mapVars_eq_var (Cell.eq_var_of_mapVars_eq_self hself hcv)
  choose! τ hτ using hvars
  have hinjective : Set.InjOn τ { v | v ∈ Cell.varsList cells } := by
    intro v hv w hw heq
    have hback := (hτ w hw).2
    rw [← heq, (hτ v hv).2] at hback
    exact Cell.var.inj hback
  obtain ⟨π, hπ⟩ := exists_perm_of_injOn hinjective
  refine ⟨π, fun c hc => c.mapVars_congr fun v hv => ?_⟩
  have hmem := Cell.mem_varsList_iff.mpr ⟨c, hc, hv⟩
  rw [(hτ v hmem).1, hπ v hmem]

/-! ### The stack effects of a program and of a renamed one -/

/-- A stack effect and an instance of it that it is an instance of differ by a renaming. -/
theorem Signature.exists_perm_of_instance {effect : Signature} {g : String → Cell}
    (h : (effect.mapVars f).mapVars g = effect) :
    ∃ τ : Equiv.Perm String, effect.mapVars f = effect.rename τ := by
  obtain ⟨consumes, produces⟩ := effect
  simp only [Signature.mapVars, List.map_map, Signature.mk.injEq] at h
  have hself : ∀ c ∈ consumes ++ produces, (c.mapVars f).mapVars g = c := by
    rw [List.forall_mem_append]
    exact ⟨List.map_inj_left.mp (h.1.trans (List.map_id _).symm),
      List.map_inj_left.mp (h.2.trans (List.map_id _).symm)⟩
  obtain ⟨τ, hτ⟩ := exists_perm_of_instances hself
  rw [List.forall_mem_append] at hτ
  refine ⟨τ, ?_⟩
  rw [Signature.rename, Signature.mapVars, Signature.mapVars, List.map_congr_left hτ.1,
    List.map_congr_left hτ.2]
  rfl

namespace Obligations

variable {o : Obligations} {π : String → String}

theorem equates_rename : Equates f (o.rename π).equations ↔ Equates (f ∘ π) o.equations := by
  simp only [Equates, rename, List.forall_mem_map, Prod.map_fst, Prod.map_snd,
    Cell.mapVars_rename]

theorem effect_rename : (o.rename π).effect.mapVars f = o.effect.mapVars (f ∘ π) := by
  simp only [effect, rename, Signature.mapVars, List.map_map, Function.comp_def,
    Cell.mapVars_rename]

/-- A solution is carried over by the inverse renaming. -/
theorem equates_rename_symm (π : Equiv.Perm String) :
    Equates (f ∘ π.symm) (o.rename π).equations ↔ Equates f o.equations := by
  rw [equates_rename, Function.comp_assoc, Equiv.symm_comp_self, Function.comp_id]

end Obligations

/-- **Principal stack effects of obligations that differ by a renaming differ by a renaming.** -/
theorem Principal.exists_perm {o : Obligations} {π : Equiv.Perm String} {effect effect' : Signature}
    (h : Principal o effect) (h' : Principal (o.rename π) effect') :
    ∃ τ : Equiv.Perm String, effect' = effect.rename τ := by
  obtain ⟨⟨g, hg, heffect⟩, hall⟩ := h
  obtain ⟨⟨g', hg', heffect'⟩, hall'⟩ := h'
  -- each solution belongs to the other obligations too, so each stack effect is an instance
  have hforth : effect' = effect.mapVars (g' ∘ π) := by
    rw [heffect', Obligations.effect_rename, hall _ (Obligations.equates_rename.mp hg')]
  have hback : effect = effect'.mapVars (g ∘ π.symm) := by
    rw [← hall' _ ((Obligations.equates_rename_symm π).mpr hg), Obligations.effect_rename,
      Function.comp_assoc, Equiv.symm_comp_self, Function.comp_id, heffect]
  rw [hforth]
  exact Signature.exists_perm_of_instance (by rw [← hforth, ← hback])

/-- The renaming that applies to the variables of a program only. -/
def renamingOn (program : List Cell) (ρ : String → String) (v : String) : String :=
  if v ∈ Cell.varsList program then ρ v else v

section Bijection

variable (hρ : Set.InjOn ρ { v | v ∈ Cell.varsList program })
  (hdrawn : ∀ v ∈ Cell.varsList program, ∀ w ∈ drawnNames program, ρ v = w ↔ v = w)

theorem map_rename_renamingOn (ρ : String → String) :
    program.map (Cell.rename (renamingOn program ρ)) = program.map (Cell.rename ρ) := by
  refine List.map_congr_left fun c hc => c.rename_congr fun v hv => ?_
  exact if_pos (Cell.mem_varsList_iff.mpr ⟨c, hc, hv⟩)

include hdrawn in
theorem renamingOn_drawn {w : String} (hw : w ∈ drawnNames program) :
    renamingOn program ρ w = w := by
  unfold renamingOn
  split
  · rename_i hmem
    exact (hdrawn w hmem w hw).mpr rfl
  · rfl

include hρ hdrawn in
/-- On the variables of the program and the fresh names together it is injective. -/
theorem renamingOn_injOn :
    Set.InjOn (renamingOn program ρ) { v | v ∈ Cell.varsList program ++ drawnNames program } := by
  intro v hv w hw heq
  have hrest : ∀ {u}, u ∈ Cell.varsList program ++ drawnNames program →
      u ∉ Cell.varsList program → u ∈ drawnNames program :=
    fun hu hnot => (List.mem_append.mp hu).resolve_left hnot
  unfold renamingOn at heq
  by_cases hv' : v ∈ Cell.varsList program
  · by_cases hw' : w ∈ Cell.varsList program
    · rw [if_pos hv', if_pos hw'] at heq
      exact hρ hv' hw' heq
    · rw [if_pos hv', if_neg hw'] at heq
      exact (hdrawn v hv' w (hrest hw hw')).mp heq
  · by_cases hw' : w ∈ Cell.varsList program
    · rw [if_neg hv', if_pos hw'] at heq
      exact ((hdrawn w hw' v (hrest hv hv')).mp heq.symm).symm
    · rwa [if_neg hv', if_neg hw'] at heq

include hρ hdrawn in
/-- A renaming that is injective on a program and leaves the fresh names alone acts on the program
like a bijection of all names that leaves the fresh names alone. -/
theorem exists_perm_of_program :
    ∃ π : Equiv.Perm String, program.map (Cell.rename ρ) = program.map (Cell.rename π) ∧
      ∀ w ∈ drawnNames program, π w = w := by
  obtain ⟨π, hπ⟩ := exists_perm_of_injOn (renamingOn_injOn hρ hdrawn)
  refine ⟨π, ?_, fun w hw => ?_⟩
  · rw [← map_rename_renamingOn]
    refine List.map_congr_left fun c hc => c.rename_congr fun v hv => ?_
    exact (hπ v (List.mem_append_left _ (Cell.mem_varsList_iff.mpr ⟨c, hc, hv⟩))).symm
  · rw [hπ w (List.mem_append_right _ hw), renamingOn_drawn hdrawn hw]

end Bijection

/-- **Inference on a renamed program.** Take a program of literals, types, variables and words, and
a renaming that is injective on its variables, takes no variable to a fresh name that inference
draws for the program, and leaves those alone that are such names. Inference fails on both the
program and the renamed program, or it shows stack effects for both, which differ by a bijective
renaming only. -/
theorem infer_renamed (hprogram : ∀ c ∈ program, c.IsTypable)
    (hρ : Set.InjOn ρ { v | v ∈ Cell.varsList program })
    (hdrawn : ∀ v ∈ Cell.varsList program, ∀ w ∈ drawnNames program, ρ v = w ↔ v = w)
    (budget : Option Nat) :
    EqualUpToRenaming (infer budget [.quotation program] Mode.infer.environment).1
      (infer budget [.quotation (program.map (Cell.rename ρ))] Mode.infer.environment).1 := by
  obtain ⟨π, hrename, hfixed⟩ := exists_perm_of_program hρ hdrawn
  have htypable : ∀ c ∈ program.map (Cell.rename π), c.IsTypable := by
    intro c hc
    obtain ⟨d, hd, rfl⟩ := List.mem_map.mp hc
    exact (hprogram d hd).rename
  have hobligations : obligationsOf ((program.map (Cell.rename π)).take (stepLimit budget)) =
      (obligationsOf (program.take (stepLimit budget))).rename π := by
    rw [← List.map_take]
    exact obligationsOf_rename (fun c hc => hprogram c (List.mem_of_mem_take hc))
      fun w hw => hfixed w (drawnNames_take_subset _ hw)
  rw [hrename]
  rcases infer_principal hprogram budget with ⟨effect, hok, hprincipal⟩ | ⟨e, herror, hnone⟩
  · rcases infer_principal htypable budget with ⟨effect', hok', hprincipal'⟩ | ⟨e', -, hnone'⟩
    · rw [hobligations] at hprincipal'
      obtain ⟨τ, rfl⟩ := hprincipal.exists_perm hprincipal'
      rw [hok, hok']
      exact .renamed effect τ
    · obtain ⟨⟨g, hg, -⟩, -⟩ := hprincipal
      rw [hobligations] at hnone'
      exact absurd ((Obligations.equates_rename_symm π).mpr hg) (hnone' _)
  · rcases infer_principal htypable budget with ⟨effect', -, hprincipal'⟩ | ⟨e', herror', -⟩
    · obtain ⟨⟨g', hg', -⟩, -⟩ := hprincipal'
      rw [hobligations] at hg'
      exact absurd (Obligations.equates_rename.mp hg') (hnone _)
    · rw [herror, herror']
      exact .failed e e'

/-- The theorem at `over 'x + 'y = ['x 'y]`, whose variables are renamed to `'b_0` and `'x`. Neither
is drawn for the program, though the first looks like it. -/
theorem infer_renamed_equated_variables :
    drawnNames [.symbol "over", .var "x", .symbol "+", .var "y", .symbol "=",
          .quotation [.var "x", .var "y"]] =
        ["a_0", "b_1", "b_1", "a_0", "b_1", "n_2", "n_2", "n_2", "a_3", "a_3"] ∧
      (infer none [.quotation [.symbol "over", .var "x", .symbol "+", .var "y", .symbol "=",
          .quotation [.var "x", .var "y"]]] Mode.infer.environment).1 =
        .ok ⟨[.var "a_0", .var "b_1"],
          [.quotation [.var "b_1", .var "b_1"], .type .bool, .var "a_0", .var "b_1"]⟩ ∧
      EqualUpToRenaming
        (infer none [.quotation [.symbol "over", .var "x", .symbol "+", .var "y", .symbol "=",
          .quotation [.var "x", .var "y"]]] Mode.infer.environment).1
        (infer none [.quotation [.symbol "over", .var "b_0", .symbol "+", .var "x", .symbol "=",
          .quotation [.var "b_0", .var "x"]]] Mode.infer.environment).1 := by
  have hprogram : ∀ c ∈ [Cell.symbol "over", .var "x", .symbol "+", .var "y", .symbol "=",
      .quotation [.var "x", .var "y"]], c.IsTypable := by
    intro c hc
    simp only [List.mem_cons, List.not_mem_nil, or_false] at hc
    rcases hc with rfl | rfl | rfl | rfl | rfl | rfl
    · exact .word .pick
    · exact .value rfl
    · exact .word .add
    · exact .value rfl
    · exact .word .equal
    · exact .value rfl
  have hvars : Cell.varsList [.symbol "over", .var "x", .symbol "+", .var "y", .symbol "=",
      .quotation [.var "x", .var "y"]] = ["x", "y", "x", "y"] := rfl
  have hnames : drawnNames [.symbol "over", .var "x", .symbol "+", .var "y", .symbol "=",
      .quotation [.var "x", .var "y"]] =
        ["a_0", "b_1", "b_1", "a_0", "b_1", "n_2", "n_2", "n_2", "a_3", "a_3"] := rfl
  have hinjective : Set.InjOn (fun v => if v = "x" then "b_0" else "x")
      { v | v ∈ ["x", "y", "x", "y"] } := by
    have hall : ∀ v ∈ ["x", "y", "x", "y"], ∀ w ∈ ["x", "y", "x", "y"],
        (if v = "x" then "b_0" else "x") = (if w = "x" then "b_0" else "x") → v = w := by decide
    exact fun v hv w hw => hall v hv w hw
  have hrenamed : [Cell.symbol "over", .var "x", .symbol "+", .var "y", .symbol "=",
      .quotation [.var "x", .var "y"]].map (Cell.rename fun v => if v = "x" then "b_0" else "x") =
        [.symbol "over", .var "b_0", .symbol "+", .var "x", .symbol "=",
          .quotation [.var "b_0", .var "x"]] := rfl
  rw [← hvars] at hinjective
  refine ⟨hnames, rfl, hrenamed ▸ infer_renamed hprogram hinjective ?_ none⟩
  rw [hvars, hnames]
  decide

/-- Inference captures a variable of the program that has the name it draws. In `'a_0 typeof(int)
dup` the variable and the fresh `'a_0` of `dup` are one, and both turn out to be an integer; with
the variable renamed to `'x`, it stays free. -/
theorem infer_captures_drawn_name :
    Set.InjOn (fun _ => "x") { v | v ∈ Cell.varsList [.var "a_0", .type .int, .symbol "dup"] } ∧
      (infer none [.quotation [.var "a_0", .type .int, .symbol "dup"]] Mode.infer.environment).1 =
        .ok ⟨[], [.type .int, .type .int, .type .int]⟩ ∧
      (infer none [.quotation ([.var "a_0", .type .int, .symbol "dup"].map
          (Cell.rename fun _ => "x"))] Mode.infer.environment).1 =
        .ok ⟨[], [.type .int, .type .int, .var "x"]⟩ ∧
      ¬ EqualUpToRenaming
        (infer none [.quotation [.var "a_0", .type .int, .symbol "dup"]] Mode.infer.environment).1
        (infer none [.quotation ([.var "a_0", .type .int, .symbol "dup"].map
          (Cell.rename fun _ => "x"))] Mode.infer.environment).1 := by
  have hcaptured : (infer none [.quotation [.var "a_0", .type .int, .symbol "dup"]]
      Mode.infer.environment).1 = .ok ⟨[], [.type .int, .type .int, .type .int]⟩ := rfl
  have hfree : (infer none [.quotation ([.var "a_0", .type .int, .symbol "dup"].map
      (Cell.rename fun _ => "x"))] Mode.infer.environment).1 =
        .ok ⟨[], [.type .int, .type .int, .var "x"]⟩ := rfl
  refine ⟨?_, hcaptured, hfree, ?_⟩
  · intro v hv w hw _
    have hv' : v ∈ ["a_0"] := hv
    have hw' : w ∈ ["a_0"] := hw
    rw [List.mem_singleton.mp hv', List.mem_singleton.mp hw']
  · rw [hcaptured, hfree]
    -- a renaming leaves types as they are, and so the third cell cannot become a variable
    intro h
    cases h

end Restack
