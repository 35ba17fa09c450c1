import Restack.Proofs.DeclaredUse

/-!
# Soundness of inference

An inference run takes the cells of a program one by one, as a strict run does, and the
two can be followed side by side. The values on the data of the one stand for the top of
the data of the other: each is the same cell, or denotes the type of its counterpart.
What inference has noted as needed so far was taken from outside, and the rest of what it
will need is still there. The types that the variables denote are fixed in advance, by
way of the substitution that all pins of the finished run unify to; they make every pin
true, at whatever time it was made.

## Main definitions

* `InferenceRun` — an inference run, cell by cell.
* `Realizes` — a value is what an inferred cell shows.

## Main results

* `runWithin_inference` — the machine performs an `InferenceRun`.
* `InferenceRun.sound` — a strict run beside an inference run.
* `InferenceRun.needs_le` — a strict run that succeeds had what inference asks for.
* `infer_sound` — the stack effect that inference shows is true of strict runs.
-/

namespace Restack

variable {program code : List Cell} {data final : Stack} {types : String → TypeTag}

/-- An inference run of code on data, cell by cell, and the data in which it ends. -/
inductive InferenceRun : List Cell → Stack → Stack → Prop
  /-- No code is left. -/
  | done (data : Stack) : InferenceRun [] data data
  /-- A literal or a free symbol is pushed. -/
  | push {c : Cell} {code : List Cell} {data final : Stack} (hc : c.IsInert)
    (h : InferenceRun code (c :: data) final) : InferenceRun (c :: code) data final
  /-- A word is used as a stack effect. -/
  | use {name : String} {op : Primitive} {code : List Cell} {data data' final : Stack}
    (hw : IsWord name op) (u : DeclaredUse name op data data')
    (h : InferenceRun code data' final) : InferenceRun (.symbol name :: code) data final

/-! ### The machine performs inference runs -/

/-- What a name stands for depends on the tables only. -/
theorem lookup_of_tables {env env' : Environment} (h : env.tables = env'.tables) (c : Cell) :
    env.lookup c = env'.lookup c := by
  cases c with
  | symbol name => simp only [Environment.lookup, Environment.resolve?, h]
  | _ => rfl

/-- Using a stack effect draws names and leaves the tables alone. -/
theorem tables_applyDeclared {name : String} {signature : Signature} {env env' : Environment}
    {r : Except EngineError Stack} (h : applyDeclared name signature data env = (r, env')) :
    env'.tables = env.tables := by
  simp only [applyDeclared] at h
  split at h
  · cases h; rfl
  · cases h; rfl

theorem Cell.IsInferred.ne_continuation {c : Cell} (h : c.IsInferred) (code : List Cell) :
    c ≠ .continuation code := by
  rintro rfl
  cases h with
  | term h => cases h
  | pushed h _ => cases h with
    | inert h => cases h with
      | literal h => cases h

/-- **The machine performs an inference run.** -/
theorem runWithin_inference {n : Nat} {env env' : Environment} {state : Stack}
    (hplain : ∀ c ∈ code, c.IsPlain) (hconcrete : ∀ c ∈ code, c.IsConcrete)
    (hdata : ∀ c ∈ data, c.IsInferred) (htables : env.tables = Mode.infer.environment.tables)
    (hn : code.length ≤ n) (h : runWithin n (.quotation code :: data) env = (.ok state, env')) :
    ∃ final, state = .quotation [] :: final ∧ InferenceRun code data final := by
  induction code generalizing n data env with
  | nil =>
    rw [runWithin_halted n env rfl] at h
    cases h
    exact ⟨data, rfl, .done data⟩
  | cons c code ih =>
    obtain ⟨n, rfl⟩ : ∃ m, n = m + 1 := ⟨n - 1, by simp at hn; omega⟩
    have hrest : ∀ d ∈ code, d.IsPlain := fun d hd => hplain d (List.mem_cons_of_mem c hd)
    have hrest' : ∀ d ∈ code, d.IsConcrete := fun d hd => hconcrete d (List.mem_cons_of_mem c hd)
    have hn' : code.length ≤ n := by simpa using hn
    have hc := hplain c List.mem_cons_self
    have hlook := lookup_of_tables htables c
    cases hc with
    | inert hi =>
      rw [hi.lookup .infer] at hlook
      have hstep : step (.quotation (c :: code) :: data) env =
          (.ok (.quotation code :: c :: data), env) := by
        simp only [step, hlook]
      rw [runWithin_succ_ok n rfl hstep] at h
      have hdata' : ∀ d ∈ c :: data, d.IsInferred := by
        intro d hd
        rcases List.mem_cons.mp hd with rfl | hd
        · exact .pushed (.inert hi) (hconcrete d List.mem_cons_self)
        · exact hdata d hd
      obtain ⟨final, rfl, hrun⟩ := ih hrest hrest' hdata' htables hn' h
      exact ⟨final, rfl, .push hi hrun⟩
    | @word name op hw =>
      rw [show Mode.infer.environment.lookup (.symbol name) = _ from hw.resolve_declared] at hlook
      cases hr : applyDeclared name op.signature data env with
      | mk r env₁ =>
        cases r with
        | error e =>
          have hstep : step (.quotation (.symbol name :: code) :: data) env = (.error e, env₁) := by
            simp only [step, hlook, Instruction.apply, hr]
          rw [runWithin_succ_error n rfl hstep] at h
          cases h
        | ok data' =>
          -- the names handed out are all that has changed in the environment
          obtain ⟨u⟩ := applyDeclared_use hw hdata hr
          have hnext : NoContinuation data' :=
            fun d hd more => (u.inferred d hd).ne_continuation more
          have hstep : step (.quotation (.symbol name :: code) :: data) env =
              (.ok (.quotation code :: data'), env₁) := by
            simp only [step, hlook, Instruction.apply, hr, splice_noContinuation hnext]
          rw [runWithin_succ_ok n rfl hstep] at h
          obtain ⟨final, rfl, hrun⟩ := ih hrest hrest' u.inferred
            ((tables_applyDeclared hr).trans htables) hn' h
          exact ⟨final, rfl, .use hw u hrun⟩

namespace InferenceRun

/-! ### What a run keeps -/

/-- What is needed is never forgotten, only added to. -/
theorem needs (h : InferenceRun code data final) :
    ∃ pending, needsOf final = needsOf data ++ pending := by
  induction h with
  | done data => exact ⟨[], (List.append_nil _).symm⟩
  | push hc h ih =>
    obtain ⟨pending, hpending⟩ := ih
    rw [needsOf_cons, (Cell.noted_of_value (Cell.IsPlain.inert hc).isNote).1,
      List.append_nil] at hpending
    exact ⟨pending, hpending⟩
  | use hw u h ih =>
    obtain ⟨pending, hpending⟩ := ih
    rw [u.needs, List.append_assoc] at hpending
    exact ⟨u.missing ++ pending, hpending⟩

/-- What is pinned stays pinned. -/
theorem keeps (h : InferenceRun code data final) {e : String × Cell} (he : e ∈ pinnedOf data) :
    e ∈ pinnedOf final := by
  induction h with
  | done data => exact he
  | push hc h ih =>
    obtain ⟨c, hc, hec⟩ := mem_pinnedOf.mp he
    exact ih (mem_pinnedOf.mpr ⟨c, List.mem_cons_of_mem _ hc, hec⟩)
  | use hw u h ih => exact ih (u.keeps e he)

/-- What a run leaves on the data. -/
theorem inferred (h : InferenceRun code data final) (hconcrete : ∀ c ∈ code, c.IsConcrete)
    (hdata : ∀ c ∈ data, c.IsInferred) : ∀ c ∈ final, c.IsInferred := by
  induction h with
  | done data => exact hdata
  | push hc h ih =>
    refine ih (fun d hd => hconcrete d (List.mem_cons_of_mem _ hd)) fun d hd => ?_
    rcases List.mem_cons.mp hd with rfl | hd
    · exact .pushed (.inert hc) (hconcrete d List.mem_cons_self)
    · exact hdata d hd
  | use hw u h ih => exact ih (fun d hd => hconcrete d (List.mem_cons_of_mem _ hd)) u.inferred

end InferenceRun

/-! ### Side by side with a strict run -/

/-- A value is what an inferred cell shows: the same cell of the program, or one of the type that
the cell denotes. -/
def Realizes (program : List Cell) (types : String → TypeTag) (c v : Cell) : Prop :=
  (v = c ∧ c ∈ program) ∨ (c.IsTerm ∧ denotes types c = v.valueType)

/-- An input that was found for a cell denotes the type of what realizes the cell. -/
theorem Realizes.denotes_of_foundBy (hconcrete : ∀ c ∈ program, c.IsConcrete) {name : String}
    {r c v : Cell} (hfound : FoundBy name types r c) (h : Realizes program types c v) :
    denotes types r = v.valueType := by
  obtain ⟨actual, hactual, hsame⟩ := hfound
  rw [hsame]
  rcases h with ⟨rfl, hmem⟩ | ⟨hterm, hv⟩
  · obtain ⟨htype, hvar⟩ := hconcrete v hmem
    unfold Cell.typeFor at hactual
    split at hactual
    · exact absurd rfl (htype _)
    · exact absurd (Cell.Mentions.var _) (hvar _)
    · split at hactual
      · rename_i tag htag
        cases hactual
        exact htag.symm
      · cases hactual
  · rw [← hv]
    cases hterm with
    | type tag => cases hactual; rfl
    | var w => cases hactual; rfl

namespace DeclaredUse

variable {name : String} {op : Primitive} {data' : Stack}

/-- What a use takes has the types that the stack effect asks for. -/
theorem operands_denoted (u : DeclaredUse name op data data') (hw : IsWord name op)
    (hconcrete : ∀ c ∈ program, c.IsConcrete) (hpins : Models types u.pins) {taken given : Stack}
    (htaken : List.Forall₂ (Realizes program types) (valuesOf u.front) taken)
    (hgiven : Denoted types u.missing given) :
    Denoted (Substitution.pull types u.renames) op.signature.consumes (taken ++ given) := by
  have hfound : Denoted types u.found taken :=
    forall₂_comp (fun _ _ _ hf hr => hr.denotes_of_foundBy hconcrete hf) (u.foundBy types hpins)
      htaken
  have hall : Denoted types (op.signature.consumes.map u.renames.substitute) (taken ++ given) := by
    rw [u.inputs]
    exact forall₂_append hfound hgiven
  rw [denoted_iff] at hall ⊢
  rw [← hall, List.map_map]
  refine List.map_congr_left fun r hr => ?_
  exact (Substitution.denotes_substitute types u.renames_ofTerms
    (hw.isTerm_signature (List.mem_append_left _ hr))).symm

/-- What the word leaves realizes what the use leaves. -/
theorem results_realize (u : DeclaredUse name op data data') (hw : IsWord name op)
    (program : List Cell) (hpins : Models types u.pins) {operands results : Stack}
    (hoperands : Denoted (Substitution.pull types u.renames) op.signature.consumes operands)
    (hr : (op.action name).apply name operands = .ok results) :
    List.Forall₂ (Realizes program types)
      (op.signature.produces.map fun r => u.pins.substitute (u.renames.substitute r)) results := by
  have hterms : ∀ r ∈ op.signature.produces, r.IsTerm := fun r hr =>
    hw.isTerm_signature (List.mem_append_right _ hr)
  have hboth := (List.forall₂_and_left _ _).mpr ⟨hterms, hw.results_denoted hoperands hr⟩
  rw [List.forall₂_map_left_iff]
  refine hboth.imp fun r v ⟨hterm, hv⟩ => .inr ?_
  have hrenamed := Substitution.substitute_isTerm u.renames_ofTerms hterm
  refine ⟨Substitution.substitute_isTerm u.pins_ofTerms hrenamed, ?_⟩
  rw [hpins.denotes_substitute u.pins_ofTerms hrenamed,
    Substitution.denotes_substitute types u.renames_ofTerms hterm, hv]

end DeclaredUse

namespace InferenceRun

/-- **A strict run beside an inference run.** It does not complain about the number of cells, and if
it succeeds, what it leaves realizes what inference leaves. -/
theorem sound (h : InferenceRun code data final) (hcode : ∀ c ∈ code, c ∈ program)
    (hconcrete : ∀ c ∈ program, c.IsConcrete) (hmodels : Models types (pinnedOf final))
    {values given : Stack} {pending : List Cell}
    (hvalues : List.Forall₂ (Realizes program types) (valuesOf data) values)
    (hneeds : needsOf final = needsOf data ++ pending) (hgiven : Denoted types pending given)
    (beneath : Stack) :
    (∀ instruction expected found, strictRun code (values ++ (given ++ beneath)) ≠
        .error (.arity instruction expected found)) ∧
      ∀ out, strictRun code (values ++ (given ++ beneath)) = .ok out →
        ∃ outs, out = outs ++ beneath ∧
          List.Forall₂ (Realizes program types) (valuesOf final) outs := by
  induction h generalizing values given pending with
  | done data =>
    obtain rfl : pending = [] := by simpa using hneeds
    cases hgiven
    refine ⟨fun _ _ _ => nofun, fun out hout => ?_⟩
    cases hout
    exact ⟨values, rfl, hvalues⟩
  | @push c code data final hc h ih =>
    rw [strictRun_inert hc]
    have hnote := (Cell.IsPlain.inert hc).isNote
    have hvalues' : List.Forall₂ (Realizes program types) (valuesOf (c :: data)) (c :: values) := by
      rw [valuesOf_cons_value hnote]
      exact .cons (.inl ⟨rfl, hcode c List.mem_cons_self⟩) hvalues
    have hneeds' : needsOf final = needsOf (c :: data) ++ pending := by
      rw [needsOf_cons, (Cell.noted_of_value hnote).1, List.append_nil]
      exact hneeds
    exact ih (fun d hd => hcode d (List.mem_cons_of_mem _ hd)) hmodels hvalues' hneeds' hgiven
  | @use name op code data data' final hw u h ih =>
    -- the pins of this use are among those that the types make true
    have hpins : Models types u.pins := fun e he => hmodels e (h.keeps (u.pinned e he))
    -- part of what is still to be given is what this use misses
    obtain ⟨later, hlater⟩ := h.needs
    obtain rfl : pending = u.missing ++ later := by
      rw [hlater, u.needs, List.append_assoc] at hneeds
      exact (List.append_cancel_left hneeds).symm
    obtain ⟨given, given', rfl, hmissing, hgiven'⟩ := forall₂_append_left hgiven
    have hsplit := u.split
    rw [hsplit, valuesOf_append] at hvalues
    obtain ⟨taken, kept, rfl, htaken, hkept⟩ := forall₂_append_left hvalues
    have hoperands := u.operands_denoted hw hconcrete hpins htaken hmissing
    -- inputs are missing only if nothing is kept, so the operands of the word lie together
    have hstack : (taken ++ kept) ++ (given ++ given' ++ beneath) =
        (taken ++ given) ++ (kept ++ (given' ++ beneath)) := by
      rcases u.exhausted with hnone | hrest
      · rw [hnone] at hmissing
        cases hmissing
        simp
      · rw [hrest] at hkept
        cases hkept
        simp
    have hlen : (taken ++ given).length = (op.action name).inputs.length := by
      rw [← hoperands.length_eq, hw.length_consumes]
    rw [hstack, strictRun_cons, strictStep_word hw, Action.apply_append _ hlen]
    cases hr : (op.action name).apply name (taken ++ given) with
    | error e =>
      refine ⟨fun instruction expected found he => ?_, fun out hout => nomatch hout⟩
      cases he
      exact hw.apply_ne_arity (by rw [hlen, hw.length_inputs_action]) _ _ _ hr
    | ok results =>
      have hresults := u.results_realize hw program hpins hoperands hr
      have hvalues' : List.Forall₂ (Realizes program types) (valuesOf data') (results ++ kept) := by
        rw [u.values]
        exact forall₂_append hresults hkept
      have hnext := ih (fun d hd => hcode d (List.mem_cons_of_mem _ hd)) hmodels hvalues' hlater
        hgiven'
      rw [List.append_assoc] at hnext
      exact hnext

/-- **A strict run that succeeds had what inference asks for.** -/
theorem needs_le (h : InferenceRun code data final) {stack out : Stack} {extra : Nat}
    (hlen : stack.length = (valuesOf data).length + extra) (hok : strictRun code stack = .ok out) :
    (needsOf final).length ≤ (needsOf data).length + extra := by
  induction h generalizing stack extra with
  | done data => exact Nat.le_add_right _ _
  | @push c code data final hc h ih =>
    rw [strictRun_inert hc] at hok
    have hnote := (Cell.IsPlain.inert hc).isNote
    have hlen' : (c :: stack).length = (valuesOf (c :: data)).length + extra := by
      rw [valuesOf_cons_value hnote, List.length_cons, List.length_cons, hlen]
      omega
    have hle := ih hlen' hok
    rwa [needsOf_cons, (Cell.noted_of_value hnote).1, List.append_nil] at hle
  | @use name op code data data' final hw u h ih =>
    rw [strictRun_cons, strictStep_word hw] at hok
    obtain ⟨next, hnext, hrest⟩ := bind_eq_ok_iff.mp hok
    obtain ⟨henough, hcount⟩ := hw.length_results hnext
    -- how many inputs were found, and how many values there are before and after
    have hinputs : op.signature.consumes.length = u.found.length + u.missing.length := by
      rw [← List.length_append, ← u.inputs, List.length_map]
    have hbefore : (valuesOf data).length = u.found.length + (valuesOf u.rest).length := by
      conv_lhs => rw [u.split, valuesOf_append, List.length_append, ← u.length]
    have hafter : (valuesOf data').length =
        op.signature.produces.length + (valuesOf u.rest).length := by
      rw [u.values, List.length_append, List.length_map]
    have hnone : u.missing.length = 0 ∨ (valuesOf u.rest).length = 0 := by
      rcases u.exhausted with hm | hr
      · exact .inl (by rw [hm]; rfl)
      · exact .inr (by rw [hr]; rfl)
    have hlen' : next.length = (valuesOf data').length + (extra - u.missing.length) := by omega
    have hle := ih hlen' hrest
    rw [u.needs, List.length_append] at hle
    omega

end InferenceRun

/-! ### The stack effect that is shown -/

theorem ofTerms_pinnedOf_of_bindings
    (h : ∀ entries : Substitution, .bindings entries ∈ data → entries.OfTerms) :
    Substitution.OfTerms (pinnedOf data) := by
  intro e he
  obtain ⟨c, hc, hec⟩ := mem_pinnedOf.mp he
  cases c with
  | bindings entries => exact h entries hc e hec
  | _ => cases hec

theorem ofTerms_pinnedOf (h : ∀ c ∈ data, c.IsInferred) :
    Substitution.OfTerms (pinnedOf data) :=
  ofTerms_pinnedOf_of_bindings fun _ he => (h _ he).ofTerms

theorem isTerm_of_mem_needsOf (h : ∀ c ∈ data, c.IsInferred) {r : Cell} (hr : r ∈ needsOf data) :
    r.IsTerm := by
  obtain ⟨c, hc, hrc⟩ := List.mem_flatMap.mp hr
  have hinferred := h c (List.mem_reverse.mp hc)
  cases hinferred with
  | term hterm => rw [(Cell.noted_of_value hterm.isNote).1] at hrc; cases hrc
  | pushed hplain _ => rw [(Cell.noted_of_value hplain.isNote).1] at hrc; cases hrc
  | bindings _ => cases hrc
  | residual hneeds => exact hneeds r hrc

/-- A cell without variables is left as it is. -/
theorem Cell.IsConcrete.substitute {c : Cell} (hc : c.IsConcrete) (θ : Substitution) :
    θ.substitute c = c := by
  rw [Substitution.substitute_eq_mapVars,
    Cell.mapVars_congr c fun v hv => absurd hv (hc.2 v), Cell.mapVars_self]

/-- What a cell realizes by way of a substitution, it realizes once that is carried out. -/
theorem Realizes.substitute {θ : Substitution} (hθ : θ.OfTerms)
    (hconcrete : ∀ c ∈ program, c.IsConcrete) {c v : Cell}
    (h : Realizes program (Substitution.pull types θ) c v) :
    Realizes program types (θ.substitute c) v := by
  rcases h with ⟨rfl, hmem⟩ | ⟨hterm, hv⟩
  · rw [(hconcrete v hmem).substitute]
    exact .inl ⟨rfl, hmem⟩
  · refine .inr ⟨Substitution.substitute_isTerm hθ hterm, ?_⟩
    rw [Substitution.denotes_substitute types hθ hterm, hv]

/-- The stack effect that a state shows, whatever code is pending. -/
theorem signatureOf_quotation (code : List Cell) (final : Stack) :
    signatureOf (.quotation code :: final) = (unifyBindings (pinnedOf final) []).map fun θ =>
      ⟨(needsOf final).map θ.substitute, (valuesOf final).map θ.substitute⟩ := by
  have hpinned :
      unifyBindings ((dataOf (.quotation code :: final)).reverse.flatMap Cell.pinned) [] =
        unifyBindings (pinnedOf final) [] := rfl
  simp only [signatureOf, hpinned]
  cases unifyBindings (pinnedOf final) [] with
  | error e => rfl
  | ok θ => rfl

/-- A successful inference is a run, with a substitution that all its pins unify to. -/
theorem infer_eq_ok {budget : Option Nat} (hplain : ∀ c ∈ program, c.IsPlain)
    (hconcrete : ∀ c ∈ program, c.IsConcrete) (hbudget : program.length ≤ stepLimit budget)
    {effect : Signature} {env : Environment}
    (h : infer budget [.quotation program] Mode.infer.environment = (.ok effect, env)) :
    ∃ final θ, InferenceRun program [] final ∧ unifyBindings (pinnedOf final) [] = .ok θ ∧
      effect.consumes = (needsOf final).map θ.substitute ∧
      effect.produces = (valuesOf final).map θ.substitute := by
  unfold infer at h
  cases hrun : run budget [.quotation program] Mode.infer.environment with
  | mk r env₁ =>
    cases r with
    | error e => rw [hrun] at h; cases h
    | ok state =>
      obtain ⟨final, rfl, hfinal⟩ := runWithin_inference hplain hconcrete
        (fun c hc => absurd hc List.not_mem_nil) rfl hbudget hrun
      simp only [hrun, signatureOf_quotation] at h
      cases hθ : unifyBindings (pinnedOf final) [] with
      | error e => rw [hθ] at h; cases h
      | ok θ =>
        rw [hθ] at h
        cases h
        exact ⟨final, θ, hfinal, hθ, rfl, rfl⟩

/-- **Soundness of inference.** Take a program of literals, free symbols and words, without a type
or a variable in it, whose inferred stack effect is `consumes` and `produces`, and a stack on which
no cell asks to be run. The budgets only have to let every cell of the program run.

If the stack has at least as many cells as are consumed, then for all types of the variables under
which `consumes` matches the types of the top cells, the strict run does not complain about the
number of cells; and if it succeeds, it leaves what was beneath those cells alone, under one cell
for each of `produces`: the very cell of the program that is shown, or one of the type that is
shown.

On a stack with fewer cells than are consumed, the strict run fails. -/
theorem infer_sound (hplain : ∀ c ∈ program, c.IsPlain) (hconcrete : ∀ c ∈ program, c.IsConcrete)
    {budget budget' : Option Nat} (hbudget : program.length ≤ stepLimit budget)
    (hbudget' : program.length ≤ stepLimit budget') {consumes produces : Stack} {env : Environment}
    (hinfer : infer budget [.quotation program] Mode.infer.environment =
      (.ok ⟨consumes, produces⟩, env))
    {stack : Stack} (hstack : NoContinuation stack) :
    (consumes.length ≤ stack.length → ∀ types : String → TypeTag,
      Denoted types consumes (stack.take consumes.length) →
      (∀ instruction expected found,
        (run budget' (.quotation program :: stack) Mode.strict.environment).1 ≠
          .error (.arity instruction expected found)) ∧
      ∀ state, (run budget' (.quotation program :: stack) Mode.strict.environment).1 = .ok state →
        ∃ results, state = .quotation [] :: (results ++ stack.drop consumes.length) ∧
          List.Forall₂ (Realizes program types) produces results) ∧
    (stack.length < consumes.length →
      ∃ e, (run budget' (.quotation program :: stack) Mode.strict.environment).1 = .error e) := by
  obtain ⟨final, θ, hrun, hθ, hconsumes, hproduces⟩ :=
    infer_eq_ok hplain hconcrete hbudget hinfer
  simp only at hconsumes hproduces
  have hinferred := hrun.inferred hconcrete fun c hc => absurd hc List.not_mem_nil
  have hpinned := ofTerms_pinnedOf hinferred
  have hterms := (unifyBindings_terms hpinned Substitution.ofTerms_nil hθ).1
  have hlen : consumes.length = (needsOf final).length := by rw [hconsumes, List.length_map]
  have hstrict : (run budget' (.quotation program :: stack) Mode.strict.environment).1 =
      (strictRun program stack).map (.quotation [] :: ·) := by
    rw [run, runWithin_strict hplain hstack hbudget']
  rw [hstrict]
  constructor
  · intro _ types hmatch
    -- the types that the variables have by way of the pins make every pin true
    have hgiven : Denoted (Substitution.pull types θ) (needsOf final)
        (stack.take consumes.length) := by
      rw [denoted_iff] at hmatch ⊢
      rw [← hmatch, hconsumes, List.map_map]
      refine List.map_congr_left fun r hr => ?_
      exact (Substitution.denotes_substitute types hterms
        (isTerm_of_mem_needsOf hinferred hr)).symm
    have hsound := hrun.sound (fun c hc => hc) hconcrete (models_pull hpinned hθ types) .nil rfl
      hgiven (stack.drop consumes.length)
    rw [List.nil_append, List.take_append_drop] at hsound
    refine ⟨fun instruction expected found he => ?_, fun state hstate => ?_⟩
    · cases hr : strictRun program stack with
      | error e =>
        rw [hr] at he
        cases he
        exact hsound.1 _ _ _ hr
      | ok out => rw [hr] at he; cases he
    · obtain ⟨out, hout, rfl⟩ := map_eq_ok_iff.mp hstate
      obtain ⟨results, rfl, hresults⟩ := hsound.2 out hout
      refine ⟨results, rfl, ?_⟩
      rw [hproduces, List.forall₂_map_left_iff]
      exact hresults.imp fun c v h => h.substitute hterms hconcrete
  · intro hshort
    cases hr : strictRun program stack with
    | error e => exact ⟨e, rfl⟩
    | ok out =>
      have hle := hrun.needs_le (Nat.zero_add _).symm hr
      simp only [needsOf_nil, List.length_nil, Nat.zero_add] at hle
      omega

/-- The theorem at a sum of two cells from outside that is then doubled, with a text above: the
variable stands for the type of both, the text is shown as it is, and one cell is not enough. -/
theorem infer_sound_doubled_sum :
    (infer none [.quotation [.symbol "+", .symbol "dup", .text "x"]] Mode.infer.environment).1 =
        .ok ⟨[.var "n_0", .var "n_0"], [.text "x", .var "n_0", .var "n_0"]⟩ ∧
      (∀ state, (run none [.quotation [.symbol "+", .symbol "dup", .text "x"], .int 3, .int 2,
          .bool true] Mode.strict.environment).1 = .ok state →
        ∃ results, state = .quotation [] :: (results ++ [.bool true]) ∧
          List.Forall₂ (Realizes [.symbol "+", .symbol "dup", .text "x"] fun _ => .int)
            [.text "x", .var "n_0", .var "n_0"] results) ∧
      ∃ e, (run none [.quotation [.symbol "+", .symbol "dup", .text "x"], .int 3]
        Mode.strict.environment).1 = .error e := by
  have hplain : ∀ c ∈ [Cell.symbol "+", .symbol "dup", .text "x"], c.IsPlain := by
    intro c hc
    simp only [List.mem_cons, List.not_mem_nil, or_false] at hc
    rcases hc with rfl | rfl | rfl
    · exact .word .add
    · exact .word .dup
    · exact .inert (.literal rfl)
  have hconcrete : ∀ c ∈ [Cell.symbol "+", .symbol "dup", .text "x"], c.IsConcrete := by
    intro c hc
    simp only [List.mem_cons, List.not_mem_nil, or_false] at hc
    rcases hc with rfl | rfl | rfl <;> exact ⟨fun _ => nofun, fun _ => nofun⟩
  have hbudget : [Cell.symbol "+", .symbol "dup", .text "x"].length ≤ stepLimit none := by decide
  have hinfer : infer none [.quotation [.symbol "+", .symbol "dup", .text "x"]]
      Mode.infer.environment =
        (.ok ⟨[.var "n_0", .var "n_0"], [.text "x", .var "n_0", .var "n_0"]⟩,
          { Mode.infer.environment with names := ⟨2⟩ }) := rfl
  have hstack : NoContinuation [.int 3, .int 2, .bool true] :=
    noContinuation_of_valueType (by decide)
  have hshort : NoContinuation [.int 3] := noContinuation_of_valueType (by decide)
  refine ⟨by rw [hinfer], ?_, ?_⟩
  · have hsound := (infer_sound hplain hconcrete hbudget hbudget hinfer hstack).1 (by decide)
      (fun _ => .int) (.cons rfl (.cons rfl .nil))
    exact hsound.2
  · exact (infer_sound hplain hconcrete hbudget hbudget hinfer hshort).2 (by decide)

end Restack
