import Restack.Proofs.Check
import Restack.Proofs.Inheritance

/-!
# Lenient runs extend strict runs

A word of the lenient vocabulary is the strict word behind an operand check. Where the
strict word succeeds on operands that are values, each of them has a type that the check
admits, so the check hands over to the strict word. The control words are the same in both
modes, and a name that the program binds hides the word of that name in both. So a strict
run that succeeds is also a lenient run, as long as its words only ever meet values.

## Main definitions

* `Instruction.unchecked` — an instruction without the check in front of it.
* `Environment.Relaxes` — an environment that differs from another in operand checks only.
* `operandsAreValues` — the next word of a state meets values.

## Main results

* `examine_of_apply` — a check accepts values on which the strict operation succeeds.
* `step_relaxes`, `runWithin_relaxes` — a strict step, and a strict run, in the lenient
  environment.
* `lenient_extends_strict` — the lenient run passes through the states of the strict run.
-/

namespace Restack

variable {P : Cell → Prop} {op op' : Instruction} {name : String} {prim : Primitive}
  {data data' state next last : Stack} {strict strict' lenient : Environment}

/-! ### Operands that the check accepts -/

/-- A value that can be read as an operand has a type that its kind admits. -/
theorem Kind.meets_of_read {k : Kind} {c : Cell} {v : k.Value} (h : k.read? c = some v)
    (hvalue : c.valueType.isSome = true) : c.meets false k.tag = true := by
  cases k with
  | any =>
    obtain ⟨tag, htag⟩ := Option.isSome_iff_exists.mp hvalue
    simp [Cell.meets, Cell.judgedType, htag, Kind.tag, TypeTag.any_admits]
  | number =>
    cases c with
    | int v => rfl
    | float v => rfl
    | double v => rfl
    | _ => cases h
  | int =>
    cases c with
    | int v => rfl
    | _ => cases h
  | double =>
    cases c with
    | double v => rfl
    | _ => cases h
  | bool =>
    cases c with
    | bool v => rfl
    | _ => cases h
  | text =>
    cases c with
    | text v => rfl
    | _ => cases h
  | quotation =>
    cases c with
    | quotation code => rfl
    | _ => cases h

/-- The operands of an operation that succeeds meet its requirements, if they are values. -/
theorem Action.exists_operands {action : Action} (h : action.apply name data = .ok data')
    (hvalues : ∀ c ∈ data.take action.inputs.length, c.valueType.isSome = true) :
    ∃ operands rest, data = operands ++ rest ∧
      List.Forall₂ (fun required c => Cell.meets false required c = true) action.inputs
        operands := by
  cases action with
  | nullary results => exact ⟨[], data, rfl, .nil⟩
  | unary x f =>
    obtain ⟨a, rest, u, out, rfl, ha, -, -⟩ := Action.apply_unary_iff.mp h
    simp only [Action.inputs, List.length_cons, List.length_nil, List.take_succ_cons,
      List.take_zero, List.forall_mem_cons] at hvalues
    exact ⟨[a], rest, rfl, .cons (Kind.meets_of_read ha hvalues.1) .nil⟩
  | binary x y f =>
    obtain ⟨b, a, rest, v, u, out, rfl, hb, ha, -, -⟩ := Action.apply_binary_iff.mp h
    simp only [Action.inputs, List.length_cons, List.length_nil, List.take_succ_cons,
      List.take_zero, List.forall_mem_cons] at hvalues
    exact ⟨[b, a], rest, rfl, .cons (Kind.meets_of_read hb hvalues.1)
      (.cons (Kind.meets_of_read ha hvalues.2.1) .nil)⟩
  | trinary x y z f =>
    obtain ⟨c, b, a, rest, w, v, u, out, rfl, hc, hb, ha, -, -⟩ := Action.apply_trinary_iff.mp h
    simp only [Action.inputs, List.length_cons, List.length_nil, List.take_succ_cons,
      List.take_zero, List.forall_mem_cons] at hvalues
    exact ⟨[c, b, a], rest, rfl, .cons (Kind.meets_of_read hc hvalues.1)
      (.cons (Kind.meets_of_read hb hvalues.2.1)
        (.cons (Kind.meets_of_read ha hvalues.2.2.1) .nil))⟩

/-- A primitive asks for the same operands under every name. -/
theorem Primitive.inputs_action (prim : Primitive) (name : String) :
    (prim.action name).inputs = prim.inputs := by
  cases prim <;> rfl

/-- **A check accepts values on which the strict operation succeeds.** -/
theorem examine_of_apply (h : (prim.action name).apply name data = .ok data')
    (hvalues : ∀ c ∈ data.take prim.inputs.length, c.valueType.isSome = true) :
    ∃ operands rest, examine false prim.inputs data = .accepted operands rest := by
  rw [← prim.inputs_action name] at hvalues ⊢
  obtain ⟨operands, rest, rfl, hmeet⟩ := Action.exists_operands h hvalues
  exact ⟨operands, rest, examine_accepted hmeet⟩

/-! ### Environments that differ in checks -/

/-- An instruction without the check in front of it. -/
def Instruction.unchecked : Instruction → Instruction
  | .checked _ _ inner => inner
  | op => op

/-- The lenient answer for a name, beside the strict one: the same, or a word behind its check. -/
inductive Answers : Option Instruction → Option Instruction → Prop
  /-- The same instruction, or none. -/
  | same (answer : Option Instruction) : Answers answer answer
  /-- A word behind its check. -/
  | word {name : String} {prim : Primitive} (hw : IsWord name prim) :
    Answers (some (.strict name prim)) (some (.checked prim.inputs false (.strict name prim)))

theorem Answers.eq_none {answer : Option Instruction} (h : Answers none answer) :
    answer = none := by
  cases h
  rfl

theorem Answers.exists_some {answer : Option Instruction} (h : Answers (some op) answer) :
    ∃ op', answer = some op' := by
  cases h with
  | same => exact ⟨op, rfl⟩
  | word hw => exact ⟨_, rfl⟩

/-- An environment that answers for every name as another does, but for checks in front of words. -/
def Environment.Relaxes (lenient strict : Environment) : Prop :=
  ∀ name, Answers (strict.resolve? name) (lenient.resolve? name)

theorem relaxes_initial : Mode.nonStrict.environment.Relaxes Mode.strict.environment := by
  intro name
  by_cases hword : ∃ prim, IsWord name prim
  · obtain ⟨prim, hw⟩ := hword
    rw [hw.resolve_strict, hw.resolve_lenient]
    exact .word hw
  · -- the lenient table knows words only
    have hnone : Vocabulary.lenient.get? name = none := by
      cases hget : Vocabulary.lenient.get? name with
      | none => rfl
      | some op =>
        obtain ⟨prim, hw, -⟩ := lenient_cases hget
        exact absurd ⟨prim, hw⟩ hword
    have hsame : Mode.nonStrict.environment.resolve? name =
        Mode.strict.environment.resolve? name := by
      simp only [Mode.environment, Environment.resolve?, List.findSome?_cons, hnone]
    rw [hsame]
    exact .same _

/-- Two environments still differ in checks only once both have bound a name. -/
theorem Environment.Relaxes.define (h : lenient.Relaxes strict) (name : String)
    (op : Instruction) : (lenient.define name op).Relaxes (strict.define name op) := by
  intro other
  rw [resolve?_define, resolve?_define]
  split
  · exact .same _
  · exact h other

theorem Environment.Relaxes.lookup (h : lenient.Relaxes strict) (c : Cell) :
    Answers (strict.lookup c) (lenient.lookup c) := by
  cases c with
  | symbol name => exact h name
  | _ => exact .same _

/-- Without the checks, the two environments give the same answers. -/
theorem Environment.Relaxes.unchecked (hP : Inherited P)
    (henv : GrownFrom P Mode.strict.environment strict) (h : lenient.Relaxes strict)
    (name : String) :
    (lenient.resolve? name).map Instruction.unchecked = strict.resolve? name := by
  have hanswers := h name
  cases hstrict : strict.resolve? name with
  | none =>
    rw [hstrict] at hanswers
    rw [hanswers.eq_none]
    rfl
  | some op =>
    have hkind : op.IsStrict P := henv.isStrict hP (hP.symbol name) hstrict
    rw [hstrict] at hanswers
    generalize lenient.resolve? name = answer at hanswers ⊢
    cases hanswers with
    | same => cases hkind <;> rfl
    | word hw => rfl

/-! ### Steps and runs -/

/-- Whether the next cell of a state, if it stands for one of the words, meets operands that are
values. -/
def operandsAreValues (env : Environment) : Stack → Bool
  | .quotation (c :: _) :: data =>
    match env.lookup c with
    | some (.strict name op) =>
      !(Cell.symbol name).isWord ||
        (data.take op.inputs.length).all fun d => d.valueType.isSome
    | _ => true
  | _ => true

theorem valueType_of_operandsAreValues {c : Cell} {code : List Cell} (hw : IsWord name prim)
    (hop : strict.lookup c = some (.strict name prim))
    (h : operandsAreValues strict (.quotation (c :: code) :: data) = true) :
    ∀ d ∈ data.take prim.inputs.length, d.valueType.isSome = true := by
  simp only [operandsAreValues, hop, hw.isWord, Bool.not_true, Bool.false_or] at h
  exact List.all_eq_true.mp h

/-- A control word does the same in both environments. -/
theorem Control.Does.relaxes {word : Control} (h : word.Does strict data data' strict')
    (hrel : lenient.Relaxes strict) :
    ∃ lenient', word.Does lenient data data' lenient' ∧ lenient'.Relaxes strict' := by
  cases h with
  | branch b chosen otherwise rest => exact ⟨lenient, .branch b chosen otherwise rest, hrel⟩
  | loop cond body rest => exact ⟨lenient, .loop cond body rest, hrel⟩
  | assign hname value => exact ⟨_, .assign hname value data', hrel.define _ _⟩
  | assignRecorded hname value rest =>
    exact ⟨_, .assignRecorded hname value rest, hrel.define _ _⟩

/-- **What a strict instruction does, its lenient answer does.** -/
theorem Instruction.IsStrict.apply_relaxes (h : op.IsStrict P)
    (hrel : lenient.Relaxes strict) (hanswers : Answers (some op) (some op'))
    (hvalues : ∀ name prim, IsWord name prim → op = .strict name prim →
      ∀ d ∈ data.take prim.inputs.length, d.valueType.isSome = true)
    (happly : op.apply data strict = (.ok data', strict')) :
    ∃ lenient', op'.apply data lenient = (.ok data', lenient') ∧ lenient'.Relaxes strict' := by
  cases hanswers with
  | same =>
    cases h with
    | word hw =>
      obtain ⟨hr, rfl⟩ := Prod.mk.inj happly
      exact ⟨lenient, Prod.ext hr rfl, hrel⟩
    | call =>
      obtain ⟨hr, rfl⟩ := Prod.mk.inj happly
      exact ⟨lenient, Prod.ext hr rfl, hrel⟩
    | control word =>
      obtain ⟨lenient', hdoes, hrel'⟩ := (Control.apply_iff.mp happly).relaxes hrel
      exact ⟨lenient', Control.apply_iff.mpr hdoes, hrel'⟩
    | defined name hvalue =>
      cases happly
      exact ⟨lenient, rfl, hrel⟩
  | @word name prim hw =>
    obtain ⟨hr, rfl⟩ := Prod.mk.inj happly
    obtain ⟨operands, rest, haccept⟩ := examine_of_apply hr (hvalues name prim hw rfl)
    refine ⟨lenient, ?_, hrel⟩
    simp only [Instruction.apply, haccept]
    exact Prod.ext hr rfl

/-- **A strict step whose word meets values is a lenient step.** -/
theorem step_relaxes (hP : Inherited P)
    (henv : Environment.GrownFrom P Mode.strict.environment strict)
    (hrel : lenient.Relaxes strict) (hstate : StateOf P state)
    (hvalues : operandsAreValues strict state = true)
    (hstep : step state strict = (.ok next, strict')) :
    ∃ lenient', step state lenient = (.ok next, lenient') ∧ lenient'.Relaxes strict' := by
  obtain ⟨code, data, rfl, hcode, hdata⟩ := hstate
  cases step_iff.mp hstep with
  | halted data => exact ⟨lenient, step_iff.mpr (.halted data), hrel⟩
  | @push c hc code data =>
    have hanswers := hrel.lookup c
    rw [hc] at hanswers
    exact ⟨lenient, step_iff.mpr (.push hanswers.eq_none code data), hrel⟩
  | @apply c op hc data left strict' happly code =>
    have hkind := henv.isStrict hP (hcode c List.mem_cons_self) hc
    have hanswers := hrel.lookup c
    rw [hc] at hanswers
    obtain ⟨op', hc'⟩ := hanswers.exists_some
    rw [hc'] at hanswers
    obtain ⟨lenient', happly', hrel'⟩ := hkind.apply_relaxes hrel hanswers
      (fun name prim hw heq => valueType_of_operandsAreValues hw (heq ▸ hc) hvalues) happly
    exact ⟨lenient', step_iff.mpr (.apply hc' happly' code), hrel'⟩

/-- A strict run whose words meet values is a lenient run. -/
theorem runWithin_relaxes (hP : Inherited P) {n : Nat}
    (henv : Environment.GrownFrom P Mode.strict.environment strict)
    (hrel : lenient.Relaxes strict) (hstate : StateOf P state)
    (hrun : runWithin n state strict = (.ok last, strict'))
    (hvalues : ∀ k < n, ∀ s env, runWithin k state strict = (.ok s, env) →
      operandsAreValues env s = true) :
    ∃ lenient', runWithin n state lenient = (.ok last, lenient') ∧ lenient'.Relaxes strict' := by
  induction n generalizing state strict lenient with
  | zero =>
    cases hrun
    exact ⟨lenient, rfl, hrel⟩
  | succ n ih =>
    obtain ⟨next, strict₁, hstep, hrest⟩ := runWithin_succ_iff.mp hrun
    obtain ⟨hnext, henv₁⟩ := step_keeps hP (sustains_strict hP) henv hstate hstep
    obtain ⟨lenient₁, hstep', hrel₁⟩ := step_relaxes hP henv hrel hstate
      (hvalues 0 (Nat.succ_pos n) state strict rfl) hstep
    obtain ⟨lenient', hrun', hrel'⟩ := ih henv₁ hrel₁ hnext hrest fun k hk s env hk' =>
      hvalues (k + 1) (Nat.succ_lt_succ hk) s env
        (runWithin_succ_iff.mpr ⟨next, strict₁, hstep, hk'⟩)
    exact ⟨lenient', runWithin_succ_iff.mpr ⟨next, lenient₁, hstep', hrun'⟩, hrel'⟩

/-- **The lenient vocabulary extends the strict one.** Take a state with code on top and without
instructions that are looked up already. If some steps of its strict run succeed, and each word that
they apply meets operands that are values, then as many steps of its lenient run succeed and pass
through the same states. After them, every name stands for the same instruction in both
environments, but for the check in front of it. -/
theorem lenient_extends_strict {n : Nat} {code : List Cell} {env : Environment}
    (hcode : ∀ c ∈ code, c.NoInstruction) (hdata : ∀ c ∈ data, c.NoInstruction)
    (hrun : runWithin n (.quotation code :: data) Mode.strict.environment = (.ok last, env))
    (hvalues : ∀ k < n, ∀ s env₁,
      runWithin k (.quotation code :: data) Mode.strict.environment = (.ok s, env₁) →
        operandsAreValues env₁ s = true) :
    ∃ env', runWithin n (.quotation code :: data) Mode.nonStrict.environment = (.ok last, env') ∧
      (∀ k ≤ n, (runWithin k (.quotation code :: data) Mode.nonStrict.environment).1 =
        (runWithin k (.quotation code :: data) Mode.strict.environment).1) ∧
      ∀ name, (env'.resolve? name).map Instruction.unchecked = env.resolve? name := by
  have hP := inherited_noInstruction
  have hstate : StateOf Cell.NoInstruction (.quotation code :: data) :=
    ⟨code, data, rfl, hcode, hdata⟩
  obtain ⟨env', hlenient, hrel⟩ := runWithin_relaxes hP .base relaxes_initial hstate hrun hvalues
  obtain ⟨-, henv⟩ := runWithin_keeps hP (sustains_strict hP) .base hstate hrun
  refine ⟨env', hlenient, fun k hk => ?_, hrel.unchecked hP henv⟩
  -- a shorter run is a run of its own
  obtain ⟨mid, env₁, hshort⟩ := exists_runWithin_of_le hrun hk
  obtain ⟨env₂, hshort', -⟩ := runWithin_relaxes hP .base relaxes_initial hstate hshort
    fun j hj => hvalues j (Nat.lt_of_lt_of_le hj hk)
  rw [hshort, hshort']

/-- The program `[swap] "dup" ! 1 2 true [dup -] [] if` binds the name of a word, and takes a branch
that runs what the name is bound to. -/
theorem lenient_extends_strict_rebound_word :
    let program : List Cell :=
      [.quotation [.symbol "swap"], .text "dup", .symbol "!", .int 1, .int 2, .bool true,
        .quotation [.symbol "dup", .symbol "-"], .quotation [], .symbol "if"]
    let rebound := Mode.strict.environment.define "dup"
      (.defined "dup" (.quotation [.symbol "swap"]))
    runWithin 12 [.quotation program] Mode.strict.environment =
        (.ok [.quotation [], .int 1], rebound) ∧
      ∃ env', runWithin 12 [.quotation program] Mode.nonStrict.environment =
          (.ok [.quotation [], .int 1], env') ∧
        ∀ name, (env'.resolve? name).map Instruction.unchecked = rebound.resolve? name := by
  intro program rebound
  have hrun : runWithin 12 [.quotation program] Mode.strict.environment =
      (.ok [.quotation [], .int 1], rebound) := rfl
  have hprogram : ∀ c ∈ program, c.NoInstruction := by
    intro c hc
    simp only [program, List.mem_cons, List.not_mem_nil, or_false] at hc
    rcases hc with rfl | rfl | rfl | rfl | rfl | rfl | rfl | rfl | rfl <;> rfl
  have hcheck : ((List.range 12).all fun k =>
      match runWithin k [.quotation program] Mode.strict.environment with
      | (.ok s, env) => operandsAreValues env s
      | _ => true) = true := rfl
  have hvalues : ∀ k < 12, ∀ s env,
      runWithin k [.quotation program] Mode.strict.environment = (.ok s, env) →
        operandsAreValues env s = true := by
    intro k hk s env hs
    have hk := List.all_eq_true.mp hcheck k (List.mem_range.mpr hk)
    rwa [hs] at hk
  have hdata : ∀ c ∈ ([] : Stack), c.NoInstruction := nofun
  obtain ⟨env', hlenient, -, hnames⟩ := lenient_extends_strict hprogram hdata hrun hvalues
  exact ⟨hrun, env', hlenient, hnames⟩

end Restack
