import Restack.Proofs.Depth
import Restack.Proofs.Environment
import Restack.Proofs.StrictRun

/-!
# Properties that a run hands on

In a strict run every instruction is a word, `call`, a control word or a definition of the
program. None of them makes cells of its own but numbers, truth values, the code of a
loop and the record of an assignment; all else is moved, copied or run. So a property of
cells that these few kinds of cells have, and that code has whenever its quotation has it,
holds for every cell that such a run ever meets.

## Main definitions

* `Control.Does` — what a control word does when it succeeds.
* `Inherited` — a property of cells that a run hands on.
* `Instruction.IsStrict` — the instructions of a strict run.
* `Instruction.Keeps` — an instruction that hands on a property.

## Main results

* `Control.apply_iff` — a control word succeeds exactly as `Control.Does` says.
* `Instruction.IsStrict.keeps` — the instructions of a strict run hand on what is inherited.
* `step_keeps`, `runWithin_keeps` — and so does a step, and a run.
* `inherited_noInstruction` — that no instruction occurs is inherited.
-/

namespace Restack

variable {P : Cell → Prop} {base env env' : Environment} {op : Instruction}
  {code : List Cell} {data data' rest : Stack}

/-! ### What control words do -/

/-- What a control word does to data and environment when it succeeds. -/
inductive Control.Does (env : Environment) : Control → Stack → Stack → Environment → Prop
  /-- One of two branches is chosen. -/
  | branch (b : Bool) (chosen otherwise : Cell) (rest : Stack) :
    Does env .branch (otherwise :: chosen :: .bool b :: rest)
      ((bif b then chosen else otherwise).invoked :: rest) env
  /-- A round of a loop is unrolled. -/
  | loop (cond body : List Cell) (rest : Stack) :
    Does env .loop (.quotation body :: .quotation cond :: rest)
      (.continuation (loopCode cond body) :: rest) env
  /-- A name is bound. -/
  | assign {name : String} {target : Cell} (h : target = .symbol name ∨ target = .text name)
    (value : Cell) (rest : Stack) :
    Does env .assign (target :: value :: rest) rest (env.define name (.defined name value))
  /-- A name is bound, and this is recorded. -/
  | assignRecorded {name : String} {target : Cell}
    (h : target = .symbol name ∨ target = .text name) (value : Cell) (rest : Stack) :
    Does env .assignRecorded (target :: value :: rest)
      (.defer [value, target, .symbol "!"] none :: rest) (env.define name (.defined name value))

theorem branch_eq_ok (h : branch data = .ok data') :
    ∃ b chosen otherwise rest, data = otherwise :: chosen :: .bool b :: rest ∧
      data' = (bif b then chosen else otherwise).invoked :: rest := by
  unfold branch at h
  split at h
  · split at h
    · cases h
      exact ⟨true, _, _, _, rfl, rfl⟩
    · cases h
      exact ⟨false, _, _, _, rfl, rfl⟩
    · cases h
  · cases h

theorem unroll_eq_ok (h : unroll data = .ok data') :
    ∃ cond body rest, data = .quotation body :: .quotation cond :: rest ∧
      data' = .continuation (loopCode cond body) :: rest := by
  unfold unroll at h
  split at h
  · cases h
    exact ⟨_, _, _, rfl, rfl⟩
  · cases h
  · cases h
  · cases h

theorem assignment_eq_ok {a : Assignment} (h : assignment data = .ok a) :
    data = a.target :: a.value :: a.rest ∧
      (a.target = .symbol a.name ∨ a.target = .text a.name) := by
  unfold assignment at h
  split at h
  · split at h
    · cases h
      exact ⟨rfl, .inl rfl⟩
    · cases h
      exact ⟨rfl, .inr rfl⟩
    · cases h
  · cases h

/-- **A control word succeeds exactly as `Control.Does` says.** -/
theorem Control.apply_iff {word : Control} :
    word.apply data env = (.ok data', env') ↔ word.Does env data data' env' := by
  constructor
  · intro h
    cases word with
    | branch =>
      obtain ⟨hr, rfl⟩ := Prod.mk.inj h
      obtain ⟨b, chosen, otherwise, rest, rfl, rfl⟩ := branch_eq_ok hr
      exact .branch b chosen otherwise rest
    | loop =>
      obtain ⟨hr, rfl⟩ := Prod.mk.inj h
      obtain ⟨cond, body, rest, rfl, rfl⟩ := unroll_eq_ok hr
      exact .loop cond body rest
    | assign =>
      cases ha : assignment data with
      | error e => simp [Control.apply, ha] at h
      | ok a =>
        obtain ⟨rfl, hname⟩ := assignment_eq_ok ha
        simp only [Control.apply, ha] at h
        cases h
        exact .assign hname a.value a.rest
    | assignRecorded =>
      cases ha : assignment data with
      | error e => simp [Control.apply, ha] at h
      | ok a =>
        obtain ⟨rfl, hname⟩ := assignment_eq_ok ha
        simp only [Control.apply, ha] at h
        cases h
        exact .assignRecorded hname a.value a.rest
  · intro h
    cases h with
    | branch b chosen otherwise rest => cases b <;> rfl
    | loop cond body rest => rfl
    | assign hname value rest => rcases hname with rfl | rfl <;> rfl
    | assignRecorded hname value rest => rcases hname with rfl | rfl <;> rfl

/-! ### Inherited properties -/

/-- A property of cells that words, control words and definitions hand on. -/
structure Inherited (P : Cell → Prop) : Prop where
  /-- Numbers have it. -/
  number : ∀ n : Number, P n.toCell
  /-- Truth values have it. -/
  bool : ∀ b, P (.bool b)
  /-- Symbols have it. -/
  symbol : ∀ name, P (.symbol name)
  /-- Instructions do not have it. -/
  instruction : ∀ op, ¬ P (.instruction op)
  /-- The code of a quotation that has it has it. -/
  quotation : ∀ {code}, P (.quotation code) → ∀ c ∈ code, P c
  /-- The code of a continuation that has it has it. -/
  continuation : ∀ {code}, P (.continuation code) → ∀ c ∈ code, P c
  /-- No code at all has it. -/
  empty : P (.quotation [])
  /-- Another round of a loop has it if condition and body have it. -/
  again : ∀ {cond body}, P (.quotation cond) → P (.quotation body) →
    P (.quotation (body ++ [.quotation cond, .quotation body, .symbol "while"]))
  /-- The record of an assignment has it if target and value have it. -/
  assignment : ∀ {value target}, P value → P target → P (.defer [value, target, .symbol "!"] none)

/-- What an instruction leaves: cells with a property, on top of them perhaps a request to run code
whose cells have it. -/
def Leaves (P : Cell → Prop) (data : Stack) : Prop :=
  (∀ c ∈ data, P c) ∨
    ∃ code rest, data = .continuation code :: rest ∧ (∀ c ∈ code, P c) ∧ ∀ c ∈ rest, P c

/-- A state with code on top, all of whose cells have a property. -/
def StateOf (P : Cell → Prop) (state : Stack) : Prop :=
  ∃ code data, state = .quotation code :: data ∧ (∀ c ∈ code, P c) ∧ ∀ c ∈ data, P c

/-- What is left is spliced into a state whose cells have the property. -/
theorem Inherited.splice (hP : Inherited P) (hdata : Leaves P data) (hcode : ∀ c ∈ code, P c) :
    StateOf P (splice data code) := by
  -- the code of a continuation on top goes before the pending code
  have hmore : ∀ {more rest}, (∀ c ∈ more, P c) → (∀ c ∈ rest, P c) →
      StateOf P (Restack.splice (.continuation more :: rest) code) := by
    intro more rest hmore hrest
    exact ⟨more ++ code, rest, rfl, List.forall_mem_append.mpr ⟨hmore, hcode⟩, hrest⟩
  rcases hdata with hdata | ⟨more, rest, rfl, hcells, hrest⟩
  · cases data with
    | nil => exact ⟨code, [], rfl, hcode, hdata⟩
    | cons c rest =>
      obtain ⟨hc, hrest⟩ := List.forall_mem_cons.mp hdata
      cases c with
      | continuation more => exact hmore (hP.continuation hc) hrest
      | _ => exact ⟨code, _, rfl, hcode, hdata⟩
  · exact hmore hcells hrest

/-- A value or branch that has the property leaves cells that have it. -/
theorem Inherited.invoked (hP : Inherited P) {value : Cell} (hvalue : P value)
    (hrest : ∀ c ∈ rest, P c) : Leaves P (value.invoked :: rest) := by
  cases value with
  | quotation code => exact .inr ⟨code, rest, rfl, hP.quotation hvalue, hrest⟩
  | _ => exact .inl (List.forall_mem_cons.mpr ⟨hvalue, hrest⟩)

theorem Inherited.loopCode (hP : Inherited P) {cond body : List Cell} (hcond : P (.quotation cond))
    (hbody : P (.quotation body)) : ∀ c ∈ loopCode cond body, P c := by
  refine List.forall_mem_append.mpr ⟨hP.quotation hcond, ?_⟩
  intro c hc
  simp only [List.mem_cons, List.not_mem_nil, or_false] at hc
  rcases hc with rfl | rfl | rfl
  · exact hP.again hcond hbody
  · exact hP.empty
  · exact hP.symbol "if"

/-! ### Instructions that hand on a property -/

/-- An instruction that leaves cells with a property where there were such cells, and binds names
to such cells only. -/
def Instruction.Keeps (P : Cell → Prop) (base : Environment) (op : Instruction) : Prop :=
  ∀ {data data' : Stack} {env env' : Environment}, Environment.GrownFrom P base env →
    (∀ c ∈ data, P c) → op.apply data env = (.ok data', env') →
      Leaves P data' ∧ Environment.GrownFrom P base env'

/-- The instructions of a strict run: the words, `call`, the control words, and what the program
has bound. -/
inductive Instruction.IsStrict (P : Cell → Prop) : Instruction → Prop
  /-- One of the fourteen words. -/
  | word {name : String} {prim : Primitive} (h : IsWord name prim) :
    Instruction.IsStrict P (.strict name prim)
  /-- The word that runs a quotation. -/
  | call : Instruction.IsStrict P (.strict "call" .call)
  /-- A control word. -/
  | control (word : Control) : Instruction.IsStrict P (.control word)
  /-- What the program has bound. -/
  | defined (name : String) {value : Cell} (h : P value) :
    Instruction.IsStrict P (.defined name value)

/-- **The instructions of a strict run hand on what is inherited.** -/
theorem Instruction.IsStrict.keeps (hP : Inherited P) (base : Environment) (h : op.IsStrict P) :
    op.Keeps P base := by
  intro data data' env env' henv hdata happly
  cases h with
  | @word name prim hw =>
    obtain ⟨hr, rfl⟩ := Prod.mk.inj happly
    refine ⟨.inl fun c hc => ?_, henv⟩
    rcases hw.mem_results hr hc with hc | ⟨n, rfl⟩ | ⟨b, rfl⟩
    · exact hdata c hc
    · exact hP.number n
    · exact hP.bool b
  | call =>
    obtain ⟨hr, rfl⟩ := Prod.mk.inj happly
    obtain ⟨a, rest, code, out, rfl, hread, hout, rfl⟩ := Action.apply_unary_iff.mp hr
    cases hout
    obtain ⟨ha, hrest⟩ := List.forall_mem_cons.mp hdata
    cases a with
    | quotation _ =>
      cases hread
      exact ⟨.inr ⟨code, rest, rfl, hP.quotation ha, hrest⟩, henv⟩
    | _ => cases hread
  | control word =>
    cases Control.apply_iff.mp happly with
    | branch b chosen otherwise rest =>
      obtain ⟨hother, hchosen, -, hrest⟩ := by simpa using hdata
      refine ⟨hP.invoked ?_ hrest, henv⟩
      cases b
      · exact hother
      · exact hchosen
    | loop cond body rest =>
      obtain ⟨hbody, hcond, hrest⟩ := by simpa using hdata
      exact ⟨.inr ⟨_, rest, rfl, hP.loopCode hcond hbody, hrest⟩, henv⟩
    | assign hname value rest =>
      obtain ⟨-, hvalue, hrest⟩ := by simpa using hdata
      exact ⟨.inl hrest, henv.define _ hvalue⟩
    | assignRecorded hname value rest =>
      obtain ⟨htarget, hvalue, hrest⟩ := by simpa using hdata
      exact ⟨.inl (List.forall_mem_cons.mpr ⟨hP.assignment hvalue htarget, hrest⟩),
        henv.define _ hvalue⟩
  | defined name hvalue =>
    cases happly
    exact ⟨hP.invoked hvalue hdata, henv⟩

/-- What the strict vocabulary knows is an instruction of a strict run. -/
theorem isStrict_of_get? {name : String} (h : Vocabulary.strict.get? name = some op) :
    op.IsStrict P := by
  rcases strict_cases h with ⟨prim, hw, rfl⟩ | hcontrol
  · exact .word hw
  · simp only [Vocabulary.controlOps, List.mem_cons, List.not_mem_nil, or_false] at hcontrol
    rcases hcontrol with rfl | rfl | rfl | rfl
    · exact .control .branch
    · exact .control .loop
    · exact .call
    · exact .control .assign

/-- What a code cell stands for in a strict run. -/
theorem Environment.GrownFrom.isStrict (hP : Inherited P)
    (henv : GrownFrom P Mode.strict.environment env) {c : Cell} (hc : P c)
    (hop : env.lookup c = some op) : op.IsStrict P := by
  rcases henv.lookup_cases hop with hop | ⟨name, value, hvalue, rfl⟩
  · cases c with
    | symbol name =>
      have hget : Vocabulary.strict.get? name = some op := by
        simpa [Environment.lookup, resolve?, Mode.environment] using hop
      exact isStrict_of_get? hget
    | instruction op => exact absurd hc (hP.instruction op)
    | _ => cases hop
  · exact .defined name hvalue

/-! ### Steps and runs -/

/-- Every instruction that a cell with a property stands for at the beginning hands the property
on. -/
def Environment.Sustains (P : Cell → Prop) (base : Environment) : Prop :=
  ∀ c op, P c → base.lookup c = some op → op.Keeps P base

theorem sustains_strict (hP : Inherited P) : Mode.strict.environment.Sustains P :=
  fun _ _ hc hop => (Environment.GrownFrom.base.isStrict hP hc hop).keeps hP _

/-- **A step hands the property on.** -/
theorem step_keeps (hP : Inherited P) (hbase : base.Sustains P) {state next : Stack}
    (henv : Environment.GrownFrom P base env) (hstate : StateOf P state)
    (hstep : step state env = (.ok next, env')) :
    StateOf P next ∧ Environment.GrownFrom P base env' := by
  obtain ⟨code, data, rfl, hcode, hdata⟩ := hstate
  cases step_iff.mp hstep with
  | halted data => exact ⟨⟨[], data, rfl, hcode, hdata⟩, henv⟩
  | @push c _ code data =>
    obtain ⟨hc, hcode⟩ := List.forall_mem_cons.mp hcode
    exact ⟨⟨code, c :: data, rfl, hcode, List.forall_mem_cons.mpr ⟨hc, hdata⟩⟩, henv⟩
  | @apply c op hop data left env' happly code =>
    obtain ⟨hc, hcode⟩ := List.forall_mem_cons.mp hcode
    have hkeeps : op.Keeps P base := by
      rcases henv.lookup_cases hop with hop | ⟨name, value, hvalue, rfl⟩
      · exact hbase c op hc hop
      · exact (Instruction.IsStrict.defined name hvalue).keeps hP base
    obtain ⟨hleft, henv'⟩ := hkeeps henv hdata happly
    exact ⟨hP.splice hleft hcode, henv'⟩

/-- **A run hands the property on.** -/
theorem runWithin_keeps (hP : Inherited P) (hbase : base.Sustains P) {n : Nat} {state last : Stack}
    (henv : Environment.GrownFrom P base env) (hstate : StateOf P state)
    (hrun : runWithin n state env = (.ok last, env')) :
    StateOf P last ∧ Environment.GrownFrom P base env' := by
  induction n generalizing state env with
  | zero =>
    cases hrun
    exact ⟨hstate, henv⟩
  | succ n ih =>
    obtain ⟨next, env₁, hstep, hrest⟩ := runWithin_succ_iff.mp hrun
    obtain ⟨hnext, henv₁⟩ := step_keeps hP hbase henv hstate hstep
    exact ih henv₁ hnext hrest

/-! ### Cells without instructions -/

/-- **That no instruction occurs is inherited.** -/
theorem inherited_noInstruction : Inherited Cell.NoInstruction where
  number n := by cases n <;> rfl
  bool _ := rfl
  symbol _ := rfl
  instruction _ := nofun
  quotation h := (Cell.everywhere_quotation.mp h).2
  continuation h := (Cell.everywhere_continuation.mp h).2
  empty := rfl
  again := by
    intro cond body hcond hbody
    refine Cell.everywhere_quotation.mpr ⟨rfl, List.forall_mem_append.mpr
      ⟨(Cell.everywhere_quotation.mp hbody).2, ?_⟩⟩
    simp only [List.forall_mem_cons, List.not_mem_nil]
    exact ⟨hcond, hbody, rfl, nofun⟩
  assignment := by
    intro value target hvalue htarget
    refine Cell.everywhere_defer.mpr ⟨rfl, ?_⟩
    simp only [List.forall_mem_cons, List.not_mem_nil]
    exact ⟨hvalue, htarget, rfl, nofun⟩

end Restack
