import Restack.Proofs.LenientExtension
import Restack.Proofs.WordStep

/-!
# Faults behind an operand check

A word behind an operand check is only applied to operands that meet its requirements, and a
requirement asks for no less than the word reads: what meets it is of the right kind. So the only
faults that are left in a lenient run are those of arithmetic, and a recording run, which computes
nothing, has none. This holds for all data from which no run of words can get at an instruction
without a check: such data may hold any records, dummies and notes of inference.

## Main definitions

* `Cell.IsPassive` — the cells that stand for nothing but words and data.
* `EngineError.IsArithmetic` — the faults of arithmetic.
* `ComesTo` — what a step or a run comes to.

## Main results

* `Action.yields_of_meets` — an operation whose operands meet its requirements fails only as its
  function does.
* `step_lenient_comesTo`, `step_recording_comesTo` — one step of passive cells.
* `runWithin_comesTo` — a run of passive cells.
* `checked_words_absorb_operand_faults` — the faults of lenient and recording runs.
-/

namespace Restack

variable {name : String} {op : Primitive} {code code' program : List Cell}
  {data data' state : Stack}

/-! ### Operands that meet the requirements -/

/-- What meets the requirement of a kind can be read as an operand of that kind. -/
theorem Kind.exists_read_of_meets {k : Kind} {c : Cell} (h : c.meets false k.tag = true) :
    ∃ v, k.read? c = some v := by
  cases k with
  | any => exact ⟨c, rfl⟩
  | number =>
    cases c with
    | int v => exact ⟨.int v, rfl⟩
    | float v => exact ⟨.float v, rfl⟩
    | double v => exact ⟨.double v, rfl⟩
    | _ => cases h
  | int =>
    cases c with
    | int v => exact ⟨v, rfl⟩
    | _ => cases h
  | double =>
    cases c with
    | double v => exact ⟨v, rfl⟩
    | _ => cases h
  | bool =>
    cases c with
    | bool v => exact ⟨v, rfl⟩
    | _ => cases h
  | text =>
    cases c with
    | text v => exact ⟨v, rfl⟩
    | _ => cases h
  | quotation =>
    cases c with
    | quotation v => exact ⟨v, rfl⟩
    | _ => cases h

theorem Kind.exists_take_of_meets {k : Kind} {c : Cell} (h : c.meets false k.tag = true)
    (name : String) : ∃ v, k.take name c = .ok v := by
  obtain ⟨v, hv⟩ := Kind.exists_read_of_meets h
  exact ⟨v, Kind.take_eq_ok_iff.mpr hv⟩

/-- **An operation whose operands meet its requirements fails only as its function does.** -/
theorem Action.yields_of_meets {action : Action} {operands : List Cell}
    (h : List.Forall₂ (fun required c => Cell.meets false required c = true) action.inputs operands)
    {rest : Stack} {e : EngineError} (he : action.apply name (operands ++ rest) = .error e) :
    action.Yields (.error e) := by
  -- putting the results on the data does not fail
  have hresults : ∀ {r : Results}, (r >>= fun out => pure (out ++ rest)) = .error e →
      r = .error e := by
    intro r hr
    rcases bind_eq_error hr with hr | ⟨out, -, hout⟩
    · exact hr
    · cases hout
  cases action with
  | nullary r =>
    cases h
    exact hresults he
  | unary x f =>
    obtain _ | ⟨ha, _ | _⟩ := h
    obtain ⟨u, hu⟩ := Kind.exists_take_of_meets ha name
    simp only [List.cons_append, List.nil_append, Action.apply, hu] at he
    exact ⟨u, hresults he⟩
  | binary x y f =>
    obtain _ | ⟨hb, _ | ⟨ha, _ | _⟩⟩ := h
    obtain ⟨v, hv⟩ := Kind.exists_take_of_meets hb name
    obtain ⟨u, hu⟩ := Kind.exists_take_of_meets ha name
    simp only [List.cons_append, List.nil_append, Action.apply, hv, hu] at he
    exact ⟨u, v, hresults he⟩
  | trinary x y z f =>
    obtain _ | ⟨hc, _ | ⟨hb, _ | ⟨ha, _ | _⟩⟩⟩ := h
    obtain ⟨w, hw⟩ := Kind.exists_take_of_meets hc name
    obtain ⟨v, hv⟩ := Kind.exists_take_of_meets hb name
    obtain ⟨u, hu⟩ := Kind.exists_take_of_meets ha name
    simp only [List.cons_append, List.nil_append, Action.apply, hw, hv, hu] at he
    exact ⟨u, v, w, hresults he⟩

/-- A fault of arithmetic: a division by zero, or an overflow in one of the words. -/
def EngineError.IsArithmetic (e : EngineError) : Prop :=
  e = .divisionByZero ∨ ∃ name op, IsWord name op ∧ e = .overflow name

theorem IsWord.isArithmetic_of_numeric (hw : IsWord name op) {r : Except Number.Fault Number}
    {e : EngineError} (h : numeric name r = .error e) : e.IsArithmetic := by
  cases r with
  | ok n => cases h
  | error fault =>
    cases h
    cases fault with
    | divisionByZero => exact .inl rfl
    | overflow => exact .inr ⟨name, op, hw, rfl⟩

/-- The function of a word fails over arithmetic only. -/
theorem IsWord.isArithmetic_of_yields (hw : IsWord name op) {e : EngineError}
    (h : (op.action name).Yields (.error e)) : e.IsArithmetic := by
  cases hw with
  | add | sub | mul | div | minus =>
    obtain ⟨u, v, huv⟩ := h
    exact IsWord.isArithmetic_of_numeric (by constructor) huv
  | less | greater | equal | swap | pick =>
    obtain ⟨u, v, huv⟩ := h
    cases huv
  | not | dup | drop =>
    obtain ⟨u, hu⟩ := h
    cases hu
  | rot =>
    obtain ⟨u, v, w, huvw⟩ := h
    cases huvw

/-- **A word that its check hands over to fails over arithmetic only.** -/
theorem IsWord.isArithmetic_of_apply (hw : IsWord name op) {popped rest : List Cell}
    (h : Meet false op.inputs popped) {e : EngineError}
    (he : (op.action name).apply name (popped ++ rest) = .error e) : e.IsArithmetic := by
  rw [Meet, operandsOf_false, ← op.inputs_action name] at h
  exact hw.isArithmetic_of_yields (Action.yields_of_meets h he)

/-! ### Passive cells -/

/-- A cell that stands for a word, or for itself: no instruction that is looked up already, no
request to run code, and not the name of an instruction without an operand check. -/
structure Cell.IsPassive (c : Cell) : Prop where
  /-- It is no instruction. -/
  notInstruction : ∀ op, c ≠ .instruction op
  /-- It does not ask to be run. -/
  notContinuation : ∀ code, c ≠ .continuation code
  /-- It names no word that steers the run, runs code or binds a name. -/
  notControl : ∀ name ∈ ["if", "while", "call", "!"], c ≠ .symbol name

theorem IsWord.isPassive (hw : IsWord name op) : (Cell.symbol name).IsPassive where
  notInstruction := nofun
  notContinuation := nofun
  notControl control hcontrol heq := by
    cases heq
    cases hw <;> exact absurd hcontrol (by decide)

/-- A cell with a type is passive: it is no symbol. -/
theorem Cell.isPassive_of_deferredType {c : Cell} (h : c.deferredType.isSome = true) :
    c.IsPassive := by
  refine ⟨?_, ?_, ?_⟩
  · rintro op rfl
    cases h
  · rintro code rfl
    cases h
  · rintro name - rfl
    cases h

/-- A record and its dummies are passive. -/
theorem isPassive_of_mem_record {operands : List Cell} {outputs : List OutputType} {c : Cell}
    (h : c ∈ record name operands outputs) : c.IsPassive := by
  rcases List.mem_cons.mp h with rfl | h
  · exact ⟨nofun, nofun, nofun⟩
  · obtain ⟨type, -, rfl⟩ := List.mem_map.mp h
    exact Cell.isPassive_of_deferredType rfl

theorem Cell.isPassive_number (n : Number) : n.toCell.IsPassive :=
  Cell.isPassive_of_deferredType (by cases n <;> rfl)

/-- Literals, symbols that no table knows and words are passive. -/
theorem Cell.IsPlain.isPassive {c : Cell} (h : c.IsPlain) : c.IsPassive := by
  cases h with
  | word hw => exact hw.isPassive
  | inert h =>
    cases h with
    | literal h =>
      refine Cell.isPassive_of_deferredType ?_
      cases c with
      | defer record result => cases h
      | dummy tag => cases h
      | _ => exact h
    | @free name h =>
      refine ⟨nofun, nofun, fun control hcontrol heq => ?_⟩
      cases heq
      have hfree := h .strict
      simp only [List.mem_cons, List.not_mem_nil, or_false] at hcontrol
      rcases hcontrol with rfl | rfl | rfl | rfl <;> cases hfree

/-- **A passive cell is a word, or nothing that any vocabulary knows.** -/
theorem Cell.IsPassive.word_or_lookup {c : Cell} (h : c.IsPassive) :
    (∃ name op, IsWord name op ∧ c = .symbol name) ∨
      ∀ mode : Mode, mode.environment.lookup c = none := by
  cases c with
  | instruction op => exact absurd rfl (h.notInstruction op)
  | symbol name =>
    by_cases hword : (Cell.symbol name).isWord = true
    · exact .inl (Cell.isWord_eq_true_iff.mp hword)
    · refine .inr (isFree_iff.mpr ?_)
      -- the strict vocabulary knows the words and four more names
      have hnames : Vocabulary.strict.entries.map Prod.fst =
          (Vocabulary.arithmeticWords ++ Vocabulary.stackWords).map Prod.fst ++
            ["if", "while", "call", "!"] := by decide
      have hnone : Vocabulary.strict.get? name = none := by
        rw [Table.get?_eq_none_iff, hnames, List.mem_append, not_or]
        refine ⟨fun hmem => hword ?_, fun hmem => h.notControl name hmem rfl⟩
        obtain ⟨word, hentry, rfl⟩ := List.mem_map.mp hmem
        exact List.any_eq_true.mpr ⟨word, hentry, beq_self_eq_true _⟩
      simp only [Mode.environment, Environment.resolve?, List.findSome?_cons, hnone,
        List.findSome?_nil]
  | _ => exact .inr fun _ => rfl

theorem noContinuation_of_passive (h : ∀ c ∈ data, c.IsPassive) : NoContinuation data :=
  fun c hc => (h c hc).notContinuation

/-! ### Steps and runs of passive cells -/

/-- What a step or a run of passive cells may come to: a state of passive cells, or a fault of some
kind, in the environment in which it began. -/
inductive ComesTo (Fault : EngineError → Prop) (env : Environment) :
    Except EngineError Stack × Environment → Prop
  /-- A state. -/
  | state {state : Stack} (h : StateOf Cell.IsPassive state) : ComesTo Fault env (.ok state, env)
  /-- A fault. -/
  | fault {e : EngineError} (h : Fault e) : ComesTo Fault env (.error e, env)

/-- A state is passive if its cells are taken from passive ones. -/
theorem stateOf_of_mem (hcode : ∀ c ∈ code, c.IsPassive) (hdata : ∀ c ∈ data, c.IsPassive)
    (h : ∀ c ∈ code' ++ data', c ∈ code ∨ c ∈ data ∨ c.IsPassive) :
    StateOf Cell.IsPassive (.quotation code' :: data') := by
  have hcells : ∀ c ∈ code' ++ data', c.IsPassive := by
    intro c hc
    rcases h c hc with hc | hc | hc
    · exact hcode c hc
    · exact hdata c hc
    · exact hc
  exact ⟨code', data', rfl, List.forall_mem_append.mp hcells⟩

/-- A lenient word skips cells, is left on the data or fails over arithmetic. -/
theorem step_lenient_comesTo (hw : IsWord name op) (hcode : ∀ c ∈ code, c.IsPassive)
    (hdata : ∀ c ∈ data, c.IsPassive) :
    ComesTo EngineError.IsArithmetic Mode.nonStrict.environment
      (step (.quotation (.symbol name :: code) :: data) Mode.nonStrict.environment) := by
  have hself := hw.isPassive
  have hfits := examine_fits false op.inputs data
  rw [step_lenient_word hw (noContinuation_of_passive hdata)]
  cases he : examine false op.inputs data with
  | exhausted => exact .state (stateOf_of_mem hcode hdata (by grind))
  | rejected popped cell required rest =>
    obtain ⟨rfl, -⟩ := he ▸ hfits
    exact .state (stateOf_of_mem hcode hdata (by grind))
  | accepted popped rest =>
    obtain ⟨rfl, hmeet⟩ := he ▸ hfits
    rw [lenientNext]
    cases hr : (op.action name).apply name (popped ++ rest) with
    | error e => exact .fault (hw.isArithmetic_of_apply hmeet hr)
    | ok results =>
      refine .state (stateOf_of_mem hcode hdata fun c hc => ?_)
      rcases List.mem_append.mp hc with hc | hc
      · exact .inl hc
      · rcases hw.mem_results hr hc with hc | ⟨n, rfl⟩ | ⟨b, rfl⟩
        · exact .inr (.inl hc)
        · exact .inr (.inr (Cell.isPassive_number n))
        · exact .inr (.inr (Cell.isPassive_of_deferredType rfl))

/-- A recording word skips cells, is left on the data or leaves its record. -/
theorem step_recording_comesTo (hw : IsWord name op) (hcode : ∀ c ∈ code, c.IsPassive)
    (hdata : ∀ c ∈ data, c.IsPassive) :
    ComesTo (fun _ => False) Mode.reorder.environment
      (step (.quotation (.symbol name :: code) :: data) Mode.reorder.environment) := by
  have hself := hw.isPassive
  have hfits := examine_fits true op.inputs data
  rw [step_recording_word hw]
  cases he : examine true op.inputs data with
  | exhausted => exact .state (stateOf_of_mem hcode hdata (by grind))
  | rejected popped cell required rest =>
    obtain ⟨rfl, -⟩ := he ▸ hfits
    rw [recordingNext]
    split
    · exact .state (stateOf_of_mem hcode hdata (by grind))
    · have hgroup := (skippedDummies_isPrefix true cell rest).subset
      have hbeneath := List.drop_subset (skippedDummies true cell rest).length rest
      exact .state (stateOf_of_mem hcode hdata (by grind))
  | accepted popped rest =>
    obtain ⟨rfl, -⟩ := he ▸ hfits
    refine .state (stateOf_of_mem hcode hdata fun c hc => ?_)
    simp only [List.mem_append, List.mem_filter] at hc ⊢
    rcases hc with hc | hc | ⟨hc, -⟩ | hc
    · exact .inl hc
    · exact .inr (.inr (isPassive_of_mem_record hc))
    · exact .inr (.inl (.inl hc))
    · exact .inr (.inl (.inr hc))

/-- What every step of passive cells comes to holds of every run of them. -/
theorem runWithin_comesTo {Fault : EngineError → Prop} {env : Environment}
    (hstep : ∀ state, StateOf Cell.IsPassive state → ComesTo Fault env (step state env)) (n : Nat)
    (hstate : StateOf Cell.IsPassive state) : ComesTo Fault env (runWithin n state env) := by
  induction n generalizing state with
  | zero => exact .state hstate
  | succ n ih =>
    cases hhalt : isHalted state with
    | true =>
      rw [runWithin_halted _ _ hhalt]
      exact .state hstate
    | false =>
      have hnext := hstep state hstate
      generalize hs : step state env = outcome at hnext
      cases hnext with
      | state h =>
        rw [runWithin_succ_ok n hhalt hs]
        exact ih h
      | fault h =>
        rw [runWithin_succ_error n hhalt hs]
        exact .fault h

/-- A step of passive cells is a step of a word, pushes a cell, or stands still. -/
theorem step_comesTo {mode : Mode} {Fault : EngineError → Prop}
    (hword : ∀ {name op code data}, IsWord name op → (∀ c ∈ code, c.IsPassive) →
      (∀ c ∈ data, c.IsPassive) → ComesTo Fault mode.environment
        (step (.quotation (.symbol name :: code) :: data) mode.environment))
    (hstate : StateOf Cell.IsPassive state) :
    ComesTo Fault mode.environment (step state mode.environment) := by
  obtain ⟨code, data, rfl, hcode, hdata⟩ := hstate
  cases code with
  | nil => exact .state ⟨[], data, rfl, hcode, hdata⟩
  | cons c code =>
    obtain ⟨hc, hrest⟩ := List.forall_mem_cons.mp hcode
    rcases hc.word_or_lookup with ⟨name, op, hw, rfl⟩ | hlook
    · exact hword hw hrest hdata
    · rw [step_push (hlook mode)]
      exact .state ⟨code, c :: data, rfl, hrest, List.forall_mem_cons.mpr ⟨hc, hdata⟩⟩

/-- **Checked words absorb faults over operands.** Take a program of literals, symbols that no table
knows and words, or of any other cells but instructions, requests to run code, and the names of
`call` and of the control words, over data of such cells. However many steps are taken, a lenient
run of it fails over a division by zero or an overflow, if it fails at all, and a recording run does
not fail. -/
theorem checked_words_absorb_operand_faults (hprogram : ∀ c ∈ program, c.IsPassive)
    (hdata : ∀ c ∈ data, c.IsPassive) (n : Nat) :
    (∀ e env, runWithin n (.quotation program :: data) Mode.nonStrict.environment =
        (.error e, env) →
      e = .divisionByZero ∨ ∃ name op, IsWord name op ∧ e = .overflow name) ∧
    ∃ last, runWithin n (.quotation program :: data) Mode.reorder.environment =
      (.ok last, Mode.reorder.environment) := by
  have hstate : StateOf Cell.IsPassive (.quotation program :: data) :=
    ⟨program, data, rfl, hprogram, hdata⟩
  have hlenient := runWithin_comesTo (fun _ => step_comesTo step_lenient_comesTo) n hstate
  have hrecording := runWithin_comesTo (fun _ => step_comesTo step_recording_comesTo) n hstate
  constructor
  · intro e env hrun
    rw [hrun] at hlenient
    cases hlenient with
    | fault h => exact h
  · generalize runWithin n (.quotation program :: data) Mode.reorder.environment = outcome
      at hrecording ⊢
    cases hrecording with
    | @state last _ => exact ⟨last, rfl⟩
    | fault h => exact h.elim

/-- The program `x 0 /` over a residual, a word left unapplied, a dummy and `4`: in its lenient run
the division skips them all and then fails, while its recording run goes on. -/
theorem checked_words_absorb_operand_faults_division :
    let program : List Cell := [.symbol "x", .int 0, .symbol "/"]
    let data : Stack := [.residual [.var "a"], .symbol "not", .dummy .text, .int 4]
    (∀ c ∈ program, c.IsPassive) ∧ (∀ c ∈ data, c.IsPassive) ∧
      runWithin 8 (.quotation program :: data) Mode.nonStrict.environment =
        (.error .divisionByZero, Mode.nonStrict.environment) ∧
      ∃ last, runWithin 8 (.quotation program :: data) Mode.reorder.environment =
        (.ok last, Mode.reorder.environment) := by
  intro program data
  have hplain : ∀ c ∈ program, c.IsPlain := by
    simp only [program, List.forall_mem_cons, List.not_mem_nil]
    exact ⟨.inert (.free (isFree_iff.mpr rfl)), .inert (.literal rfl), .word .div, nofun⟩
  have hprogram : ∀ c ∈ program, c.IsPassive := fun c hc => (hplain c hc).isPassive
  have hdata : ∀ c ∈ data, c.IsPassive := by
    simp only [data, List.forall_mem_cons, List.not_mem_nil]
    exact ⟨⟨nofun, nofun, nofun⟩, IsWord.not.isPassive, Cell.isPassive_of_deferredType rfl,
      Cell.isPassive_of_deferredType rfl, nofun⟩
  exact ⟨hprogram, hdata, rfl, (checked_words_absorb_operand_faults hprogram hdata 8).2⟩

end Restack
