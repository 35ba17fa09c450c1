import Restack.Proofs.Inheritance

/-!
# The data beneath a strict run

A strict instruction takes its operands off the top of the data and never looks beneath
them. After it the machine looks at the top of the data, for a continuation; where the
instruction has emptied the data of a program, the cell that is looked at is one that lies
beneath that data. So a strict run that succeeds does the same above any cells that are no
continuations, however it branches, loops, calls and binds names.

## Main results

* `Instruction.IsStrict.apply_frame` — an instruction does the same above more data.
* `step_frame` — and so does a step.
* `strict_run_frame` — and a run of any length, with the same environment at its end.
-/

namespace Restack

variable {P : Cell → Prop} {env env' : Environment} {op : Instruction} {code : List Cell}
  {data data' beneath state next last : Stack}

/-! ### Instructions -/

/-- A control word does the same above more data. -/
theorem Control.Does.frame {word : Control} (h : word.Does env data data' env') (beneath : Stack) :
    word.Does env (data ++ beneath) (data' ++ beneath) env' := by
  cases h with
  | branch b chosen otherwise rest => exact .branch b chosen otherwise (rest ++ beneath)
  | loop cond body rest => exact .loop cond body (rest ++ beneath)
  | assign hname value => exact .assign hname value (data' ++ beneath)
  | assignRecorded hname value rest => exact .assignRecorded hname value (rest ++ beneath)

/-- **An instruction of a strict run that succeeds does the same above more data.** -/
theorem Instruction.IsStrict.apply_frame (h : op.IsStrict P)
    (happly : op.apply data env = (.ok data', env')) (beneath : Stack) :
    op.apply (data ++ beneath) env = (.ok (data' ++ beneath), env') := by
  -- a strict operation does not change the environment
  have hstrict : ∀ {name prim}, Instruction.apply (.strict name prim) data env = (.ok data', env') →
      Instruction.apply (.strict name prim) (data ++ beneath) env =
        (.ok (data' ++ beneath), env') := by
    intro name prim hboth
    obtain ⟨hr, rfl⟩ := Prod.mk.inj hboth
    exact Prod.ext (Action.apply_frame (prim.action name) hr beneath) rfl
  cases h with
  | word hw => exact hstrict happly
  | call => exact hstrict happly
  | control word => exact Control.apply_iff.mpr ((Control.apply_iff.mp happly).frame beneath)
  | defined name hvalue =>
    cases happly
    rfl

/-! ### Steps and runs -/

/-- A continuation is found on the data, or there is none: the cells beneath hold none either. -/
theorem splice_frame (hbeneath : NoContinuation beneath) (data : Stack) (code : List Cell) :
    splice (data ++ beneath) code = splice data code ++ beneath := by
  cases data with
  | nil => exact splice_noContinuation hbeneath code
  | cons c data =>
    cases c with
    | continuation more => rfl
    | _ => rfl

/-- **A strict step that succeeds does the same above more data.** -/
theorem step_frame (hP : Inherited P)
    (henv : Environment.GrownFrom P Mode.strict.environment env) (hstate : StateOf P state)
    (hbeneath : NoContinuation beneath) (hstep : step state env = (.ok next, env')) :
    step (state ++ beneath) env = (.ok (next ++ beneath), env') := by
  obtain ⟨code, data, rfl, hcode, hdata⟩ := hstate
  cases step_iff.mp hstep with
  | halted data => exact step_iff.mpr (.halted (data ++ beneath))
  | push hc code data => exact step_iff.mpr (.push hc code (data ++ beneath))
  | @apply c op hc data left env' happly code =>
    have hstrict := henv.isStrict hP (hcode c List.mem_cons_self) hc
    rw [← splice_frame hbeneath left code]
    exact step_iff.mpr (.apply hc (hstrict.apply_frame happly beneath) code)

/-- A strict run that succeeds does the same above more data. -/
theorem runWithin_frame (hP : Inherited P) {n : Nat}
    (henv : Environment.GrownFrom P Mode.strict.environment env) (hstate : StateOf P state)
    (hbeneath : NoContinuation beneath) (hrun : runWithin n state env = (.ok last, env')) :
    runWithin n (state ++ beneath) env = (.ok (last ++ beneath), env') := by
  induction n generalizing state env with
  | zero =>
    cases hrun
    rfl
  | succ n ih =>
    obtain ⟨next, env₁, hstep, hrest⟩ := runWithin_succ_iff.mp hrun
    obtain ⟨hnext, henv₁⟩ := step_keeps hP (sustains_strict hP) henv hstate hstep
    exact runWithin_succ_iff.mpr
      ⟨next ++ beneath, env₁, step_frame hP henv hstate hbeneath hstep, ih henv₁ hnext hrest⟩

/-- **The frame law of strict runs.** Take a strict environment in which a program may have bound
names, and code over data, all without instructions that are looked up already. If some steps from
there succeed, then as many steps from the same code with any cells beneath the data, none of them a
continuation, lead to the same code and the same data above those cells, and to the same
environment. -/
theorem strict_run_frame {n : Nat} {p p' : List Cell} {d d' x : Stack}
    (henv : Environment.GrownFrom Cell.NoInstruction Mode.strict.environment env)
    (hp : ∀ c ∈ p, c.NoInstruction) (hd : ∀ c ∈ d, c.NoInstruction) (hx : NoContinuation x)
    (hrun : runWithin n (.quotation p :: d) env = (.ok (.quotation p' :: d'), env')) :
    runWithin n (.quotation p :: (d ++ x)) env = (.ok (.quotation p' :: (d' ++ x)), env') :=
  runWithin_frame inherited_noInstruction henv ⟨p, d, rfl, hp, hd⟩ hx hrun

/-- The program `[dup 0 >] [n -] while drop`, with `n` bound to 2, counts down from 3 and takes the
last number off the data; then an instruction that lies beneath is on top. -/
theorem strict_run_frame_countdown :
    let env := Mode.strict.environment.define "n" (.defined "n" (.int 2))
    let program : List Cell :=
      [.quotation [.symbol "dup", .int 0, .symbol ">"], .quotation [.symbol "n", .symbol "-"],
        .symbol "while", .symbol "drop"]
    let beneath : Stack := [.instruction (.strict "+" .add), .int 7]
    runWithin 40 [.quotation program, .int 3] env = (.ok [.quotation []], env) ∧
      runWithin 40 (.quotation program :: .int 3 :: beneath) env =
        (.ok (.quotation [] :: beneath), env) := by
  intro env program beneath
  have hrun : runWithin 40 [.quotation program, .int 3] env = (.ok [.quotation []], env) := rfl
  have henv : Environment.GrownFrom Cell.NoInstruction Mode.strict.environment env :=
    Environment.GrownFrom.base.define "n" rfl
  have hprogram : ∀ c ∈ program, c.NoInstruction := by
    intro c hc
    simp only [program, List.mem_cons, List.not_mem_nil, or_false] at hc
    rcases hc with rfl | rfl | rfl | rfl <;> rfl
  have hdata : ∀ c ∈ [Cell.int 3], c.NoInstruction := by
    intro c hc
    rw [List.mem_singleton.mp hc]
    rfl
  have hbeneath : NoContinuation beneath := by
    intro c hc code
    simp only [beneath, List.mem_cons, List.not_mem_nil, or_false] at hc
    rcases hc with rfl | rfl <;> nofun
  exact ⟨hrun, strict_run_frame henv hprogram hdata hbeneath hrun⟩

end Restack
