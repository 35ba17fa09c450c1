import Restack.Proofs.Machine
import Restack.Proofs.Words

/-!
# Strict runs of plain programs

A strict run of a program of literals, free symbols and words takes its cells one by
one: nothing is put back into the code. So it is the composition of what the cells do to
the data, and the machine adds nothing to that but a count of the steps. A cell sees
only the data above a certain depth, and so does a program.

## Main definitions

* `strictStep`, `strictRun` — what a cell, and a program, does to the data.
* `NoContinuation` — no cell of the data asks to be run.

## Main results

* `runWithin_strict` — the machine performs `strictRun`.
* `strictRun_append`, `strictRun_frame` — the laws of composition and of the data
  beneath.
-/

namespace Restack

/-- What a code cell does to the data in the strict vocabulary. -/
def strictStep (c : Cell) (data : Stack) : Except EngineError Stack :=
  match Mode.strict.environment.lookup c with
  | some op => (op.apply data Mode.strict.environment).1
  | none => .ok (c :: data)

/-- What code does to the data in the strict vocabulary, cell by cell. -/
def strictRun : List Cell → Stack → Except EngineError Stack
  | [], data => .ok data
  | c :: code, data => strictStep c data >>= strictRun code

/-- No cell of the data is a request to run code. -/
def NoContinuation (data : Stack) : Prop := ∀ c ∈ data, ∀ code, c ≠ .continuation code

variable {data data' : Stack} {code : List Cell}

theorem noContinuation_of_valueType (h : ∀ c ∈ data, c.valueType.isSome = true) :
    NoContinuation data := by
  rintro c hc code rfl
  cases h _ hc

@[simp] theorem strictRun_nil (data : Stack) : strictRun [] data = .ok data := rfl

theorem strictRun_cons (c : Cell) (code : List Cell) (data : Stack) :
    strictRun (c :: code) data = strictStep c data >>= strictRun code := rfl

theorem strictStep_inert {c : Cell} (h : c.IsInert) (data : Stack) :
    strictStep c data = .ok (c :: data) := by
  rw [strictStep, h.lookup .strict]

theorem strictStep_word {name : String} {op : Primitive} (h : IsWord name op) (data : Stack) :
    strictStep (.symbol name) data = (op.action name).apply name data := by
  have hlook : Mode.strict.environment.lookup (.symbol name) = some (.strict name op) :=
    h.resolve_strict
  rw [strictStep, hlook]
  rfl

theorem strictRun_inert {c : Cell} (h : c.IsInert) (code : List Cell) (data : Stack) :
    strictRun (c :: code) data = strictRun code (c :: data) := by
  rw [strictRun_cons, strictStep_inert h]
  rfl

/-- Code in two parts runs one part after the other. -/
theorem strictRun_append (first second : List Cell) (data : Stack) :
    strictRun (first ++ second) data = strictRun first data >>= strictRun second := by
  induction first generalizing data with
  | nil => rfl
  | cons c first ih =>
    rw [List.cons_append, strictRun_cons, strictRun_cons]
    cases strictStep c data with
    | error e => rfl
    | ok data' => exact ih data'

theorem strictRun_append_ok {first second : List Cell} (h : strictRun first data = .ok data') :
    strictRun (first ++ second) data = strictRun second data' := by
  rw [strictRun_append, h]
  rfl

/-! ### The data beneath -/

theorem strictStep_frame {c : Cell} (hc : c.IsPlain) (h : strictStep c data = .ok data')
    (beneath : Stack) : strictStep c (data ++ beneath) = .ok (data' ++ beneath) := by
  cases hc with
  | inert hc =>
    rw [strictStep_inert hc] at h ⊢
    cases h
    rfl
  | word hw =>
    rw [strictStep_word hw] at h ⊢
    exact Action.apply_frame _ h beneath

/-- **A program that succeeds does the same with more data beneath.** -/
theorem strictRun_frame (hcode : ∀ c ∈ code, c.IsPlain) (h : strictRun code data = .ok data')
    (beneath : Stack) : strictRun code (data ++ beneath) = .ok (data' ++ beneath) := by
  induction code generalizing data with
  | nil => cases h; rfl
  | cons c code ih =>
    obtain ⟨mid, hmid, hrest⟩ := bind_eq_ok_iff.mp h
    have hstep := strictStep_frame (hcode c List.mem_cons_self) hmid beneath
    rw [strictRun_cons, hstep]
    exact ih (fun d hd => hcode d (List.mem_cons_of_mem c hd)) hrest

/-! ### The machine -/

theorem noContinuation_strictStep {c : Cell} (hc : c.IsPlain) (hdata : NoContinuation data)
    (h : strictStep c data = .ok data') : NoContinuation data' := by
  cases hc with
  | inert hc =>
    rw [strictStep_inert hc] at h
    cases h
    intro d hd more hmore
    rcases List.mem_cons.mp hd with rfl | hd
    · subst hmore
      cases hc with
      | literal hlit => cases hlit
    · exact hdata d hd more hmore
  | word hw =>
    rw [strictStep_word hw] at h
    intro d hd more hmore
    -- a word leaves cells it has found, numbers and truth values
    rcases hw.mem_results h hd with hd | ⟨n, rfl⟩ | ⟨b, rfl⟩
    · exact hdata d hd more hmore
    · cases n <;> cases hmore
    · cases hmore

/-- Data without a continuation on top is left where it is. -/
theorem splice_noContinuation (hdata : NoContinuation data) (code : List Cell) :
    splice data code = .quotation code :: data := by
  cases data with
  | nil => rfl
  | cons c data =>
    cases c with
    | continuation more => exact absurd rfl (hdata _ List.mem_cons_self more)
    | _ => rfl

/-- A step of the machine on a plain cell is a strict step. -/
theorem step_strict {c : Cell} (hc : c.IsPlain) (hdata : NoContinuation data)
    (code : List Cell) :
    step (.quotation (c :: code) :: data) Mode.strict.environment =
      ((strictStep c data).map (.quotation code :: ·), Mode.strict.environment) := by
  have hnext : ∀ data', strictStep c data = .ok data' → NoContinuation data' :=
    fun _ => noContinuation_strictStep hc hdata
  cases hc with
  | inert hc =>
    rw [strictStep_inert hc]
    simp only [step, hc.lookup .strict]
    rfl
  | @word name op hw =>
    have hlook : Mode.strict.environment.lookup (.symbol name) = some (.strict name op) :=
      hw.resolve_strict
    rw [strictStep_word hw] at hnext ⊢
    simp only [step, hlook, Instruction.apply]
    cases hr : (op.action name).apply name data with
    | error e => rfl
    | ok data' => simp only [splice_noContinuation (hnext data' hr), Except.map]

/-- **The machine performs `strictRun`**, in as many steps as there are cells. -/
theorem runWithin_strict {n : Nat} (hcode : ∀ c ∈ code, c.IsPlain) (hdata : NoContinuation data)
    (hn : code.length ≤ n) :
    runWithin n (.quotation code :: data) Mode.strict.environment =
      ((strictRun code data).map (.quotation [] :: ·), Mode.strict.environment) := by
  induction code generalizing n data with
  | nil => exact runWithin_halted n _ rfl
  | cons c code ih =>
    obtain ⟨n, rfl⟩ : ∃ m, n = m + 1 := ⟨n - 1, by simp at hn; omega⟩
    have hc := hcode c List.mem_cons_self
    have hstep := step_strict hc hdata code
    rw [strictRun_cons]
    cases hs : strictStep c data with
    | error e =>
      rw [hs] at hstep
      exact runWithin_succ_error n rfl hstep
    | ok data' =>
      rw [hs] at hstep
      rw [runWithin_succ_ok n rfl hstep]
      refine ih (fun d hd => hcode d (List.mem_cons_of_mem c hd))
        (noContinuation_strictStep hc hdata hs) ?_
      simpa using hn

end Restack
