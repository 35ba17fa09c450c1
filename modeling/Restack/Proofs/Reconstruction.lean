import Restack.Proofs.Conservation
import Restack.Proofs.Depth

/-!
# Reconstruction and running back

Reconstruction moves the data into the code, cell by cell and from the top down, so that the
deepest cell comes first in the code in the end. It stops when only code is left, which takes as
many moves as there are cells. Each cell is flattened on its way: a record becomes the code that
replays it, the records inside it first, and a dummy vanishes. Data without records and dummies
is its own code, and running that code puts it back in place, as long as no cell of it stands
for an instruction.

## Main definitions

* `hasDataLeft`, `Reconstructs` — cells moved one after the other until none is left.

## Main results

* `reconstructs_iff` — how many moves there are, and what they lead to.
* `Cell.flatten_eq` — the code that a cell becomes.
* `reconstruction_runs_back` — what is reconstructed, and that running it gives back the state.
-/

namespace Restack

variable {state last : Stack} {code : List Cell} {data : Stack} {env : Environment} {n : Nat}

/-! ### Moving all cells -/

/-- Whether there is a cell left to move: code on top, and data beneath it. -/
def hasDataLeft : Stack → Bool
  | .quotation _ :: _ :: _ => true
  | _ => false

/-- After `n` moves, one cell at a time, there is nothing left to move, and the state is `last`. -/
inductive Reconstructs : Nat → Stack → Stack → Prop
  /-- Nothing is left to move. -/
  | done {state : Stack} (h : hasDataLeft state = false) : Reconstructs 0 state state
  /-- A cell is moved, and then the others. -/
  | move {n : Nat} {state last : Stack} (h : hasDataLeft state = true)
    (hrest : Reconstructs n (reconstructStep state) last) : Reconstructs (n + 1) state last

/-- **Moving all cells takes one move for each of them, and leaves their code before the code that
was there.** -/
theorem reconstructs_iff : Reconstructs n (.quotation code :: data) last ↔
    n = data.length ∧ last = [.quotation (replayCode data ++ code)] := by
  induction data generalizing code n with
  | nil =>
    rw [replayCode_nil, List.nil_append]
    constructor
    · intro h
      cases h with
      | done _ => exact ⟨rfl, rfl⟩
      | move h _ => cases h
    · rintro ⟨rfl, rfl⟩
      exact .done rfl
  | cons c data ih =>
    -- the first move puts the code of `c` before the other code
    have hcode : replayCode (c :: data) ++ code = replayCode data ++ (c.flatten ++ code) := by
      rw [replayCode_cons, List.append_assoc]
    rw [hcode]
    constructor
    · intro h
      cases h with
      | done h => cases h
      | move _ hrest =>
        obtain ⟨rfl, rfl⟩ := ih.mp hrest
        exact ⟨rfl, rfl⟩
    · rintro ⟨rfl, rfl⟩
      exact .move rfl (ih.mpr ⟨rfl, rfl⟩)

/-- Reconstruction is what moving all cells leads to, from any state. -/
theorem Reconstructs.eq_reconstruct (h : Reconstructs n state last) : last = reconstruct state := by
  induction h with
  | @done state h =>
    unfold reconstruct
    split
    · rename_i code data
      cases data with
      | nil => rfl
      | cons c data => cases h
    · rfl
  | move _ _ ih => rw [ih, reconstruct_reconstructStep]

/-! ### The code that data becomes -/

/-- **The code that a cell becomes.** -/
theorem Cell.flatten_eq (c : Cell) : c.flatten =
    match c with
    | .defer record _ => record.flatMap Cell.flatten
    | .dummy _ => []
    | c => [c] := by
  cases c with
  | defer record result => rw [Cell.flatten, Cell.flattenList_eq_flatMap]
  | dummy tag => rw [Cell.flatten]
  | _ => exact Cell.flatten_of_not_isDeferred rfl

theorem replayCode_eq_flatMap (data : Stack) :
    replayCode data = data.reverse.flatMap Cell.flatten :=
  Cell.flattenList_eq_flatMap _

/-- Data without records and dummies is its own code. -/
theorem replayCode_of_not_isDeferred (h : ∀ c ∈ data, c.isDeferred = false) :
    replayCode data = data.reverse := by
  induction data with
  | nil => exact replayCode_nil
  | cons c data ih =>
    obtain ⟨hc, hdata⟩ := List.forall_mem_cons.mp h
    rw [replayCode_cons, ih hdata, Cell.flatten_of_not_isDeferred hc, List.reverse_cons]

/-! ### Running back -/

/-- A cell stands for no instruction if it is none itself and no name of one. -/
theorem lookup_eq_none {c : Cell} (hinstruction : c.isInstruction = false)
    (hsymbol : ∀ name, c = .symbol name → env.resolve? name = none) : env.lookup c = none := by
  cases c with
  | symbol name => exact hsymbol name rfl
  | instruction op => cases hinstruction
  | _ => rfl

/-- The code of cells that stand for no instruction puts them back on the data. -/
theorem run_reverse (h : ∀ c ∈ data, env.lookup c = none) (code : List Cell) :
    run (some data.length) [.quotation (data.reverse ++ code)] env =
      (.ok (.quotation code :: data), env) := by
  have hcells : ∀ c ∈ data.reverse, env.lookup c = none := fun c hc => h c (List.mem_reverse.mp hc)
  have hpush := runWithin_push hcells code []
  rw [List.length_reverse, List.reverse_reverse, List.append_nil] at hpush
  exact hpush

/-- **Reconstruction and its inverse.** Take a state with code on top of data. Moving its cells into
the code, one at a time, ends after as many moves as there are cells of data, and in no other way:
what is left is the code that the cells become, from the bottom of the data up, and then the code
that was there. That is what reconstruction gives. A record becomes the code of its cells, each of
them flattened in turn, a dummy becomes nothing, and any other cell itself. If there are no records,
dummies and instructions on the data, and no symbols that the environment knows, then as many steps
as there are cells lead from what is reconstructed back to the state. -/
theorem reconstruction_runs_back (code : List Cell) (data : Stack) :
    (∀ n last, Reconstructs n (.quotation code :: data) last ↔ n = data.length ∧
      last = [.quotation (data.reverse.flatMap Cell.flatten ++ code)]) ∧
    reconstruct (.quotation code :: data) =
      [.quotation (data.reverse.flatMap Cell.flatten ++ code)] ∧
    (∀ c : Cell, c.flatten =
      match c with
      | .defer record _ => record.flatMap Cell.flatten
      | .dummy _ => []
      | c => [c]) ∧
    ∀ env : Environment,
      (∀ c ∈ data, c.isDeferred = false ∧ c.isInstruction = false ∧
        ∀ name, c = .symbol name → env.resolve? name = none) →
      run (some data.length) (reconstruct (.quotation code :: data)) env =
        (.ok (.quotation code :: data), env) := by
  have hmoves : Reconstructs data.length (.quotation code :: data)
      [.quotation (replayCode data ++ code)] := reconstructs_iff.mpr ⟨rfl, rfl⟩
  have hreconstruct := hmoves.eq_reconstruct
  refine ⟨fun n last => ?_, ?_, Cell.flatten_eq, fun env hdata => ?_⟩
  · rw [← replayCode_eq_flatMap]
    exact reconstructs_iff
  · rw [← replayCode_eq_flatMap, hreconstruct]
  · rw [← hreconstruct, replayCode_of_not_isDeferred fun c hc => (hdata c hc).1]
    exact run_reverse (fun c hc => lookup_eq_none (hdata c hc).2.1 (hdata c hc).2.2) code

/-- The code `1 +` on top of the data `"b"`, `x`, `[2]`, in an environment that does not know `x`:
three moves lead to `[2] x "b" 1 +`, and three steps lead back. -/
theorem reconstruction_runs_back_free_symbol :
    let code : List Cell := [.int 1, .symbol "+"]
    let data : Stack := [.text "b", .symbol "x", .quotation [.int 2]]
    let strict := Mode.strict.environment
    Reconstructs 3 (.quotation code :: data)
        [.quotation [.quotation [.int 2], .symbol "x", .text "b", .int 1, .symbol "+"]] ∧
      strict.resolve? "x" = none ∧
      run (some 3) (reconstruct (.quotation code :: data)) strict =
        (.ok (.quotation code :: data), strict) := by
  intro code data strict
  obtain ⟨hmoves, -, hflatten, hback⟩ := reconstruction_runs_back code data
  refine ⟨(hmoves _ _).mpr ⟨rfl, ?_⟩, rfl, hback strict ?_⟩
  · simp [code, data, hflatten]
  · intro c hc
    simp only [data, List.mem_cons, List.not_mem_nil, or_false] at hc
    rcases hc with rfl | rfl | rfl
    · exact ⟨rfl, rfl, nofun⟩
    · refine ⟨rfl, rfl, fun name hname => ?_⟩
      cases hname
      rfl
    · exact ⟨rfl, rfl, nofun⟩

end Restack
