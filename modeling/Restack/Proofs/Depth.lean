import Restack.Cell.Basic

/-!
# Cells at every depth

A cell may hold other cells: the code of a quotation or a continuation, a record, bindings
and needs. A test that a cell passes at every depth is passed by the cell and by all cells
inside it. An instruction is a leaf: what it was made of is no cell on a stack.

## Main definitions

* `Cell.everywhere` — a test at every depth of a cell.
* `Cell.NoInstruction` — no instruction is looked up already.
* `Cell.NoPlaceholder` — no record and no dummy occurs.
* `Cell.Written` — all is a literal or a symbol, as a text can write it.
* `Cell.IsScalar` — a literal that holds no other cells.

## Main results

* `Cell.everywhere_quotation`, `Cell.everywhere_continuation`, `Cell.everywhere_defer` — the
  test of a cell that holds others.
* `Cell.everywhere_mono` — a weaker test is passed as well.
-/

namespace Restack

mutual

/-- Whether a cell passes a test, and every cell inside it. -/
def Cell.everywhere (test : Cell → Bool) : Cell → Bool
  | .quotation code => test (.quotation code) && Cell.everywhereList test code
  | .continuation code => test (.continuation code) && Cell.everywhereList test code
  | .defer record result => test (.defer record result) && Cell.everywhereList test record
  | .bindings entries => test (.bindings entries) && Cell.everywhereBindings test entries
  | .residual needs => test (.residual needs) && Cell.everywhereList test needs
  | c => test c

/-- Whether cells pass a test at every depth. -/
def Cell.everywhereList (test : Cell → Bool) : List Cell → Bool
  | [] => true
  | c :: cs => c.everywhere test && Cell.everywhereList test cs

/-- Whether bound cells pass a test at every depth. -/
def Cell.everywhereBindings (test : Cell → Bool) : List (String × Cell) → Bool
  | [] => true
  | (_, c) :: entries => c.everywhere test && Cell.everywhereBindings test entries

end

variable {test : Cell → Bool}

theorem Cell.everywhereList_iff {cells : List Cell} :
    Cell.everywhereList test cells = true ↔ ∀ c ∈ cells, c.everywhere test = true := by
  induction cells with
  | nil => simp [Cell.everywhereList]
  | cons c cells ih => simp [Cell.everywhereList, ih]

theorem Cell.everywhere_quotation {code : List Cell} :
    (Cell.quotation code).everywhere test = true ↔
      test (.quotation code) = true ∧ ∀ c ∈ code, c.everywhere test = true := by
  rw [Cell.everywhere, Bool.and_eq_true, Cell.everywhereList_iff]

theorem Cell.everywhere_continuation {code : List Cell} :
    (Cell.continuation code).everywhere test = true ↔
      test (.continuation code) = true ∧ ∀ c ∈ code, c.everywhere test = true := by
  rw [Cell.everywhere, Bool.and_eq_true, Cell.everywhereList_iff]

theorem Cell.everywhere_defer {record : List Cell} {result : Option TypeTag} :
    (Cell.defer record result).everywhere test = true ↔
      test (.defer record result) = true ∧ ∀ c ∈ record, c.everywhere test = true := by
  rw [Cell.everywhere, Bool.and_eq_true, Cell.everywhereList_iff]

/-- A cell that passes a test at every depth passes it. -/
theorem Cell.test_of_everywhere {c : Cell} (h : c.everywhere test = true) : test c = true := by
  cases c with
  | quotation code => exact (Cell.everywhere_quotation.mp h).1
  | continuation code => exact (Cell.everywhere_continuation.mp h).1
  | defer record result => exact (Cell.everywhere_defer.mp h).1
  | bindings entries =>
    rw [Cell.everywhere, Bool.and_eq_true] at h
    exact h.1
  | residual needs =>
    rw [Cell.everywhere, Bool.and_eq_true] at h
    exact h.1
  | _ => simpa [Cell.everywhere] using h

mutual

/-- **A cell that passes a test at every depth passes a weaker one.** -/
theorem Cell.everywhere_mono {weaker : Cell → Bool}
    (h : ∀ c, test c = true → weaker c = true) :
    ∀ c : Cell, c.everywhere test = true → c.everywhere weaker = true
  | .quotation code => by
    rw [Cell.everywhere, Cell.everywhere, Bool.and_eq_true, Bool.and_eq_true]
    exact And.imp (h _) (Cell.everywhereList_mono h code)
  | .continuation code => by
    rw [Cell.everywhere, Cell.everywhere, Bool.and_eq_true, Bool.and_eq_true]
    exact And.imp (h _) (Cell.everywhereList_mono h code)
  | .defer record result => by
    rw [Cell.everywhere, Cell.everywhere, Bool.and_eq_true, Bool.and_eq_true]
    exact And.imp (h _) (Cell.everywhereList_mono h record)
  | .bindings entries => by
    rw [Cell.everywhere, Cell.everywhere, Bool.and_eq_true, Bool.and_eq_true]
    exact And.imp (h _) (Cell.everywhereBindings_mono h entries)
  | .residual needs => by
    rw [Cell.everywhere, Cell.everywhere, Bool.and_eq_true, Bool.and_eq_true]
    exact And.imp (h _) (Cell.everywhereList_mono h needs)
  | .int v => h (.int v)
  | .float v => h (.float v)
  | .double v => h (.double v)
  | .bool v => h (.bool v)
  | .text v => h (.text v)
  | .symbol name => h (.symbol name)
  | .instruction op => h (.instruction op)
  | .dummy tag => h (.dummy tag)
  | .type tag => h (.type tag)
  | .var name => h (.var name)

theorem Cell.everywhereList_mono {weaker : Cell → Bool}
    (h : ∀ c, test c = true → weaker c = true) :
    ∀ cells : List Cell, Cell.everywhereList test cells = true →
      Cell.everywhereList weaker cells = true
  | [] => id
  | c :: cells => by
    rw [Cell.everywhereList, Cell.everywhereList, Bool.and_eq_true, Bool.and_eq_true]
    exact And.imp (Cell.everywhere_mono h c) (Cell.everywhereList_mono h cells)

theorem Cell.everywhereBindings_mono {weaker : Cell → Bool}
    (h : ∀ c, test c = true → weaker c = true) :
    ∀ entries : List (String × Cell), Cell.everywhereBindings test entries = true →
      Cell.everywhereBindings weaker entries = true
  | [] => id
  | (_, c) :: entries => by
    rw [Cell.everywhereBindings, Cell.everywhereBindings, Bool.and_eq_true, Bool.and_eq_true]
    exact And.imp (Cell.everywhere_mono h c) (Cell.everywhereBindings_mono h entries)

end

/-- Whether a cell is an instruction that is already looked up. -/
def Cell.isInstruction : Cell → Bool
  | .instruction _ => true
  | _ => false

/-- No instruction occurs in a cell, at any depth: instructions are reached by name only. -/
def Cell.NoInstruction (c : Cell) : Prop := c.everywhere (fun d => !d.isInstruction) = true

/-- No record and no dummy occurs in a cell, at any depth. -/
def Cell.NoPlaceholder (c : Cell) : Prop := c.everywhere (fun d => !d.isDeferred) = true

/-- Whether a cell is a literal or a symbol. -/
def Cell.isWritten : Cell → Bool
  | .symbol _ => true
  | c => c.valueType.isSome

/-- All in a cell is a literal or a symbol, at any depth. -/
def Cell.Written (c : Cell) : Prop := c.everywhere Cell.isWritten = true

theorem Cell.not_isDeferred_of_isWritten {c : Cell} (h : c.isWritten = true) :
    c.isDeferred = false := by
  cases c with
  | defer record result => cases h
  | dummy tag => cases h
  | _ => rfl

/-- A literal that is no quotation. -/
def Cell.IsScalar (c : Cell) : Prop := c.valueType.isSome = true ∧ c.quotation? = none

theorem Cell.IsScalar.written {c : Cell} (h : c.IsScalar) : c.Written := by
  obtain ⟨hvalue, hquotation⟩ := h
  cases c with
  | quotation code => cases hquotation
  | int v => rfl
  | float v => rfl
  | double v => rfl
  | bool b => rfl
  | text s => rfl
  | type tag => rfl
  | var name => rfl
  | _ => cases hvalue

/-- What is written holds no record and no dummy. -/
theorem Cell.Written.noPlaceholder {c : Cell} (h : c.Written) : c.NoPlaceholder := by
  refine Cell.everywhere_mono (fun d hd => ?_) c h
  rw [Cell.not_isDeferred_of_isWritten hd]
  rfl

end Restack
