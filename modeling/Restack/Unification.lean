import Restack.Error
import Restack.Substitution

/-!
# Unification

Extends a substitution so that two cells become equal under it. A variable unifies
with any term that does not contain it, quotations unify element by element, and
every other pair must already be equal.

Each call goes inside a quotation or follows a binding, and the number of calls in a
row is bounded by the sizes involved. On a substitution in which no variable leads
back to itself the bound is never met: following a binding lowers the rank of the
variables in sight, of which there are at most as many as variables, and between
two such moves only the size of the terms can go down.

## Main definitions

* `unify` — the extended substitution, or why there is none.
* `unifyVar` — the same for a variable and a term.
-/

namespace Restack

mutual

/-- The number of cells in a cell, counting those inside quotations. -/
def Cell.size : Cell → Nat
  | .quotation code => Cell.sizeList code + 1
  | _ => 1

/-- The number of cells in a list of cells. -/
def Cell.sizeList : List Cell → Nat
  | [] => 0
  | c :: cs => c.size + Cell.sizeList cs

end

namespace Substitution

/-- The number of cells in a substitution, its variables included. -/
def size (θ : Substitution) : Nat := θ.foldr (fun entry n => entry.2.size + 1 + n) 0

end Substitution

/-- A unification step: two cells and a substitution to the extended substitution. -/
abbrev Unifier := Cell → Cell → Substitution → Except UnifyError Substitution

/-- Unifies two sequences element by element; `mismatch` reports different lengths. -/
def unifyEach (unify : Unifier) (mismatch : UnifyError) :
    List Cell → List Cell → Substitution → Except UnifyError Substitution
  | [], [], θ => .ok θ
  | x :: xs, y :: ys, θ =>
    match unify x y θ with
    | .ok θ => unifyEach unify mismatch xs ys θ
    | .error e => .error e
  | _, _, _ => .error mismatch

/-- The cell that a term is bound to, if it is a bound variable. -/
def Substitution.binding? (θ : Substitution) : Cell → Option Cell
  | .var v => θ.get? v
  | _ => none

/-- Unifies a variable with a term, by way of what either is bound to, or by binding it. -/
def unifyVarBy (unify : Unifier) (v : String) (term : Cell) (θ : Substitution) :
    Except UnifyError Substitution :=
  match θ.get? v with
  | some bound => unify bound term θ
  | none =>
    match θ.binding? term with
    | some bound => unify (.var v) bound θ
    | none => if θ.occurs v term then .error (.occurs v term) else .ok (θ.bind v term)

/-- Unifies two cells with at most `n` calls in a row. -/
def unifyWithin : Nat → Unifier
  | 0, _, _, _ => .error .cyclic
  | n + 1, a, b, θ =>
    if a == b then .ok θ
    else
      match a, b with
      | .var v, b => unifyVarBy (unifyWithin n) v b θ
      | a, .var v => unifyVarBy (unifyWithin n) v a θ
      | .quotation xs, .quotation ys =>
        unifyEach (unifyWithin n) (.lengthMismatch xs ys) xs ys θ
      | a, b => if θ.substitute a == θ.substitute b then .ok θ else .error (.conflict a b)

/-- A number of calls in a row that suffices for cells and bindings of the given total size. -/
def callBound (size : Nat) : Nat := 2 * (size + 1) * (size + 1)

/-- Extends `θ` so that `a` and `b` become equal under it. -/
def unify (a b : Cell) (θ : Substitution) : Except UnifyError Substitution :=
  unifyWithin (callBound (a.size + b.size + θ.size)) a b θ

/-- Extends `θ` so that the variable `v` and the term become equal under it. -/
def unifyVar (v : String) (term : Cell) (θ : Substitution) : Except UnifyError Substitution :=
  unifyVarBy (unifyWithin (callBound (1 + term.size + θ.size))) v term θ

/-- Unifies every variable of a list of bindings with what it is bound to there. -/
def unifyBindings : List (String × Cell) → Substitution → Except UnifyError Substitution
  | [], θ => .ok θ
  | (v, c) :: entries, θ =>
    match unify (.var v) c θ with
    | .ok θ => unifyBindings entries θ
    | .error e => .error e

end Restack
