import Restack.Cell.Equality

/-!
# Substitutions

A substitution binds variables to cells. Its bindings may mention variables that it
binds in turn, so a variable is followed until it leads to something unbound.
Variables are reached through quotations only; every other cell is opaque.

Following is bounded by the number of bindings. On a substitution in which no
variable leads back to itself the bound is never met, because a chain of followed
variables visits each of them at most once.

## Main definitions

* `Substitution`, `get?`, `bind`.
* `Cell.mapVars`, `Cell.anyVar` — the variables of a cell, once each.
* `Substitution.substitute`, `Substitution.occurs` — the same, following bindings.
-/

namespace Restack

/-- Variables and the cells they are bound to, in name order, each name once. -/
abbrev Substitution := List (String × Cell)

mutual

/-- Replaces every variable of a cell, inside quotations too, by what `f` says. -/
def Cell.mapVars (f : String → Cell) : Cell → Cell
  | .var v => f v
  | .quotation code => .quotation (Cell.mapVarsList f code)
  | c => c

/-- Replaces every variable of the cells by what `f` says. -/
def Cell.mapVarsList (f : String → Cell) : List Cell → List Cell
  | [] => []
  | c :: cs => c.mapVars f :: Cell.mapVarsList f cs

end

mutual

/-- Whether a variable of a cell, inside quotations too, satisfies `p`. -/
def Cell.anyVar (p : String → Bool) : Cell → Bool
  | .var v => p v
  | .quotation code => Cell.anyVarList p code
  | _ => false

/-- Whether a variable of one of the cells satisfies `p`. -/
def Cell.anyVarList (p : String → Bool) : List Cell → Bool
  | [] => false
  | c :: cs => c.anyVar p || Cell.anyVarList p cs

end

theorem Cell.mapVarsList_eq_map (f : String → Cell) (cs : List Cell) :
    Cell.mapVarsList f cs = cs.map (Cell.mapVars f) := by
  induction cs with
  | nil => rfl
  | cons c cs ih => simp [Cell.mapVarsList, ih]

theorem Cell.anyVarList_eq_any (p : String → Bool) (cs : List Cell) :
    Cell.anyVarList p cs = cs.any (Cell.anyVar p) := by
  induction cs with
  | nil => rfl
  | cons c cs ih => simp [Cell.anyVarList, ih]

namespace Substitution

/-- The cell a variable is bound to. -/
def get? (θ : Substitution) (v : String) : Option Cell := θ.lookup v

/-- Binds a variable, replacing an earlier binding, and keeps the bindings in name order. -/
def bind (θ : Substitution) (v : String) (c : Cell) : Substitution :=
  match θ with
  | [] => [(v, c)]
  | (w, d) :: rest =>
    if v < w then (v, c) :: (w, d) :: rest
    else if v = w then (v, c) :: rest
    else (w, d) :: bind rest v c

/-- The substitution that binds each name to the last cell listed for it. -/
def ofList (entries : List (String × Cell)) : Substitution :=
  entries.foldl (fun θ entry => bind θ entry.1 entry.2) []

/-- Replaces bound variables, following at most `n` bindings in a row. -/
def substituteWithin (θ : Substitution) : Nat → Cell → Cell
  | 0, c => c
  | n + 1, c =>
    c.mapVars fun v =>
      match θ.get? v with
      | some bound => substituteWithin θ n bound
      | none => .var v

/-- Replaces every bound variable of a cell by what it leads to. -/
def substitute (θ : Substitution) (c : Cell) : Cell := substituteWithin θ θ.length c

/-- Whether `var` is met in a term, following at most `n` bindings in a row. -/
def occursWithin (θ : Substitution) (var : String) : Nat → Cell → Bool
  | 0, term => term.anyVar (· == var)
  | n + 1, term =>
    term.anyVar fun v =>
      v == var ||
        match θ.get? v with
        | some bound => occursWithin θ var n bound
        | none => false

/-- Whether `var` is met in a term once its bound variables are followed. -/
def occurs (θ : Substitution) (var : String) (term : Cell) : Bool :=
  occursWithin θ var θ.length term

end Substitution
end Restack
