/-!
# Fresh names

A source of variable names that never repeat: each name carries the number of names
drawn before it.
-/

namespace Restack

/-- A source of fresh names. -/
structure NameSource where
  /-- The number the next fresh name will carry. -/
  next : Nat := 0
  deriving DecidableEq, Inhabited

/-- Draws a name derived from `base`: `a` becomes `a_0`, then `a_1`, and so on. -/
def NameSource.fresh (names : NameSource) (base : String) : String × NameSource :=
  (base ++ "_" ++ toString names.next, ⟨names.next + 1⟩)

end Restack
