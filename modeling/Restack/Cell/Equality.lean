import Restack.Cell.Basic

/-!
# Equality of cells

Cells are compared by structure. Floats compare as IEEE 754 says, so a NaN differs
from itself and the two zeros are equal; instructions compare by name, as they are
looked up by name.
-/

namespace Restack

mutual

/-- Whether two cells are equal. -/
def Cell.beq : Cell → Cell → Bool
  | .int a, .int b => a == b
  | .float a, .float b => a == b
  | .double a, .double b => a == b
  | .bool a, .bool b => a == b
  | .text a, .text b => a == b
  | .symbol a, .symbol b => a == b
  | .quotation a, .quotation b => Cell.beqList a b
  | .instruction a, .instruction b => a.name == b.name
  | .continuation a, .continuation b => Cell.beqList a b
  | .defer a s, .defer b t => Cell.beqList a b && s == t
  | .dummy a, .dummy b => a == b
  | .type a, .type b => a == b
  | .var a, .var b => a == b
  | .bindings a, .bindings b => Cell.beqBindings a b
  | .residual a, .residual b => Cell.beqList a b
  | _, _ => false

/-- Whether two lists of cells are equal. -/
def Cell.beqList : List Cell → List Cell → Bool
  | [], [] => true
  | a :: as, b :: bs => Cell.beq a b && Cell.beqList as bs
  | _, _ => false

/-- Whether two lists of bindings are equal. -/
def Cell.beqBindings : List (String × Cell) → List (String × Cell) → Bool
  | [], [] => true
  | (v, a) :: as, (w, b) :: bs => v == w && Cell.beq a b && Cell.beqBindings as bs
  | _, _ => false

end

instance : BEq Cell := ⟨Cell.beq⟩

end Restack
