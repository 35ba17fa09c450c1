import Restack.Cell.Printer

/-!
# Faults of a run

What can stop an instruction or a unification, and the wording of each cause.
Unknown words, unsuitable operands in the lenient vocabularies and malformed states
are not faults.

## Main definitions

* `UnifyError`, `EngineError` and their `message`.
-/

namespace Restack

/-- Why two cells cannot be made equal. -/
inductive UnifyError where
  /-- The cells have incompatible shapes or are different constants. -/
  | conflict (left right : Cell)
  /-- Binding the variable would make a term contain itself. -/
  | occurs (var : String) (term : Cell)
  /-- Two sequences have different lengths. -/
  | lengthMismatch (left right : Stack)
  /-- The substitution leads from a variable back to itself. -/
  | cyclic

/-- The wording of a unification failure. -/
def UnifyError.message : UnifyError → String
  | conflict left right => "cannot unify " ++ left.toText ++ " with " ++ right.toText
  | occurs var term => "'" ++ var ++ " occurs in " ++ term.toText
  | lengthMismatch left right =>
    "length mismatch unifying " ++ left.toText ++ " with " ++ right.toText
  | cyclic => "cyclic substitution"

/-- Why an instruction cannot be applied. -/
inductive EngineError where
  /-- There are fewer data cells than the instruction takes. -/
  | arity (instruction : String) (expected found : Nat)
  /-- An operand has the wrong type. -/
  | typeMismatch (instruction : String) (expected : TypeTag) (found : Cell)
  /-- An integer was divided by zero. -/
  | divisionByZero
  /-- Integer arithmetic left the 64-bit range. -/
  | overflow (instruction : String)
  /-- Inference met a cell that has no type. -/
  | untyped (instruction : String) (cell : Cell)
  /-- Types contradict each other. -/
  | unification (cause : UnifyError)

namespace EngineError

/-- The wording of a fault. -/
def message : EngineError → String
  | arity instruction expected found =>
    instruction ++ ": expected " ++ toString expected ++ " argument(s), found " ++ toString found
  | typeMismatch instruction expected found =>
    instruction ++ ": expected " ++ expected.name ++ ", found " ++ found.toText
  | divisionByZero => "division by zero"
  | overflow instruction => instruction ++ ": integer overflow"
  | untyped instruction cell =>
    instruction ++ ": cannot determine the type of " ++ cell.toText
  | unification cause => cause.message

/-- A fault of arithmetic, reported by the named instruction. -/
def ofFault (instruction : String) : Number.Fault → EngineError
  | .divisionByZero => divisionByZero
  | .overflow => overflow instruction

end EngineError
end Restack
