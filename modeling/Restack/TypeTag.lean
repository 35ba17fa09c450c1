/-!
# Type tags

A type is named by a string, so that a signature may introduce types of its own
(`point`, `matrix`) beside the built-in ones. Two tags only ever state a
requirement: `any` is met by every type and `num` by the three numeric ones.

## Main definitions

* `TypeTag` and the built-in tags.
* `TypeTag.admits` — when a value of one type meets a requirement.
* `TypeTag.promote` — numeric promotion, `int < float < double`.
-/

namespace Restack

/-- A concrete type, identified by its name. -/
structure TypeTag where
  /-- The name the type is written and compared by. -/
  name : String
  deriving DecidableEq, Inhabited

namespace TypeTag

/-- The type of 64-bit integers. -/
def int : TypeTag := ⟨"int"⟩
/-- The type of single-precision floats. -/
def float : TypeTag := ⟨"float"⟩
/-- The type of double-precision floats. -/
def double : TypeTag := ⟨"double"⟩
/-- The type of truth values. -/
def bool : TypeTag := ⟨"bool"⟩
/-- The type of text literals. -/
def text : TypeTag := ⟨"text"⟩
/-- The type of quotations. -/
def quot : TypeTag := ⟨"quot"⟩
/-- The type of type tags and type variables themselves. -/
def type : TypeTag := ⟨"type"⟩
/-- The requirement that every type meets; never the type of a value. -/
def any : TypeTag := ⟨"any"⟩
/-- The requirement that the numeric types meet; never the type of a value. -/
def num : TypeTag := ⟨"num"⟩

/-- Whether the tag is one of the three numeric scalar types. -/
def isNumeric (t : TypeTag) : Bool :=
  t == int || t == float || t == double

/-- Whether a value of type `actual` meets the requirement: `any` admits every
type, `num` the numeric types, and every other tag only itself. -/
def admits (required actual : TypeTag) : Bool :=
  required == any || required == actual || (required == num && actual.isNumeric)

/-- The place of a numeric type in the order of promotion. -/
def rank? (t : TypeTag) : Option Nat :=
  if t = int then some 0
  else if t = float then some 1
  else if t = double then some 2
  else none

/-- The wider of two numeric types, or `none` if either is not numeric. -/
def promote (a b : TypeTag) : Option TypeTag :=
  match a.rank?, b.rank? with
  | some m, some n => some (if m ≥ n then a else b)
  | _, _ => none

/-- Tags are ordered by name, code point by code point. -/
instance : Ord TypeTag := ⟨fun a b => compare a.name b.name⟩

theorem any_admits (t : TypeTag) : any.admits t = true := by simp [admits]

theorem admits_self (t : TypeTag) : t.admits t = true := by simp [admits]

end TypeTag
end Restack
