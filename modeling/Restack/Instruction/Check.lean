import Restack.Cell.Basic

/-!
# The operand check

A check examines the operands of an instruction from the top down, without failing.
An operand of the wrong type is skipped: the instruction is run again beneath it,
and the skipped cell comes back afterwards. When the data runs out the instruction
is left unapplied, its name on the data as a plain symbol.

A check that accepts records takes a record or a dummy by the type it will have, and
keeps every dummy beside the record that produces its value:

* records that leave no value are stepped over and stay beneath the result;
* a rejected record is skipped together with the dummies beneath it;
* where that would hand one of those dummies to the instruction, or where the
  rejected cell is itself a dummy, the instruction is left unapplied.

## Main definitions

* `examine` — the operands that a check accepts, or where it stops.
* `dummyGroup` — the dummies that belong to a record.
* `retryBeneath` — the data after a rejected operand.
-/

namespace Restack

/-- What a check finds on the data. -/
inductive Examination where
  /-- Every requirement is met: the data is `popped` over `rest`. -/
  | accepted (popped : List Cell) (rest : Stack)
  /-- The data ran out. -/
  | exhausted
  /-- The data is `popped` over `cell` over `rest`, and `cell` does not meet `required`. -/
  | rejected (popped : List Cell) (cell : Cell) (required : TypeTag) (rest : Stack)

/-- The same finding with one more accepted cell on top. -/
def Examination.beneath (c : Cell) : Examination → Examination
  | accepted popped rest => accepted (c :: popped) rest
  | exhausted => exhausted
  | rejected popped cell required rest => rejected (c :: popped) cell required rest

/-- The type by which a check judges a cell. -/
def Cell.judgedType (acceptDeferred : Bool) (c : Cell) : Option TypeTag :=
  if acceptDeferred then c.deferredType else c.valueType

/-- Whether a cell meets a requirement. -/
def Cell.meets (acceptDeferred : Bool) (required : TypeTag) (c : Cell) : Bool :=
  (c.judgedType acceptDeferred).any required.admits

/-- Whether a check passes a cell by without counting it as an operand. -/
def Cell.steppedOver (acceptDeferred : Bool) (c : Cell) : Bool :=
  acceptDeferred && c.leavesNothing

/-- Examines the data against requirements listed top first. -/
def examine (acceptDeferred : Bool) : List TypeTag → Stack → Examination
  | [], data => .accepted [] data
  | _ :: _, [] => .exhausted
  | required :: inputs, c :: data =>
    if c.steppedOver acceptDeferred then
      (examine acceptDeferred (required :: inputs) data).beneath c
    else if c.meets acceptDeferred required then (examine acceptDeferred inputs data).beneath c
    else .rejected [] c required data

/-- The dummies at the top of the data, with the valueless records between them; the group ends in a
dummy. -/
def dummyGroup (data : Stack) : List Cell :=
  ((data.takeWhile fun c => c.isDummy || c.leavesNothing).reverse.dropWhile
    Cell.leavesNothing).reverse

/-- The dummies that are skipped along with a rejected cell. -/
def skippedDummies (acceptDeferred : Bool) (cell : Cell) (rest : Stack) : List Cell :=
  match cell with
  | .defer _ _ => if acceptDeferred then dummyGroup rest else []
  | _ => []

/-- Whether skipping a cell along with `group` would part a dummy from its record. -/
def partsDummy (acceptDeferred : Bool) (inputs : List TypeTag) (cell : Cell)
    (group : List Cell) : Bool :=
  acceptDeferred &&
    (cell.isDummy ||
      group.any fun c => c.isDummy && inputs.head?.any fun first => c.meets acceptDeferred first)

/-- The data after `cell`, beneath `popped` and above `rest`, was rejected: the instruction is run
again beneath it, or is left unapplied where a dummy would be parted from its record. -/
def retryBeneath (name : String) (acceptDeferred : Bool) (inputs : List TypeTag)
    (popped : List Cell) (cell : Cell) (rest : Stack) : Stack :=
  let group := skippedDummies acceptDeferred cell rest
  if partsDummy acceptDeferred inputs cell group then .symbol name :: (popped ++ cell :: rest)
  else
    .continuation (.symbol name :: (group.reverse ++ [cell])) :: (popped ++ rest.drop group.length)

end Restack
