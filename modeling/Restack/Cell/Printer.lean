import Restack.Cell.Basic
import Restack.Decimal.Layout
import Restack.Text.Quoted

/-!
# The text of cells and stacks

A stack is written top first between brackets, which for a quotation is the order
its code runs in. A state is also shown with its code and its data set apart by a
bullet.

## Main definitions

* `Cell.chars`, `Stack.chars` — the text of a cell and of a stack.
* `Stack.pivot` — a state as `[code • data]`.
* `Bindings.chars` — variables and what they are bound to.
-/

namespace Restack

mutual

/-- The text of a cell. -/
def Cell.chars : Cell → List Char
  | .int v => Decimal.integer v.toInt
  | .float v => singleText v
  | .double v => doubleText v
  | .bool true => ['t', 'r', 'u', 'e']
  | .bool false => ['f', 'a', 'l', 's', 'e']
  | .text s => Text.quote s.toList
  | .symbol name => name.toList
  | .quotation code => '[' :: Cell.charsList code ++ [']']
  | .instruction op => op.name.toList
  | .continuation code => "continue[".toList ++ Cell.charsList code ++ [']']
  | .defer record none => "defer[".toList ++ Cell.charsList record ++ [']']
  | .defer record (some tag) =>
    "defer[".toList ++ Cell.charsList record ++ ']' :: ':' :: tag.name.toList
  | .dummy tag => "dummy:".toList ++ tag.name.toList
  | .type tag => tag.name.toList
  | .var name => '\x27' :: name.toList
  | .bindings entries => '\x7b' :: Cell.charsBindings entries ++ ['\x7d']
  | .residual needs => "needs[".toList ++ Cell.charsList needs ++ [']']

/-- The texts of cells, a space between them. -/
def Cell.charsList : List Cell → List Char
  | [] => []
  | [c] => c.chars
  | c :: d :: cs => c.chars ++ ' ' :: Cell.charsList (d :: cs)

/-- The texts of bindings, a comma between them. -/
def Cell.charsBindings : List (String × Cell) → List Char
  | [] => []
  | [(v, c)] => '\x27' :: v.toList ++ ':' :: ' ' :: c.chars
  | (v, c) :: d :: cs =>
    '\x27' :: v.toList ++ ':' :: ' ' :: c.chars ++ ',' :: ' ' :: Cell.charsBindings (d :: cs)

end

/-- The text of a cell, as a string. -/
def Cell.toText (c : Cell) : String := .ofList c.chars

namespace Stack

/-- The text of a stack, top first. -/
def chars (s : Stack) : List Char := '[' :: Cell.charsList s ++ [']']

/-- The text of a stack, as a string. -/
def toText (s : Stack) : String := .ofList (chars s)

/-- The text of a state, its code and its data set apart; a stack without code on top is written as
any other stack. -/
def pivot : Stack → List Char
  | .quotation code :: data =>
    '[' :: Cell.charsList code ++ (if code.isEmpty then [] else [' ']) ++
      '•' :: (data.flatMap fun c => ' ' :: c.chars) ++ [']']
  | s => chars s

/-- The text of a state with its code and data set apart, as a string. -/
def pivotText (s : Stack) : String := .ofList (pivot s)

end Stack
end Restack
