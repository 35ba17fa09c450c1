import Restack.Instruction.Declared
import Restack.Source.Lexeme

/-!
# Reading cells

Lexemes are read from left to right with a stack of open brackets: a literal or a
bareword goes into the innermost of them, and a closing bracket turns it into a
quotation, which goes into the next. A cell is complete when no bracket is open.

Barewords are symbols in programs, type names in type lists, and may be given another
meaning by name.

## Main definitions

* `Frame`, `advance` — one lexeme against the open brackets.
* `readCell`, `readCells` — one cell, and all of them.
* `parse`, `parseWith`, `parseState`, `parseProgram`, `parseTypes`,
  `parseSignature` — the texts that can be read.
-/

namespace Restack.Source

/-- An open bracket. -/
structure Frame where
  /-- The byte offset of the bracket. -/
  start : Nat
  /-- The cells read since, the last one first. -/
  cells : List Cell := []

/-- What one more lexeme leads to. -/
inductive Progress where
  /-- A cell is complete, and no bracket is open. -/
  | complete (cell : Cell)
  /-- These brackets are open, the innermost first. -/
  | pending (frames : List Frame)

/-- Puts a cell into the innermost open bracket. -/
def place (c : Cell) : List Frame → Progress
  | [] => .complete c
  | frame :: outer => .pending ({ frame with cells := c :: frame.cells } :: outer)

/-- Reads one lexeme with the given brackets open. -/
def advance (meaning : String → Cell) (frames : List Frame) (lexeme : Lexeme) :
    Except ParseError Progress :=
  match lexeme.token with
  | .opening => .ok (.pending ({ start := lexeme.start } :: frames))
  | .closing =>
    match frames with
    | [] => .error ⟨.unmatchedClose, lexeme.start⟩
    | frame :: outer => .ok (place (.quotation frame.cells.reverse) outer)
  | .literal c => .ok (place c frames)
  | .bareword name => .ok (place (meaning name) frames)
  | .faulty e => .error e

/-- Reads one cell off lexemes of a text that ends at byte `stop`, with the given brackets open; the
result is the cell and what follows it. -/
def readCell (meaning : String → Cell) (stop : Nat) :
    List Frame → List Lexeme → Except ParseError (Cell × List Lexeme)
  | [], [] => .error ⟨.expectedCell, stop⟩
  | frame :: _, [] => .error ⟨.unclosed, frame.start⟩
  | frames, lexeme :: rest =>
    match advance meaning frames lexeme with
    | .error e => .error e
    | .ok (.complete c) => .ok (c, rest)
    | .ok (.pending frames) => readCell meaning stop frames rest

/-- Reads cells until the lexemes end, with the given brackets open. -/
def readCells (meaning : String → Cell) : List Frame → List Lexeme → Except ParseError (List Cell)
  | [], [] => .ok []
  | frame :: _, [] => .error ⟨.unclosed, frame.start⟩
  | frames, lexeme :: rest =>
    match advance meaning frames lexeme with
    | .error e => .error e
    | .ok (.complete c) => (readCells meaning [] rest).map (c :: ·)
    | .ok (.pending frames) => readCells meaning frames rest

/-- Where lexemes of a text that ends at byte `stop` begin. -/
def startOf (stop : Nat) : List Lexeme → Nat
  | [] => stop
  | lexeme :: _ => lexeme.start

/-- Refuses lexemes that follow a complete text. -/
def expectEnd : List Lexeme → Except ParseError Unit
  | [] => .ok ()
  | lexeme :: _ => .error ⟨.trailingInput, lexeme.start⟩

/-- Whether the lexemes begin with an opening bracket. -/
def beginsOpen : List Lexeme → Bool
  | ⟨_, _, .opening⟩ :: _ => true
  | _ => false

/-- The code of a quotation; other cells have none. -/
def codeOf (c : Cell) : List Cell := c.quotation?.getD []

/-- Reads a bracketed group of cells, or fails with `fault` where no bracket opens. -/
def readGroup (meaning : String → Cell) (fault : ParseFault) (stop : Nat)
    (lexemes : List Lexeme) : Except ParseError (List Cell × List Lexeme) :=
  if beginsOpen lexemes then
    (readCell meaning stop [] lexemes).map fun (c, rest) => (codeOf c, rest)
  else .error ⟨fault, startOf stop lexemes⟩

/-- The meaning of barewords in a type list. -/
def typeNamed (name : String) : Cell := .type ⟨name⟩

/-- The meaning of barewords where some of them stand for cells. -/
def meaningWith (names : List (String × Cell)) (name : String) : Cell :=
  (names.lookup name).getD (.symbol name)

/-- Reads exactly one cell, with the given meaning of barewords. -/
def parseMeaning (meaning : String → Cell) (text : List Char) : Except ParseError Cell := do
  let (c, rest) ← readCell meaning (byteLength text) [] (lexemes text)
  expectEnd rest
  return c

/-- Reads exactly one cell. -/
def parse (text : String) : Except ParseError Cell := parseMeaning .symbol text.toList

/-- Reads exactly one cell; a bareword among `names` stands for its cell. -/
def parseWith (names : List (String × Cell)) (text : String) : Except ParseError Cell :=
  parseMeaning (meaningWith names) text.toList

/-- Reads a program state: one bracketed group whose first cell is on top. -/
def parseState (text : String) : Except ParseError Stack := do
  let text := text.toList
  let (state, rest) ← readGroup .symbol .expectedState (byteLength text) (lexemes text)
  expectEnd rest
  return state

/-- Reads the cells of a program, first to run first. -/
def parseProgram (text : String) : Except ParseError (List Cell) :=
  readCells .symbol [] (lexemes text.toList)

/-- Reads a bracketed list of types. -/
def parseTypes (text : String) : Except ParseError Stack := do
  let text := text.toList
  let (types, rest) ← readGroup typeNamed .expectedTypes (byteLength text) (lexemes text)
  expectEnd rest
  return types

/-- Passes the arrow between the two sides of a stack effect. A word that only starts with an arrow
leaves its remaining characters where a type list must open. -/
def passArrow (stop : Nat) : List Lexeme → Except ParseError (List Lexeme)
  | ⟨start, _, .bareword name⟩ :: rest =>
    match name.toList with
    | '-' :: '>' :: [] => .ok rest
    | '-' :: '>' :: _ => .error ⟨.expectedTypes, start + 2⟩
    | _ => .error ⟨.expectedArrow, start⟩
  | lexemes => .error ⟨.expectedArrow, startOf stop lexemes⟩

/-- Reads a stack effect, both sides top first. -/
def parseSignature (text : String) : Except ParseError Signature := do
  let text := text.toList
  let stop := byteLength text
  let (consumes, rest) ← readGroup typeNamed .expectedTypes stop (lexemes text)
  let rest ← passArrow stop rest
  let (produces, rest) ← readGroup typeNamed .expectedTypes stop rest
  expectEnd rest
  return ⟨consumes, produces⟩

end Restack.Source
