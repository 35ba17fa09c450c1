import Restack.Toml.Scalar

/-!
# Reading TOML

A document is a sequence of lines: headers, assignments, comments and blank lines.
Strings have four forms; arrays may run over several lines, tables in braces may not.

A reader takes characters off the front of a text and returns what follows. Loops are
given the number of characters left, which bounds their rounds.

## Main definitions

* `readKey`, `readPath` — keys.
* `readText?` — the four forms of strings.
* `readValue` — values of every kind.
* `parse?` — a whole document.
-/

namespace Restack.Toml

/-- Whether a character may stand in a comment or a one-line string. -/
def isTextChar (c : Char) : Bool := c == '\t' || (0x20 ≤ c.toNat && c.toNat != 0x7F)

/-- Whether a character is a blank within a line. -/
def isSpace (c : Char) : Bool := c == ' ' || c == '\t'

/-- Drops blanks within a line. -/
def skipSpaces (cs : List Char) : List Char := cs.dropWhile isSpace

/-- Drops the end of a line. -/
def newline? : List Char → Option (List Char)
  | '\n' :: cs => some cs
  | '\r' :: '\n' :: cs => some cs
  | _ => none

/-- Drops a comment, up to the end of its line. -/
def skipComment : List Char → List Char
  | '#' :: cs => cs.dropWhile isTextChar
  | cs => cs

/-- Drops blanks, comments and line ends, in at most `rounds` lines. -/
def skipFiller : (rounds : Nat) → List Char → List Char
  | 0, cs => cs
  | rounds + 1, cs =>
    let cs := skipSpaces cs
    match newline? (skipComment cs) with
    | some rest => skipFiller rounds rest
    | none => cs

/-- Drops blanks and line ends. -/
def skipBlankLines : (rounds : Nat) → List Char → List Char
  | 0, cs => cs
  | rounds + 1, cs =>
    let cs := skipSpaces cs
    match newline? cs with
    | some rest => skipBlankLines rounds rest
    | none => cs

/-! ### Strings -/

/-- The character of a short escape. -/
def shortEscape? (c : Char) : Option Char :=
  if c = 'b' then some '\x08'
  else if c = 't' then some '\t'
  else if c = 'n' then some '\n'
  else if c = 'f' then some '\x0c'
  else if c = 'r' then some '\r'
  else if c = '"' then some '"'
  else if c = '\\' then some '\\'
  else none

/-- Reads a code point of the given number of hexadecimal digits. -/
def readCodePoint (width : Nat) (cs : List Char) : Option (Char × List Char) :=
  let ds := cs.take width
  let n := digitsValue 16 ds
  if ds.length == width && ds.all isHexDigit && n.isValidChar then
    some (.ofNat n, cs.drop width)
  else none

/-- Reads what follows the backslash of an escape. -/
def readEscape : List Char → Option (Char × List Char)
  | 'u' :: cs => readCodePoint 4 cs
  | 'U' :: cs => readCodePoint 8 cs
  | c :: cs => (shortEscape? c).map (·, cs)
  | [] => none

/-- Reads a one-line string with escapes, after its opening quote. -/
def readBasic : (rounds : Nat) → List Char → Option (List Char × List Char)
  | 0, _ => none
  | _ + 1, [] => none
  | rounds + 1, c :: cs =>
    if c = '"' then some ([], cs)
    else if c = '\\' then do
      let (d, cs) ← readEscape cs
      let (s, rest) ← readBasic rounds cs
      return (d :: s, rest)
    else if isTextChar c then do
      let (s, rest) ← readBasic rounds cs
      return (c :: s, rest)
    else none

/-- Reads a one-line string without escapes, after its opening quote. -/
def readLiteral : List Char → Option (List Char × List Char)
  | [] => none
  | c :: cs =>
    if c = '\x27' then some ([], cs)
    else if isTextChar c then do
      let (s, rest) ← readLiteral cs
      return (c :: s, rest)
    else none

/-- Drops a line end right after the opening quotes. -/
def skipFirstNewline (cs : List Char) : List Char := (newline? cs).getD cs

/-- Splits off the quotes that end a string of several lines: three, after at most two that
belong to it. -/
def closing? (mark : Char) (cs : List Char) : Option (List Char × List Char) :=
  let marks := (cs.takeWhile (· == mark)).length
  if marks < 3 then none
  else
    let inside := min marks 5 - 3
    some (List.replicate inside mark, cs.drop (inside + 3))

/-- Drops a backslash at the end of a line with all blanks and line ends after it. -/
def lineContinuation? : List Char → Option (List Char)
  | '\\' :: cs => (newline? (skipSpaces cs)).map fun rest => skipBlankLines (rest.length + 1) rest
  | _ => none

/-- Reads a string of several lines after its opening quotes. -/
def readLines (mark : Char) (escapes : Bool) :
    (rounds : Nat) → List Char → Option (List Char × List Char)
  | 0, _ => none
  | _ + 1, [] => none
  | rounds + 1, c :: cs =>
    match closing? mark (c :: cs) with
    | some (s, rest) => some (s, rest)
    | none =>
      match newline? (c :: cs) with
      | some rest => do
        let (s, rest) ← readLines mark escapes rounds rest
        return ('\n' :: s, rest)
      | none =>
        if escapes && c == '\\' then
          match lineContinuation? (c :: cs) with
          | some rest => readLines mark escapes rounds rest
          | none => do
            let (d, cs) ← readEscape cs
            let (s, rest) ← readLines mark escapes rounds cs
            return (d :: s, rest)
        else if isTextChar c then do
          let (s, rest) ← readLines mark escapes rounds cs
          return (c :: s, rest)
        else none

/-- Reads a string of any of the four forms. -/
def readText? (cs : List Char) : Option (String × List Char) :=
  let found : Option (List Char × List Char) :=
    match cs with
    | '"' :: '"' :: '"' :: cs => readLines '"' true (cs.length + 1) (skipFirstNewline cs)
    | '\x27' :: '\x27' :: '\x27' :: cs =>
      readLines '\x27' false (cs.length + 1) (skipFirstNewline cs)
    | '"' :: cs => readBasic (cs.length + 1) cs
    | '\x27' :: cs => readLiteral cs
    | _ => none
  found.map fun (s, rest) => (.ofList s, rest)

/-! ### Keys -/

/-- Whether a character may stand in a key without quotes. -/
def isKeyChar (c : Char) : Bool :=
  c.isAlphanum || c == '_' || c == '-'

/-- Reads one key. -/
def readKey (cs : List Char) : Option (String × List Char) :=
  match cs with
  | '"' :: cs => (readBasic (cs.length + 1) cs).map fun (s, rest) => (.ofList s, rest)
  | '\x27' :: cs => (readLiteral cs).map fun (s, rest) => (.ofList s, rest)
  | cs =>
    let key := cs.takeWhile isKeyChar
    if key.isEmpty then none else some (.ofList key, cs.dropWhile isKeyChar)

/-- Reads a dotted key and the blanks around it. -/
def readPath : (rounds : Nat) → List Char → Option (List String × List Char)
  | 0, _ => none
  | rounds + 1, cs => do
    let (key, rest) ← readKey (skipSpaces cs)
    match skipSpaces rest with
    | '.' :: rest =>
      let (path, rest) ← readPath rounds rest
      return (key :: path, rest)
    | rest => return ([key], rest)

/-! ### Values -/

/-- Whether a character may stand in a scalar without quotes. -/
def isScalarChar (c : Char) : Bool :=
  c.isAlphanum || c == '+' || c == '-' || c == '_' || c == '.' || c == ':'

/-- Reads a scalar without quotes; a date may be parted from its time by one space. -/
def readScalar (cs : List Char) : Option (Value × List Char) := do
  let word := cs.takeWhile isScalarChar
  let rest := cs.dropWhile isScalarChar
  match rest with
  | ' ' :: c :: more =>
    if isDate word && c.isDigit then
      let time := (c :: more).takeWhile isScalarChar
      let v ← scalar? (word ++ ' ' :: time)
      return (v, (c :: more).dropWhile isScalarChar)
    else
      let v ← scalar? word
      return (v, rest)
  | rest =>
    let v ← scalar? word
    return (v, rest)

/-- Reads the items of an array after its opening bracket, each by `item`. -/
def readItems (item : List Char → Option (Value × List Char)) :
    (rounds : Nat) → List Char → Option (List Value × List Char)
  | 0, _ => none
  | rounds + 1, cs =>
    match skipFiller (cs.length + 1) cs with
    | ']' :: rest => some ([], rest)
    | cs => do
      let (v, cs) ← item cs
      match skipFiller (cs.length + 1) cs with
      | ',' :: rest =>
        let (vs, rest) ← readItems item rounds rest
        return (v :: vs, rest)
      | ']' :: rest => return ([v], rest)
      | _ => none

/-- Reads an assignment whose value is read by `item`. -/
def readPair (item : List Char → Option (Value × List Char)) (cs : List Char) :
    Option ((List String × Value) × List Char) := do
  let (path, cs) ← readPath (cs.length + 1) cs
  match cs with
  | '=' :: cs =>
    let (v, cs) ← item (skipSpaces cs)
    return ((path, v), skipSpaces cs)
  | _ => none

/-- Reads the assignments of a table in braces after its first brace, each value by `item`. -/
def readPairs (item : List Char → Option (Value × List Char)) :
    (rounds : Nat) → List Char → Option (List (List String × Value) × List Char)
  | 0, _ => none
  | rounds + 1, cs => do
    let (pair, cs) ← readPair item cs
    match cs with
    | ',' :: rest =>
      let (pairs, rest) ← readPairs item rounds rest
      return (pair :: pairs, rest)
    | '\x7d' :: rest => return ([pair], rest)
    | _ => none

/-- Reads a value in which arrays and tables nest at most `depth` deep. -/
def readValue : (depth : Nat) → List Char → Option (Value × List Char)
  | 0, _ => none
  | depth + 1, cs =>
    match cs with
    | '[' :: cs => do
      let (items, rest) ← readItems (readValue depth) (cs.length + 1) cs
      return (.array items, rest)
    | '\x7b' :: cs =>
      match skipSpaces cs with
      | '\x7d' :: rest => some (.table .complete [], rest)
      | cs => do
        let (pairs, rest) ← readPairs (readValue depth) (cs.length + 1) cs
        let table ← completeTable pairs
        return (table, rest)
    | cs =>
      match readText? cs with
      | some (s, rest) => some (.text s, rest)
      | none => readScalar cs

/-- How deep arrays and tables may nest. -/
def depthLimit : Nat := 80

/-! ### Documents -/

/-- Whether a line may end here; what follows the line. -/
def endLine? (cs : List Char) : Option (List Char) :=
  match skipComment (skipSpaces cs) with
  | [] => some []
  | cs => newline? cs

/-- A document being read: its tables, and the path of the open one. -/
structure Draft where
  /-- The tables read so far. -/
  root : Entries := []
  /-- The keys that lead to the table that assignments go into. -/
  current : List String := []

/-- Reads a header after its first bracket. -/
def readHeader (draft : Draft) (cs : List Char) : Option (Draft × List Char) :=
  match cs with
  | '[' :: cs => do
    let (path, cs) ← readPath (cs.length + 1) cs
    match cs with
    | ']' :: ']' :: rest =>
      let root ← appendTable path draft.root
      return (⟨root, path⟩, rest)
    | _ => none
  | cs => do
    let (path, cs) ← readPath (cs.length + 1) cs
    match cs with
    | ']' :: rest =>
      let root ← openTable path draft.root
      return (⟨root, path⟩, rest)
    | _ => none

/-- Reads an assignment into the open table. -/
def readAssignment (draft : Draft) (cs : List Char) : Option (Draft × List Char) := do
  let ((path, v), rest) ← readPair (readValue depthLimit) cs
  let root ← alongHeaders (assign path v) draft.current .header draft.root
  return ({ draft with root }, rest)

/-- Reads what a line starts with, if it is not blank or a comment. -/
def readStatement (draft : Draft) (cs : List Char) : Option (Draft × List Char) :=
  match cs with
  | [] => some (draft, [])
  | c :: rest =>
    if c = '[' then readHeader draft rest
    else if c = '#' ∨ c = '\n' ∨ c = '\r' then some (draft, c :: rest)
    else readAssignment draft (c :: rest)

/-- Reads the lines of a document. -/
def readDocument : (rounds : Nat) → Draft → List Char → Option Entries
  | 0, draft, _ => some draft.root
  | _ + 1, draft, [] => some draft.root
  | rounds + 1, draft, cs => do
    let (draft, rest) ← readStatement draft (skipSpaces cs)
    let rest ← endLine? rest
    readDocument rounds draft rest

/-- Drops a byte order mark. -/
def skipMark : List Char → List Char
  | '\ufeff' :: cs => cs
  | cs => cs

/-- Reads a whole document. -/
def parse? (text : String) : Option Entries :=
  let cs := skipMark text.toList
  readDocument (cs.length + 1) {} cs

end Restack.Toml
