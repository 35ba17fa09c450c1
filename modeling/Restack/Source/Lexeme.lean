import Restack.Cell.Basic
import Restack.Decimal.Basic
import Restack.Text.Quoted

/-!
# Lexemes

Source text is cut into lexemes: brackets, literals and barewords, each with the
bytes it spans. Blanks separate words and are otherwise skipped. The first fault
ends the list, as a lexeme of its own, so that a reader which stops earlier never
sees it.

## Main definitions

* `ParseFault`, `ParseError` — what is wrong, and at which byte.
* `Token`, `Lexeme`.
* `Source.wordToken` — what a run of word characters stands for.
* `Source.lexemes` — the lexemes of a text.
-/

namespace Restack

/-- What is wrong with a text. -/
inductive ParseFault where
  /-- The text ends, or something else stands, where a cell must. -/
  | expectedCell
  /-- A bracket is closed that was not opened. -/
  | unmatchedClose
  /-- A bracket is not closed. -/
  | unclosed
  /-- A text literal has no closing quote. -/
  | unterminatedText
  /-- A text literal escapes a character that has no escape. -/
  | unknownEscape (escaped : Char)
  /-- A quote mark is not followed by a variable name. -/
  | expectedVariable
  /-- A type literal is not of the form `typeof(name)`. -/
  | malformedTypeof
  /-- A word that starts like a number is none. -/
  | malformedNumber (word : String)
  /-- An integer is outside the 64-bit range. -/
  | integerOutOfRange (word : String)
  /-- Something follows a complete text. -/
  | trailingInput
  /-- A program state does not start with a bracket. -/
  | expectedState
  /-- A type list does not start with a bracket. -/
  | expectedTypes
  /-- The two sides of a stack effect are not set apart. -/
  | expectedArrow
  deriving DecidableEq

/-- The wording of a fault. -/
def ParseFault.message : ParseFault → String
  | expectedCell => "expected a cell"
  | unmatchedClose => "unmatched ']'"
  | unclosed => "unclosed '['"
  | unterminatedText => "unterminated text"
  | unknownEscape escaped => "unknown escape '\\" ++ escaped.toString ++ "'"
  | expectedVariable => "expected a variable name after '"
  | malformedTypeof => "malformed typeof(...)"
  | malformedNumber word => "malformed number '" ++ word ++ "'"
  | integerOutOfRange word => "integer '" ++ word ++ "' out of range"
  | trailingInput => "unexpected trailing input"
  | expectedState => "expected '[' to open a program state"
  | expectedTypes => "expected '[' to open a type list"
  | expectedArrow => "expected '->'"

/-- A fault and the byte offset at which it was found. -/
structure ParseError where
  /-- What is wrong. -/
  fault : ParseFault
  /-- The byte offset into the text. -/
  offset : Nat
  deriving DecidableEq

/-- The wording of an error. -/
def ParseError.message (e : ParseError) : String :=
  e.fault.message ++ " at offset " ++ toString e.offset

/-- What a lexeme stands for. -/
inductive Token where
  /-- An opening bracket. -/
  | opening
  /-- A closing bracket. -/
  | closing
  /-- A literal: a number, truth value, text, type or variable. -/
  | literal (cell : Cell)
  /-- A word whose meaning is up to the reader. -/
  | bareword (name : String)
  /-- Text that is no lexeme. -/
  | faulty (error : ParseError)

/-- A token and the bytes it spans. -/
structure Lexeme where
  /-- The offset of its first byte. -/
  start : Nat
  /-- The offset after its last byte. -/
  stop : Nat
  /-- What it stands for. -/
  token : Token

namespace Source

/-- The blanks that separate words. -/
def isBlank (c : Char) : Bool :=
  c == ' ' || c == '\t' || c == '\n' || c == '\x0c' || c == '\r'

/-- Whether a character may stand inside a word. -/
def isWordChar (c : Char) : Bool :=
  !(isBlank c || c == '[' || c == ']' || c == '"')

/-- The number of bytes that characters take up. -/
def byteLength (cs : List Char) : Nat := cs.foldr (fun c n => c.utf8Size + n) 0

@[simp] theorem byteLength_nil : byteLength [] = 0 := rfl

@[simp] theorem byteLength_cons (c : Char) (cs : List Char) :
    byteLength (c :: cs) = c.utf8Size + byteLength cs := rfl

@[simp] theorem byteLength_append (cs ds : List Char) :
    byteLength (cs ++ ds) = byteLength cs + byteLength ds := by
  induction cs with
  | nil => simp
  | cons c cs ih => simp [ih, Nat.add_assoc]

/-- Drops a leading minus sign. -/
def dropMinus : List Char → List Char
  | '-' :: cs => cs
  | cs => cs

/-- Whether a word is a number if it is well formed: it starts with a digit, or with a minus sign
and a digit. -/
def looksNumeric (word : List Char) : Bool := (dropMinus word).head?.any Char.isDigit

/-- The name in a type literal, given what follows `typeof(`: all up to a final bracket. -/
def typeofName? (cs : List Char) : Option (List Char) :=
  let name := cs.dropLast
  if cs.getLast? == some ')' && !name.isEmpty && name.all (fun c => c != '(' && c != ')') then
    some name
  else none

/-- The value of an integer literal. -/
def integerValue (word : List Char) : Int :=
  if word.head? == some '-' then -(Decimal.ofDigits (dropMinus word) : Int)
  else Decimal.ofDigits word

/-- Reads a number: one that ends in `f` is a single-precision float, digits alone are an integer,
and all else is a double. -/
def readNumber (word : List Char) : Except ParseFault Cell :=
  let malformed : Except ParseFault Cell := .error (.malformedNumber (.ofList word))
  if word.getLast? == some 'f' then
    match Decimal.read? word.dropLast with
    | some (negative, d) => .ok (.float (if negative then -d.toFloat32 else d.toFloat32))
    | none => malformed
  else if (dropMinus word).all Char.isDigit then
    match Number.ofInt? (integerValue word) with
    | some v => .ok (.int v)
    | none => .error (.integerOutOfRange (.ofList word))
  else
    match Decimal.read? word with
    | some (negative, d) => .ok (.double (if negative then -d.toFloat else d.toFloat))
    | none => malformed

/-- What opens a type literal. -/
def typeofOpening : List Char := ['t', 'y', 'p', 'e', 'o', 'f', '(']

/-- What a word at a byte offset stands for. -/
def wordToken (start : Nat) (word : List Char) : Token :=
  if typeofOpening.isPrefixOf word then
    match typeofName? (word.drop typeofOpening.length) with
    | some name => .literal (.type ⟨.ofList name⟩)
    | none => .faulty ⟨.malformedTypeof, start⟩
  else if word = ['t', 'r', 'u', 'e'] then .literal (.bool true)
  else if word = ['f', 'a', 'l', 's', 'e'] then .literal (.bool false)
  else if looksNumeric word then
    match readNumber word with
    | .ok c => .literal c
    | .error fault => .faulty ⟨fault, start⟩
  else .bareword (.ofList word)

/-- What a quote mark at a byte offset, followed by `name`, stands for. -/
def variableToken (start : Nat) (name : List Char) : Token :=
  if name.head?.any fun c => Text.isAlphabetic c || c == '_' then .literal (.var (.ofList name))
  else .faulty ⟨.expectedVariable, start⟩

/-- The error for a text literal that opens at a byte offset. -/
def textError (start : Nat) : Text.QuoteFault → ParseError
  | .unterminated => ⟨.unterminatedText, start⟩
  | .unknownEscape after escaped => ⟨.unknownEscape escaped, start + 1 + after⟩

theorem length_lt_of_decode {after : Nat} {cs s rest : List Char}
    (h : Text.decode after cs = .ok (s, rest)) : rest.length < cs.length := by
  fun_induction Text.decode after cs generalizing s <;> grind

/-- The lexemes of a text that starts at a byte offset. -/
def lexemesFrom (start : Nat) : List Char → List Lexeme
  | [] => []
  | c :: cs =>
    if isBlank c then lexemesFrom (start + c.utf8Size) cs
    else if c = '[' then ⟨start, start + 1, .opening⟩ :: lexemesFrom (start + 1) cs
    else if c = ']' then ⟨start, start + 1, .closing⟩ :: lexemesFrom (start + 1) cs
    else if c = '"' then
      match _h : Text.decode 0 cs with
      | .ok (s, rest) =>
        let stop := start + 1 + (byteLength cs - byteLength rest)
        ⟨start, stop, .literal (.text (.ofList s))⟩ :: lexemesFrom stop rest
      | .error fault => [⟨start, start + 1 + byteLength cs, .faulty (textError start fault)⟩]
    else
      let word := cs.takeWhile isWordChar
      let rest := cs.dropWhile isWordChar
      let stop := start + c.utf8Size + byteLength word
      let token := if c = '\x27' then variableToken start word else wordToken start (c :: word)
      match token with
      | .faulty e => [⟨start, stop, .faulty e⟩]
      | token => ⟨start, stop, token⟩ :: lexemesFrom stop rest
  termination_by cs => cs.length
  decreasing_by
    · exact Nat.lt_succ_self _
    · exact Nat.lt_succ_self _
    · exact Nat.lt_succ_self _
    · exact Nat.lt_succ_of_lt (length_lt_of_decode _h)
    · exact Nat.lt_succ_of_le (List.dropWhile_sublist _).length_le

/-- The lexemes of a text. -/
def lexemes (text : List Char) : List Lexeme := lexemesFrom 0 text

end Source
end Restack
