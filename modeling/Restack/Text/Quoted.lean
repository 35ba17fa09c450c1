import Restack.Text.Alphabetic
import Restack.Text.GraphemeExtend
import Restack.Text.Unprintable

/-!
# Quoted text

A text literal is written between double quotes. The quote, the backslash and the
line and tab characters have two-character escapes; a character without a printed
form, or one that would attach to its predecessor, is written by its code point in
hexadecimal. The reader knows only the five short escapes.

## Main definitions

* `isAlphabetic` — the characters a name may start with.
* `isPlain` — the characters that stand for themselves between quotes.
* `encode`, `quote` — writing a text.
* `decode` — reading one, up to its closing quote.
-/

namespace Restack.Text

/-- Whether a character is alphabetic in the sense of Unicode. -/
def isAlphabetic (c : Char) : Bool :=
  c.isAlpha || (0x80 ≤ c.toNat && alphabeticRanges.contains c)

/-- Whether a character is visible when printed. -/
def isPrintable (c : Char) : Bool :=
  if c.toNat < 0x80 then 0x20 ≤ c.toNat && c.toNat < 0x7F
  else !unprintableRanges.contains c

/-- Whether a character is a mark that extends the grapheme before it. -/
def isGraphemeExtend (c : Char) : Bool :=
  0x80 ≤ c.toNat && graphemeExtendRanges.contains c

/-- Whether a character that has no escape of its own stands for itself. -/
def isPlain (c : Char) : Bool :=
  isPrintable c && !isGraphemeExtend c

/-- The written form of one character inside quotes. -/
def encodeChar (c : Char) : List Char :=
  if c = '"' then ['\\', '"']
  else if c = '\\' then ['\\', '\\']
  else if c = '\n' then ['\\', 'n']
  else if c = '\t' then ['\\', 't']
  else if c = '\r' then ['\\', 'r']
  else if c.toNat = 0 then ['\\', '0']
  else if isPlain c then [c]
  else ['\\', 'u', '\x7b'] ++ Nat.toDigits 16 c.toNat ++ ['\x7d']

/-- The written form of a text, without the quotes around it. -/
def encode (s : List Char) : List Char := s.flatMap encodeChar

/-- The written form of a text, with its quotes. -/
def quote (s : List Char) : List Char := '"' :: encode s ++ ['"']

/-- Why the rest of a quoted text cannot be read. -/
inductive QuoteFault where
  /-- The text ends before its closing quote. -/
  | unterminated
  /-- A backslash, `after` bytes into the text, before a character it cannot escape. -/
  | unknownEscape (after : Nat) (escaped : Char)
  deriving DecidableEq

/-- The character that an escape stands for. -/
def unescape? (c : Char) : Option Char :=
  if c = '"' then some '"'
  else if c = '\\' then some '\\'
  else if c = 'n' then some '\n'
  else if c = 't' then some '\t'
  else if c = 'r' then some '\r'
  else none

/-- Reads a text up to its closing quote, which is consumed. The opening quote has
been read; `after` counts the bytes read since then. The result is the text and
what follows the closing quote. -/
def decode (after : Nat) : List Char → Except QuoteFault (List Char × List Char)
  | [] => .error .unterminated
  | c :: cs =>
    if c = '"' then .ok ([], cs)
    else if c = '\\' then
      match cs with
      | [] => .error .unterminated
      | e :: cs =>
        match unescape? e with
        | none => .error (.unknownEscape after e)
        | some d =>
          match decode (after + 1 + e.utf8Size) cs with
          | .ok (s, rest) => .ok (d :: s, rest)
          | .error fault => .error fault
    else
      match decode (after + c.utf8Size) cs with
      | .ok (s, rest) => .ok (c :: s, rest)
      | .error fault => .error fault

end Restack.Text
