import Restack.Instruction.Apply

/-!
# The vocabularies

The same words in four flavours. The strict words fail on missing or mistyped
operands; the lenient ones step over operands they cannot use; the recording ones
note their invocation; the declared ones replace types by types. Control words exist
in strict form, and assignment also in a form that records itself.

## Main definitions

* `Vocabulary.strict`, `lenient`, `recording`, `declared` — the four tables, and the
  families they are made of.
* `Mode` — a choice of tables, `Mode.environment` its environment.
-/

namespace Restack

namespace Vocabulary

/-- The words of arithmetic, comparison and logic. -/
def arithmeticWords : List (String × Primitive) :=
  [("+", .add), ("-", .sub), ("*", .mul), ("/", .div), ("minus", .minus), ("<", .less),
    (">", .greater), ("=", .equal), ("not", .not)]

/-- The words that rearrange the stack. -/
def stackWords : List (String × Primitive) :=
  [("dup", .dup), ("drop", .drop), ("swap", .swap), ("over", .pick), ("rot", .rot)]

/-- The table of strict instructions for the given words. -/
def strictTable (words : List (String × Primitive)) : Table :=
  .ofList (words.map fun word => .strict word.1 word.2)

/-- The table of lenient instructions for the given words. -/
def lenientTable (words : List (String × Primitive)) : Table :=
  .ofList (words.map fun word => .lenient word.1 word.2)

/-- The strict control words. -/
def controlOps : List Instruction :=
  [.control .branch, .control .loop, .strict "call" .call, .control .assign]

/-- The control words that record themselves. -/
def recordingControlOps : List Instruction := [.control .assignRecorded]

/-- The recording instructions of arithmetic, comparison and logic. -/
def recordingArithmeticOps : List Instruction :=
  (["+", "-", "*", "/", "minus"].map fun name => .recording name [.num, .num] [.promote]) ++
    (["<", ">"].map fun name => .recording name [.num, .num] [.fixed .bool]) ++
    [.recording "=" [.any, .any] [.fixed .bool], .recording "not" [.bool] [.fixed .bool]]

/-- The recording instructions that rearrange the stack. -/
def recordingStackOps : List Instruction :=
  [.recording "dup" [.any] [.sameAs 0, .sameAs 0],
    .recording "drop" [.any] [],
    .recording "swap" [.any, .any] [.sameAs 1, .sameAs 0],
    .recording "over" [.any, .any] [.sameAs 1, .sameAs 0, .sameAs 1],
    .recording "rot" [.any, .any, .any] [.sameAs 2, .sameAs 0, .sameAs 1]]

/-- The stack effects of the words, both sides top first. -/
def signatures : List (String × Signature) :=
  let a := Cell.var "a"
  let b := Cell.var "b"
  let c := Cell.var "c"
  let n := Cell.var "n"
  let bool := Cell.type .bool
  [("+", ⟨[n, n], [n]⟩), ("-", ⟨[n, n], [n]⟩), ("*", ⟨[n, n], [n]⟩), ("/", ⟨[n, n], [n]⟩),
    ("minus", ⟨[n, n], [n]⟩), ("<", ⟨[a, a], [bool]⟩), (">", ⟨[a, a], [bool]⟩),
    ("=", ⟨[a, a], [bool]⟩), ("not", ⟨[bool], [bool]⟩), ("dup", ⟨[a], [a, a]⟩),
    ("drop", ⟨[a], []⟩), ("swap", ⟨[a, b], [b, a]⟩), ("over", ⟨[a, b], [b, a, b]⟩),
    ("rot", ⟨[a, b, c], [c, a, b]⟩)]

/-- Every word in strict form. -/
def strict : Table :=
  .ofList (((arithmeticWords ++ stackWords).map fun word => .strict word.1 word.2) ++ controlOps)

/-- The words that step over operands they cannot use. -/
def lenient : Table := lenientTable (arithmeticWords ++ stackWords)

/-- The words that record their invocation. -/
def recording : Table :=
  .ofList (recordingArithmeticOps ++ recordingStackOps ++ recordingControlOps)

/-- The words as declared stack effects. -/
def declared : Table :=
  .ofList (signatures.map fun entry => .declared entry.1 entry.2.consumes entry.2.produces)

end Vocabulary

/-- The flavour of the vocabulary that a session evaluates with. -/
inductive Mode where
  /-- Words fail on missing or mistyped operands. -/
  | strict
  /-- Words step over operands they cannot use. -/
  | nonStrict
  /-- Words record their invocation for a reconstruction. -/
  | reorder
  /-- Words push types instead of values. -/
  | infer
  deriving DecidableEq, Inhabited

namespace Mode

/-- A fresh environment of a mode. -/
def environment : Mode → Environment
  | strict => { tables := [Vocabulary.strict] }
  | nonStrict => { tables := [Vocabulary.lenient, Vocabulary.strict] }
  | reorder => { tables := [Vocabulary.recording, Vocabulary.strict] }
  | infer => { tables := [Vocabulary.declared] }

/-- The name of a mode. -/
def name : Mode → String
  | strict => "strict"
  | nonStrict => "non-strict"
  | reorder => "reorder"
  | infer => "infer"

/-- The mode that a name stands for; one mode has two spellings. -/
def ofName? (name : String) : Option Mode :=
  if name = "strict" then some strict
  else if name = "non-strict" ∨ name = "nonstrict" then some nonStrict
  else if name = "reorder" then some reorder
  else if name = "infer" then some infer
  else none

/-- The complaint about a name that stands for no mode. -/
def unknownMessage (name : String) : String :=
  "unknown mode '" ++ name ++ "' (expected strict, non-strict, reorder or infer)"

theorem ofName?_name (mode : Mode) : ofName? mode.name = some mode := by
  cases mode <;> decide

end Mode
end Restack
