import Mathlib.Data.List.TakeWhile
import Restack.Cell.Printer
import Restack.Proofs.Lexing
import Restack.Source.Reader

/-!
# Printed cells read back

A printed cell stands before a blank, a bracket or the end of the text, where every word ends.
In front of such a place its lexemes are cut off as they were written, and the reader, with
any brackets open, comes to the cell itself.

## Main definitions

* `IsBareword`, `IsVariableName`, `IsPlainText` — the names and texts that are written as they are.
* `Cell.IsWritable`, `Cell.IsTypeTerm` — the cells that read back, in programs and in type lists.
* `Text.IsLegible` — the characters whose written form can be read.
* `Reads` — a text is read as a cell, wherever it stands.

## Main results

* `decode_encode` — a text of legible characters is read as it was written.
* `wordToken_integer` — so does an integer.
* `reads_quotation` — a bracketed group reads back if the cells in it do.
* `printed_cells_read_back` — printed cells, states and signatures read back.
-/

namespace Restack

/-! ### What can be written -/

/-- The characters that end a word. -/
def delimiters : List Char := [' ', '\t', '\n', '\x0c', '\r', '[', ']', '"']

/-- A word that starts as a number does: with a digit, or with a minus sign and a digit. -/
def StartsAsNumber (word : List Char) : Prop :=
  ∃ d rest, d.isDigit = true ∧ (word = d :: rest ∨ word = '-' :: d :: rest)

/-- A word that is nothing but a name. -/
structure IsBareword (name : String) : Prop where
  /-- There is a word. -/
  nonempty : name.toList ≠ []
  /-- It does not end early. -/
  undelimited : ∀ c ∈ name.toList, c ∉ delimiters
  /-- It is no variable. -/
  unquoted : name.toList.head? ≠ some '\x27'
  /-- It is no type literal. -/
  untyped : ¬ "typeof(".toList <+: name.toList
  /-- It is no truth value. -/
  notBool : name ≠ "true" ∧ name ≠ "false"
  /-- It is no number. -/
  notNumber : ¬ StartsAsNumber name.toList

/-- The name of a variable. -/
structure IsVariableName (name : String) : Prop where
  /-- It does not end early. -/
  undelimited : ∀ c ∈ name.toList, c ∉ delimiters
  /-- It starts with a letter or an underscore. -/
  start : ∃ c rest, name.toList = c :: rest ∧ (Text.isAlphabetic c = true ∨ c = '_')

/-- A printable ASCII character, a tab or a character that ends a line. -/
def IsPlainChar (c : Char) : Prop :=
  (0x20 ≤ c.toNat ∧ c.toNat ≤ 0x7e) ∨ c = '\n' ∨ c = '\t' ∨ c = '\r'

/-- A text of such characters. -/
def IsPlainText (s : String) : Prop := ∀ c ∈ s.toList, IsPlainChar c

/-- The cells of a program that read back. -/
inductive Cell.IsWritable : Cell → Prop where
  | int (v : Int64) : IsWritable (.int v)
  | bool (b : Bool) : IsWritable (.bool b)
  | symbol {name : String} : IsBareword name → IsWritable (.symbol name)
  | var {name : String} : IsVariableName name → IsWritable (.var name)
  | text {s : String} : IsPlainText s → IsWritable (.text s)
  | quotation {code : List Cell} : (∀ c ∈ code, IsWritable c) → IsWritable (.quotation code)

/-- The cells of a type list that read back. -/
inductive Cell.IsTypeTerm : Cell → Prop where
  | var {name : String} : IsVariableName name → IsTypeTerm (.var name)
  | type {tag : TypeTag} : IsBareword tag.name → IsTypeTerm (.type tag)
  | quotation {code : List Cell} : (∀ c ∈ code, IsTypeTerm c) → IsTypeTerm (.quotation code)

/-! ### Quoted text -/

namespace Text

/-- A character whose written form can be read: one that has a short escape, or one that stands for
itself. -/
def IsLegible (c : Char) : Prop := c ∈ ['"', '\\', '\n', '\t', '\r'] ∨ isPlain c = true

instance (c : Char) : Decidable (IsLegible c) := inferInstanceAs (Decidable (_ ∨ _))

theorem isPlain_of_ascii {c : Char} (hlow : 0x20 ≤ c.toNat) (hhigh : c.toNat ≤ 0x7e) :
    isPlain c = true := by
  have hascii : c.toNat < 0x80 := by omega
  simp only [isPlain, isPrintable, if_pos hascii, isGraphemeExtend]
  simp only [Bool.and_eq_true, decide_eq_true_eq, Bool.not_eq_true', Bool.and_eq_false_iff,
    decide_eq_false_iff_not]
  omega

theorem isLegible_of_isPlainChar {c : Char} (hc : IsPlainChar c) : IsLegible c := by
  obtain ⟨hlow, hhigh⟩ | rfl | rfl | rfl := hc
  · exact .inr (isPlain_of_ascii hlow hhigh)
  all_goals exact .inl (by decide)

theorem decode_quote (after : Nat) (rest : List Char) :
    decode after ('"' :: rest) = .ok ([], rest) := by
  rw [decode.eq_def]
  rfl

theorem decode_escaped {e c : Char} (he : unescape? e = some c) (after : Nat) (rest : List Char) :
    decode after ('\\' :: e :: rest) =
      (decode (after + 1 + e.utf8Size) rest).map fun read => (c :: read.1, read.2) := by
  rw [decode.eq_def]
  simp only [he]
  cases decode (after + 1 + e.utf8Size) rest <;> rfl

theorem decode_plain {c : Char} (hquote : c ≠ '"') (hslash : c ≠ '\\') (after : Nat)
    (rest : List Char) : decode after (c :: rest) =
      (decode (after + c.utf8Size) rest).map fun read => (c :: read.1, read.2) := by
  rw [decode.eq_def]
  simp only [if_neg hquote, if_neg hslash]
  cases decode (after + c.utf8Size) rest <;> rfl

/-- A plain character has no control code, but the quote and the backslash are plain, too. -/
theorem encodeChar_plain {c : Char} (hc : isPlain c = true) (hquote : c ≠ '"')
    (hslash : c ≠ '\\') : encodeChar c = [c] := by
  have hcontrol : ∀ d : Char, isPlain d = false → c ≠ d := by
    rintro d hd rfl
    rw [hc] at hd
    cases hd
  have hnul : c.toNat ≠ 0 := fun h =>
    hcontrol '\x00' (by decide) (Char.toNat_inj.mp h)
  rw [encodeChar, if_neg hquote, if_neg hslash, if_neg (hcontrol '\n' (by decide)),
    if_neg (hcontrol '\t' (by decide)), if_neg (hcontrol '\r' (by decide)), if_neg hnul,
    if_pos hc]

/-- A legible character is read as it was written, whatever follows. -/
theorem decode_encodeChar {c : Char} (hc : IsLegible c) (after : Nat) (rest : List Char) :
    decode after (encodeChar c ++ rest) =
      (decode (after + Source.byteLength (encodeChar c)) rest).map
        fun read => (c :: read.1, read.2) := by
  by_cases hescape : c ∈ ['"', '\\', '\n', '\t', '\r']
  · simp only [List.mem_cons, List.not_mem_nil, or_false] at hescape
    obtain rfl | rfl | rfl | rfl | rfl := hescape <;> exact decode_escaped rfl after rest
  · have hplain : isPlain c = true := hc.resolve_left hescape
    have hquote : c ≠ '"' := by
      rintro rfl
      exact hescape (by decide)
    have hslash : c ≠ '\\' := by
      rintro rfl
      exact hescape (by decide)
    rw [encodeChar_plain hplain hquote hslash]
    exact decode_plain hquote hslash after rest

/-- **A legible text is read as it was written**, whatever follows. -/
theorem decode_encode {s : List Char} (hs : ∀ c ∈ s, IsLegible c) (after : Nat)
    (rest : List Char) : decode after (encode s ++ rest) =
      (decode (after + Source.byteLength (encode s)) rest).map
        fun read => (s ++ read.1, read.2) := by
  induction s generalizing after with
  | nil =>
    show decode after rest = (decode after rest).map id
    cases decode after rest <;> rfl
  | cons c s ih =>
    obtain ⟨hc, hs⟩ := List.forall_mem_cons.mp hs
    rw [encode, List.flatMap_cons, List.append_assoc, decode_encodeChar hc, ← encode, ih hs,
      Source.byteLength_append, Nat.add_assoc]
    cases decode (after + (Source.byteLength (encodeChar c) + Source.byteLength (encode s))) rest <;>
      rfl

end Text

namespace Source

variable {meaning : String → Cell} {start : Nat} {rest : List Char}

/-! ### Words -/

theorem isWordChar_iff {c : Char} : isWordChar c = true ↔ c ∉ delimiters := by
  simp [isWordChar, isBlank, delimiters, and_assoc]

/-- A place where a word ends. -/
def EndsWord (rest : List Char) : Prop := ∀ c, rest.head? = some c → c ∈ delimiters

theorem endsWord_nil : EndsWord [] := nofun

theorem endsWord_cons {c : Char} (hc : c ∈ delimiters) (rest : List Char) :
    EndsWord (c :: rest) := by
  intro d hd
  cases hd
  exact hc

/-- A word ends before such a place as it ends at the end of the text. -/
theorem takeWhile_append_endsWord (cs : List Char) (hrest : EndsWord rest) :
    (cs ++ rest).takeWhile isWordChar = cs.takeWhile isWordChar := by
  induction cs with
  | nil =>
    cases rest with
    | nil => rfl
    | cons c rest =>
      have hc : ¬ isWordChar c = true := fun h => isWordChar_iff.mp h (hrest c rfl)
      rw [List.nil_append, List.takeWhile_cons, if_neg hc, List.takeWhile_nil]
  | cons c cs ih => rw [List.cons_append, List.takeWhile_cons, List.takeWhile_cons, ih]

theorem dropWhile_append_endsWord (cs : List Char) (hrest : EndsWord rest) :
    (cs ++ rest).dropWhile isWordChar = cs.dropWhile isWordChar ++ rest := by
  induction cs with
  | nil =>
    cases rest with
    | nil => rfl
    | cons c rest =>
      have hc : ¬ isWordChar c = true := fun h => isWordChar_iff.mp h (hrest c rfl)
      rw [List.nil_append, List.dropWhile_cons, if_neg hc, List.dropWhile_nil, List.nil_append]
  | cons c cs ih =>
    rw [List.cons_append, List.dropWhile_cons, List.dropWhile_cons, ih]
    split <;> rfl

theorem looksNumeric_iff {word : List Char} : looksNumeric word = true ↔ StartsAsNumber word := by
  constructor
  · intro h
    unfold looksNumeric dropMinus at h
    split at h
    · rename_i cs
      cases cs with
      | nil => cases h
      | cons d rest => exact ⟨d, rest, h, .inr rfl⟩
    · cases word with
      | nil => cases h
      | cons d rest => exact ⟨d, rest, h, .inl rfl⟩
  · rintro ⟨d, rest, hd, rfl | rfl⟩
    · have hminus : d ≠ '-' := by
        rintro rfl
        cases hd
      simp [looksNumeric, dropMinus, hminus, hd]
    · simp [looksNumeric, dropMinus, hd]

instance (word : List Char) : Decidable (StartsAsNumber word) := decidable_of_iff _ looksNumeric_iff

theorem toList_ne {name : String} {word : List Char} (h : name ≠ .ofList word) :
    name.toList ≠ word := by
  rintro rfl
  exact h String.ofList_toList.symm

/-- A word that is nothing else is a bareword. -/
theorem wordToken_bareword {name : String} (h : IsBareword name) (start : Nat) :
    wordToken start name.toList = .bareword name := by
  have htypeof : ¬ typeofOpening.isPrefixOf name.toList = true := by
    rw [List.isPrefixOf_iff_prefix]
    exact h.untyped
  rw [wordToken, if_neg htypeof, if_neg (toList_ne h.notBool.1), if_neg (toList_ne h.notBool.2),
    if_neg (mt looksNumeric_iff.mp h.notNumber), String.ofList_toList]

/-! ### Integers -/

theorem ofDigits_digits (n : Nat) : Decimal.ofDigits (Decimal.digits n) = n :=
  Nat.ofDigitChars_ten_toDigits

theorem isDigit_of_mem_digits {n : Nat} {c : Char} (hc : c ∈ Decimal.digits n) :
    c.isDigit = true :=
  Nat.isDigit_of_mem_toDigits (by decide) (by decide) hc

theorem exists_digits_cons (n : Nat) :
    ∃ d ds, Decimal.digits n = d :: ds ∧ d.isDigit = true := by
  cases hds : Decimal.digits n with
  | nil => exact absurd hds Nat.toDigits_ne_nil
  | cons d ds => exact ⟨d, ds, rfl, isDigit_of_mem_digits (hds ▸ List.mem_cons_self)⟩

theorem eq_or_mem_dropMinus {word : List Char} {c : Char} (hc : c ∈ word) :
    c = '-' ∨ c ∈ dropMinus word := by
  unfold dropMinus
  split
  · exact List.mem_cons.mp hc
  · exact .inr hc

theorem ne_minus_of_isDigit {d : Char} (hd : d.isDigit = true) : d ≠ '-' := by
  rintro rfl
  cases hd

/-- The text of an integer starts as a number does, all that follows a minus sign are digits, and
they say which integer it is. -/
theorem integer_spec (v : Int) :
    StartsAsNumber (Decimal.integer v) ∧
      (∀ c ∈ dropMinus (Decimal.integer v), c.isDigit = true) ∧
      integerValue (Decimal.integer v) = v := by
  cases v with
  | ofNat n =>
    obtain ⟨d, ds, hds, hd⟩ := exists_digits_cons n
    have hminus := ne_minus_of_isDigit hd
    have hdrop : dropMinus (Decimal.digits n) = Decimal.digits n := by
      simp [hds, dropMinus, hminus]
    refine ⟨⟨d, ds, hd, .inl hds⟩, ?_, ?_⟩
    · rw [Decimal.integer, hdrop]
      exact fun c hc => isDigit_of_mem_digits hc
    · have hhead : ¬ ((Decimal.digits n).head? == some '-') = true := by simp [hds, hminus]
      rw [Decimal.integer, integerValue, if_neg hhead, ofDigits_digits]
      rfl
  | negSucc n =>
    obtain ⟨d, ds, hds, hd⟩ := exists_digits_cons (n + 1)
    refine ⟨⟨d, ds, hd, .inr (by rw [Decimal.integer, hds])⟩, ?_, ?_⟩
    · exact fun c hc => isDigit_of_mem_digits hc
    · rw [Decimal.integer, integerValue, if_pos (by simp), dropMinus, ofDigits_digits]
      rfl

/-- A digit or a minus sign opens none of the words that are tried before the numbers. -/
theorem wordToken_number {word : List Char} {c : Cell} (hstart : StartsAsNumber word)
    (hnumber : readNumber word = .ok c) (start : Nat) : wordToken start word = .literal c := by
  obtain ⟨first, rest, rfl, ht, hf⟩ :
      ∃ first rest, word = first :: rest ∧ first ≠ 't' ∧ first ≠ 'f' := by
    obtain ⟨d, rest, hd, rfl | rfl⟩ := hstart
    · refine ⟨d, rest, rfl, ?_, ?_⟩ <;> rintro rfl <;> cases hd
    · exact ⟨'-', d :: rest, rfl, by decide, by decide⟩
  have htypeof : ¬ typeofOpening.isPrefixOf (first :: rest) = true := by
    simp [typeofOpening, Ne.symm ht]
  have htrue : first :: rest ≠ ['t', 'r', 'u', 'e'] := fun h => ht (List.cons.inj h).1
  have hfalse : first :: rest ≠ ['f', 'a', 'l', 's', 'e'] := fun h => hf (List.cons.inj h).1
  rw [wordToken, if_neg htypeof, if_neg htrue, if_neg hfalse,
    if_pos (looksNumeric_iff.mpr hstart), hnumber]

/-- A word of digits, but for a minus sign, ends in none of the marks of other numbers. -/
theorem getLast?_ne_of_digits {word : List Char} (hstart : StartsAsNumber word)
    (hdigits : ∀ c ∈ dropMinus word, c.isDigit = true) : word.getLast? ≠ some 'f' := by
  intro hlast
  have hf : 'f' ∈ dropMinus word := by
    obtain ⟨d, rest, hd, rfl | rfl⟩ := hstart
    · rw [show dropMinus (d :: rest) = d :: rest by simp [dropMinus, ne_minus_of_isDigit hd]]
      exact List.mem_of_getLast? hlast
    · rw [List.getLast?_cons_cons] at hlast
      exact List.mem_of_getLast? hlast
  cases hdigits 'f' hf

theorem ofInt?_toInt (v : Int64) : Number.ofInt? v.toInt = some v := by
  have hrange : Number.minInt ≤ v.toInt ∧ v.toInt ≤ Number.maxInt :=
    ⟨v.le_toInt, Int.le_of_lt_add_one v.toInt_lt⟩
  rw [Number.ofInt?, if_pos hrange, Int64.ofInt_toInt]

/-- **An integer reads back.** -/
theorem wordToken_integer (start : Nat) (v : Int64) :
    wordToken start (Decimal.integer v.toInt) = .literal (.int v) := by
  obtain ⟨hstart, hdigits, hvalue⟩ := integer_spec v.toInt
  have hnumber : readNumber (Decimal.integer v.toInt) = .ok (.int v) := by
    have hlast : ¬ ((Decimal.integer v.toInt).getLast? == some 'f') = true := by
      simpa using getLast?_ne_of_digits hstart hdigits
    rw [readNumber, if_neg hlast, if_pos (List.all_eq_true.mpr hdigits), hvalue, ofInt?_toInt]
  exact wordToken_number hstart hnumber start

/-! ### Cutting off lexemes -/

theorem lexemesFrom_space (start : Nat) (rest : List Char) :
    lexemesFrom start (' ' :: rest) = lexemesFrom (start + 1) rest := by
  rw [lexemesFrom]
  rfl

/-- A text literal is cut off after its closing quote. -/
theorem lexemesFrom_text {s : String} (hs : ∀ c ∈ s.toList, Text.IsLegible c) (start : Nat)
    (rest : List Char) :
    ∃ stop, lexemesFrom start (Text.quote s.toList ++ rest) =
      ⟨start, stop, .literal (.text s)⟩ :: lexemesFrom stop rest := by
  have hdecode : Text.decode 0 (Text.encode s.toList ++ '"' :: rest) = .ok (s.toList, rest) := by
    rw [Text.decode_encode hs, Text.decode_quote, Except.map, List.append_nil]
  have htext : Text.quote s.toList ++ rest = '"' :: (Text.encode s.toList ++ '"' :: rest) := by
    simp [Text.quote]
  rw [htext, lexemesFrom_quoted hdecode, String.ofList_toList]
  exact ⟨_, rfl⟩

/-- A run of characters without a delimiter is cut off where it ends. -/
theorem lexemesFrom_undelimited {c : Char} {cs : List Char} {token : Token} (hc : c ∉ delimiters)
    (hcs : ∀ c ∈ cs, c ∉ delimiters) (htoken : tokenAt start c cs = token)
    (hfault : ∀ e, token ≠ .faulty e) (hrest : EndsWord rest) :
    ∃ stop, lexemesFrom start (c :: cs ++ rest) =
      ⟨start, stop, token⟩ :: lexemesFrom stop rest := by
  have hall : ∀ c ∈ cs, isWordChar c = true := fun c hc => isWordChar_iff.mpr (hcs c hc)
  have hword : (cs ++ rest).takeWhile isWordChar = cs := by
    rw [takeWhile_append_endsWord cs hrest, List.takeWhile_eq_self_iff.mpr hall]
  have hremaining : (cs ++ rest).dropWhile isWordChar = rest := by
    rw [dropWhile_append_endsWord cs hrest, List.dropWhile_eq_nil_iff.mpr hall, List.nil_append]
  rw [List.cons_append, lexemesFrom_token (isWordChar_iff.mpr hc) (by rwa [hword, htoken]), hword,
    hremaining, htoken]
  exact ⟨_, rfl⟩

/-- A word is cut off where it ends. -/
theorem lexemesFrom_word {word : List Char} {token : Token} (hne : word ≠ [])
    (hword : ∀ c ∈ word, c ∉ delimiters) (hhead : word.head? ≠ some '\x27')
    (htoken : wordToken start word = token) (hfault : ∀ e, token ≠ .faulty e)
    (hrest : EndsWord rest) : ∃ stop, lexemesFrom start (word ++ rest) =
      ⟨start, stop, token⟩ :: lexemesFrom stop rest := by
  cases word with
  | nil => exact absurd rfl hne
  | cons c cs =>
    obtain ⟨hc, hcs⟩ := List.forall_mem_cons.mp hword
    have hmark : c ≠ '\x27' := fun h => hhead (congrArg some h)
    exact lexemesFrom_undelimited hc hcs ((if_neg hmark).trans htoken) hfault hrest

/-- A variable is cut off where its name ends. -/
theorem lexemesFrom_var {name : String} (hname : IsVariableName name) (start : Nat)
    (hrest : EndsWord rest) : ∃ stop, lexemesFrom start ('\x27' :: name.toList ++ rest) =
      ⟨start, stop, .literal (.var name)⟩ :: lexemesFrom stop rest := by
  obtain ⟨c, cs, hcs, hc⟩ := hname.start
  have htoken : variableToken start name.toList = .literal (.var name) := by
    have hstart : name.toList.head?.any (fun c => Text.isAlphabetic c || c == '_') = true := by
      simpa [hcs] using hc
    rw [variableToken, if_pos hstart, String.ofList_toList]
  exact lexemesFrom_undelimited (by decide) hname.undelimited ((if_pos rfl).trans htoken) nofun
    hrest

/-! ### Reading cells -/

/-- Goes on reading after some lexemes. -/
def resume (meaning : String → Cell) (stop : Nat) :
    Progress → List Lexeme → Except ParseError (Cell × List Lexeme)
  | .complete c, lexemes => .ok (c, lexemes)
  | .pending frames, lexemes => readCell meaning stop frames lexemes

theorem readCell_cons {stop : Nat} {frames : List Frame} {lexeme : Lexeme} {progress : Progress}
    (h : advance meaning frames lexeme = .ok progress) (lexemes : List Lexeme) :
    readCell meaning stop frames (lexeme :: lexemes) = resume meaning stop progress lexemes := by
  rw [readCell, h]
  cases progress <;> rfl

/-- A text that is read as a cell wherever it stands: after any text, with any brackets open, before
any place where a word ends. -/
def Reads (meaning : String → Cell) (text : List Char) (c : Cell) : Prop :=
  ∀ start rest, EndsWord rest → ∃ after, ∀ stop frames,
    readCell meaning stop frames (lexemesFrom start (text ++ rest)) =
      resume meaning stop (place c frames) (lexemesFrom after rest)

/-- A text of one lexeme is read as the cell that its token stands for. -/
theorem reads_of_lexeme {text : List Char} {c : Cell} {token : Token}
    (htoken : token = .literal c ∨ ∃ name, token = .bareword name ∧ meaning name = c)
    (h : ∀ start rest, EndsWord rest → ∃ after, lexemesFrom start (text ++ rest) =
      ⟨start, after, token⟩ :: lexemesFrom after rest) : Reads meaning text c := by
  intro start rest hrest
  obtain ⟨after, hlexemes⟩ := h start rest hrest
  refine ⟨after, fun stop frames => ?_⟩
  have hadvance : advance meaning frames ⟨start, after, token⟩ = .ok (place c frames) := by
    obtain rfl | ⟨name, rfl, rfl⟩ := htoken <;> rfl
  rw [hlexemes, readCell_cons hadvance]

/-- The cells of an open bracket are read one after the other. -/
theorem readCell_charsList {cells : List Cell}
    (hcells : ∀ c ∈ cells, Reads meaning c.chars c) (start : Nat) (hrest : EndsWord rest) :
    ∃ after, ∀ stop frame outer,
      readCell meaning stop (frame :: outer) (lexemesFrom start (Cell.charsList cells ++ rest)) =
        readCell meaning stop ({ frame with cells := cells.reverse ++ frame.cells } :: outer)
          (lexemesFrom after rest) := by
  induction cells generalizing start with
  | nil => exact ⟨start, fun stop frame outer => rfl⟩
  | cons c cells ih =>
    obtain ⟨hc, hcells⟩ := List.forall_mem_cons.mp hcells
    cases cells with
    | nil =>
      obtain ⟨after, hafter⟩ := hc start rest hrest
      exact ⟨after, fun stop frame outer => hafter stop (frame :: outer)⟩
    | cons d cells =>
      -- the space ends the first cell and is skipped before the others
      obtain ⟨middle, hmiddle⟩ := hc start (' ' :: (Cell.charsList (d :: cells) ++ rest))
        (endsWord_cons (by decide) _)
      obtain ⟨after, hafter⟩ := ih hcells (middle + 1)
      refine ⟨after, fun stop frame outer => ?_⟩
      have htext : Cell.charsList (c :: d :: cells) ++ rest =
          c.chars ++ ' ' :: (Cell.charsList (d :: cells) ++ rest) := List.append_assoc ..
      rw [htext, hmiddle, place, resume, lexemesFrom_space, hafter]
      simp only [List.reverse_cons, List.append_assoc, List.cons_append, List.nil_append]

/-- **A bracketed group reads back if the cells in it do.** -/
theorem reads_quotation {code : List Cell} (hcode : ∀ c ∈ code, Reads meaning c.chars c) :
    Reads meaning (Cell.quotation code).chars (.quotation code) := by
  intro start rest _
  obtain ⟨after, hafter⟩ := readCell_charsList hcode (start + 1)
    (endsWord_cons (c := ']') (by decide) rest)
  refine ⟨after + 1, fun stop frames => ?_⟩
  have htext : (Cell.quotation code).chars ++ rest =
      '[' :: (Cell.charsList code ++ ']' :: rest) :=
    congrArg ('[' :: ·) (List.append_assoc (Cell.charsList code) [']'] rest)
  have hopen : advance meaning frames ⟨start, start + 1, .opening⟩ =
      .ok (.pending (⟨start, []⟩ :: frames)) := rfl
  have hclose : advance meaning (⟨start, code.reverse ++ []⟩ :: frames)
      ⟨after, after + 1, .closing⟩ = .ok (place (.quotation code) frames) := by
    rw [advance, List.append_nil, List.reverse_reverse]
  rw [htext, lexemesFrom_opening, readCell_cons hopen, resume, hafter, lexemesFrom_closing,
    readCell_cons hclose]

theorem reads_var {name : String} (hname : IsVariableName name) :
    Reads meaning (Cell.var name).chars (.var name) :=
  reads_of_lexeme (.inl rfl) fun start _ hrest => lexemesFrom_var hname start hrest

/-- A name is read as what it means. -/
theorem reads_bareword {name : String} {c : Cell} (hname : IsBareword name)
    (hmeaning : meaning name = c) : Reads meaning name.toList c := by
  refine reads_of_lexeme (.inr ⟨name, rfl, hmeaning⟩) fun start rest hrest => ?_
  exact lexemesFrom_word hname.nonempty hname.undelimited hname.unquoted
    (wordToken_bareword hname start) nofun hrest

theorem reads_int (v : Int64) : Reads meaning (Cell.int v).chars (.int v) := by
  obtain ⟨hstart, hdigits, -⟩ := integer_spec v.toInt
  have hchars : ∀ c ∈ Decimal.integer v.toInt, c.isDigit = true ∨ c = '-' := fun c hc =>
    (eq_or_mem_dropMinus hc).symm.imp_left (hdigits c)
  have hne : Decimal.integer v.toInt ≠ [] := by
    obtain ⟨d, ds, -, hds | hds⟩ := hstart <;> rw [hds] <;> nofun
  have hword : ∀ c, c.isDigit = true ∨ c = '-' → c ∉ delimiters ∧ c ≠ '\x27' := by
    rintro c (hc | rfl)
    · have hdelimiters : ∀ d ∈ '\x27' :: delimiters, d.isDigit = false := by simp [delimiters]
      have hc : c ∉ '\x27' :: delimiters := fun hmem => by simp [hdelimiters c hmem] at hc
      exact ⟨fun h => hc (.tail _ h), fun h => hc (h ▸ .head _)⟩
    · decide
  refine reads_of_lexeme (.inl rfl) fun start rest hrest => ?_
  exact lexemesFrom_word hne (fun c hc => (hword c (hchars c hc)).1)
    (fun hhead => (hword _ (hchars _ (List.mem_of_head? hhead))).2 rfl)
    (wordToken_integer start v) nofun hrest

/-- Writable cells are read back from programs. -/
theorem reads_of_isWritable {c : Cell} (hc : c.IsWritable) : Reads .symbol c.chars c := by
  induction hc with
  | int v => exact reads_int v
  | bool b =>
    refine reads_of_lexeme (.inl rfl) fun start rest hrest => ?_
    cases b with
    | true =>
      have hword : ∀ c ∈ (Cell.bool true).chars, c ∉ delimiters := by
        show ∀ c ∈ "true".toList, c ∉ delimiters
        simp [delimiters]
      exact lexemesFrom_word (by decide) hword (by decide) rfl nofun hrest
    | false =>
      have hword : ∀ c ∈ (Cell.bool false).chars, c ∉ delimiters := by
        show ∀ c ∈ "false".toList, c ∉ delimiters
        simp [delimiters]
      exact lexemesFrom_word (by decide) hword (by decide) rfl nofun hrest
  | symbol hname => exact reads_bareword hname rfl
  | var hname => exact reads_var hname
  | text hs =>
    refine reads_of_lexeme (.inl rfl) fun start rest _ => ?_
    exact lexemesFrom_text (fun c hc => Text.isLegible_of_isPlainChar (hs c hc)) start rest
  | quotation _ ih => exact reads_quotation ih

/-- Type terms are read back from type lists. -/
theorem reads_of_isTypeTerm {c : Cell} (hc : c.IsTypeTerm) : Reads typeNamed c.chars c := by
  induction hc with
  | var hname => exact reads_var hname
  | type hname => exact reads_bareword hname rfl
  | quotation _ ih => exact reads_quotation ih

/-! ### Whole texts -/

/-- A cell that is all of a text. -/
theorem parseMeaning_of_reads {text : List Char} {c : Cell} (h : Reads meaning text c) :
    parseMeaning meaning text = .ok c := by
  obtain ⟨after, hafter⟩ := h 0 [] endsWord_nil
  have hcell := hafter (byteLength text) []
  rw [List.append_nil] at hcell
  rw [parseMeaning, lexemes, hcell, place, resume, lexemesFrom]
  rfl

/-- A stack in front of more text. -/
theorem readGroup_of_reads {s : Stack} (hs : ∀ c ∈ s, Reads meaning c.chars c)
    (fault : ParseFault) (start : Nat) (hrest : EndsWord rest) :
    ∃ after, ∀ stop, readGroup meaning fault stop (lexemesFrom start (Stack.chars s ++ rest)) =
      .ok (s, lexemesFrom after rest) := by
  obtain ⟨after, hafter⟩ := reads_quotation hs start rest hrest
  refine ⟨after, fun stop => ?_⟩
  have hchars : Stack.chars s = (Cell.quotation s).chars := rfl
  have hopen : beginsOpen (lexemesFrom start (Stack.chars s ++ rest)) = true := by
    rw [Stack.chars, List.cons_append, List.cons_append, lexemesFrom_opening]
    rfl
  rw [readGroup, if_pos hopen, hchars, hafter]
  rfl

/-- A stack that is all of a text. -/
theorem parseState_of_reads {s : Stack} (hs : ∀ c ∈ s, Reads .symbol c.chars c) :
    parseState (Stack.toText s) = .ok s := by
  obtain ⟨after, hafter⟩ := readGroup_of_reads hs .expectedState 0 endsWord_nil
  rw [List.append_nil] at hafter
  rw [parseState]
  simp only [Stack.toText, String.toList_ofList, lexemes, hafter, lexemesFrom]
  rfl

/-- The arrow between two stacks is passed. -/
theorem passArrow_lexemesFrom (start : Nat) (rest : List Char) :
    ∃ after, ∀ stop, passArrow stop (lexemesFrom start (" -> ".toList ++ rest)) =
      .ok (lexemesFrom after rest) := by
  have hspace : EndsWord (' ' :: rest) := endsWord_cons (by decide) rest
  have htoken : wordToken (start + 1) ['-', '>'] = .bareword "->" := rfl
  obtain ⟨after, hafter⟩ :=
    lexemesFrom_word (by decide) (by simp [delimiters]) (by decide) htoken nofun hspace
  refine ⟨after + 1, fun stop => ?_⟩
  have htext : " -> ".toList ++ rest = ' ' :: (['-', '>'] ++ ' ' :: rest) := rfl
  rw [htext, lexemesFrom_space, hafter, lexemesFrom_space]
  rfl

/-- A signature that is all of a text. -/
theorem parseSignature_of_reads {consumes produces : Stack}
    (hconsumes : ∀ c ∈ consumes, Reads typeNamed c.chars c)
    (hproduces : ∀ c ∈ produces, Reads typeNamed c.chars c) :
    parseSignature (Stack.toText consumes ++ " -> " ++ Stack.toText produces) =
      .ok ⟨consumes, produces⟩ := by
  have htext : (Stack.toText consumes ++ " -> " ++ Stack.toText produces).toList =
      Stack.chars consumes ++ (" -> ".toList ++ Stack.chars produces) := by
    simp [Stack.toText]
  have hspace : EndsWord (" -> ".toList ++ Stack.chars produces) := endsWord_cons (by decide) _
  obtain ⟨first, hfirst⟩ := readGroup_of_reads hconsumes .expectedTypes 0 hspace
  obtain ⟨second, hsecond⟩ := passArrow_lexemesFrom first (Stack.chars produces)
  obtain ⟨third, hthird⟩ := readGroup_of_reads hproduces .expectedTypes second endsWord_nil
  rw [List.append_nil] at hthird
  rw [parseSignature]
  simp only [htext, lexemes, hfirst, bind, Except.bind, hsecond, hthird, lexemesFrom]
  rfl

end Source

/-- **Printed cells read back.** A cell of integers, truth values, plain texts, barewords, variables
and quotations of such cells is read off its own text, and so is a state of such cells. A signature
of variables, type names and quotations of these is read off the texts of its two sides with an
arrow between them. -/
theorem printed_cells_read_back :
    (∀ c : Cell, c.IsWritable → Source.parse c.toText = .ok c) ∧
    (∀ s : Stack, (∀ c ∈ s, c.IsWritable) → Source.parseState s.toText = .ok s) ∧
    ∀ consumes produces : Stack,
      (∀ c ∈ consumes, c.IsTypeTerm) → (∀ c ∈ produces, c.IsTypeTerm) →
      Source.parseSignature (Stack.toText consumes ++ " -> " ++ Stack.toText produces) =
        .ok ⟨consumes, produces⟩ := by
  refine ⟨fun c hc => ?_, fun s hs => ?_, fun consumes produces hconsumes hproduces => ?_⟩
  · rw [Source.parse, Cell.toText, String.toList_ofList]
    exact Source.parseMeaning_of_reads (Source.reads_of_isWritable hc)
  · exact Source.parseState_of_reads fun c hc => Source.reads_of_isWritable (hs c hc)
  · exact Source.parseSignature_of_reads
      (fun c hc => Source.reads_of_isTypeTerm (hconsumes c hc))
      fun c hc => Source.reads_of_isTypeTerm (hproduces c hc)

/-- The least integer, a text with escapes, the name `-` in front of a variable, and an arrow among
type names, all next to brackets. -/
theorem printed_cells_read_back_escaped_text :
    let code : List Cell :=
      [.int Int64.minValue, .text "\"a\"\n", .quotation [.symbol "-", .var "x"], .bool true]
    let consumes : Stack := [.quotation [.type ⟨"->"⟩], .var "_"]
    Stack.toText code = "[-9223372036854775808 \"\\\"a\\\"\\n\" [- 'x] true]" ∧
      Source.parse (Cell.quotation code).toText = .ok (.quotation code) ∧
      Source.parseState (Stack.toText code) = .ok code ∧
      Source.parseSignature (Stack.toText consumes ++ " -> " ++ Stack.toText []) =
        .ok ⟨consumes, []⟩ := by
  intro code consumes
  have hminus : IsBareword "-" :=
    ⟨by decide, by simp [delimiters], by decide, by decide, by decide, by decide⟩
  have harrow : IsBareword "->" :=
    ⟨by decide, by simp [delimiters], by decide, by decide, by decide, by decide⟩
  have hvar : ∀ name ∈ ["x", "_"], IsVariableName name := by
    simp only [List.forall_mem_cons, List.not_mem_nil, false_imp_iff, implies_true, and_true]
    exact ⟨⟨by simp [delimiters], _, _, rfl, by decide⟩,
      ⟨by simp [delimiters], _, _, rfl, by decide⟩⟩
  have hcode : ∀ c ∈ code, c.IsWritable := by
    simp only [code, List.forall_mem_cons]
    have htext : IsPlainText "\"a\"\n" := by simp [IsPlainText, IsPlainChar]
    refine ⟨.int _, .text htext, .quotation ?_, .bool true, nofun⟩
    simp only [List.forall_mem_cons]
    exact ⟨.symbol hminus, .var (hvar "x" (by decide)), nofun⟩
  have hconsumes : ∀ c ∈ consumes, c.IsTypeTerm := by
    simp only [consumes, List.forall_mem_cons]
    refine ⟨.quotation ?_, .var (hvar "_" (by decide)), nofun⟩
    simp only [List.forall_mem_cons]
    exact ⟨.type harrow, nofun⟩
  obtain ⟨hparse, hstate, hsignature⟩ := printed_cells_read_back
  exact ⟨by decide, hparse _ (.quotation hcode), hstate _ hcode, hsignature _ _ hconsumes nofun⟩

end Restack
