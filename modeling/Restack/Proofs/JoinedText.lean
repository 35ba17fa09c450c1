import Mathlib.Data.String.Basic
import Restack.Proofs.RoundTrip
import Restack.Proofs.Translation

/-!
# Texts put together

The lexemes of a text without a fault do not depend on what follows it, as long as its last word
ends where it does. So the lexemes of two such texts, put one after the other, are those of the
first and then those of the second, further on. A program is read in the same way alone, between
brackets, and before or after another program.

## Main definitions

* `Faultless` — no lexeme is a fault.
* `Progress.within` — what a lexeme leads to, inside one more bracket.
* `blanks` — the characters that may stand between two programs.

## Main results

* `lexemesFrom_append`, `faultless_of_append` — the lexemes of a text with more text behind it.
* `readCells_append` — programs are read one after the other.
* `readCell_bracketed_iff` — a bracketed program is read as a quotation.
* `program_reads_alike_bracketed` — the three ways to read a program agree.
* `joined_programs_read_in_turn` — reading takes joined programs to joined cells.
-/

namespace Restack

/-! ### Quoted texts -/

namespace Text

variable {after : Nat} {cs s body rest more : List Char}

/-- What stands between the quotes of a text. -/
inductive Spells : List Char → List Char → Prop where
  /-- Nothing is left. -/
  | nil : Spells [] []
  /-- A character is escaped. -/
  | escaped {e c : Char} {body s : List Char} (he : unescape? e = some c) (h : Spells body s) :
    Spells ('\\' :: e :: body) (c :: s)
  /-- A character stands for itself. -/
  | plain {c : Char} {body s : List Char} (hquote : c ≠ '"') (hslash : c ≠ '\\')
    (h : Spells body s) : Spells (c :: body) (c :: s)

theorem Spells.decode (h : Spells body s) (after : Nat) (rest : List Char) :
    decode after (body ++ '"' :: rest) = .ok (s, rest) := by
  induction h generalizing after with
  | nil => exact decode_quote after rest
  | escaped he _ ih =>
    rw [List.cons_append, List.cons_append, decode_escaped he, ih]
    rfl
  | plain hquote hslash _ ih =>
    rw [List.cons_append, decode_plain hquote hslash, ih]
    rfl

theorem exists_spells_of_decode (h : decode after cs = .ok (s, rest)) :
    ∃ body, cs = body ++ '"' :: rest ∧ Spells body s := by
  fun_induction decode after cs generalizing s with
  | case1 => cases h
  | case2 after cs =>
    cases h
    exact ⟨[], rfl, .nil⟩
  | case3 => cases h
  | case4 => cases h
  | case5 after e cs c he s' rest' hdecode _ ih =>
    cases h
    obtain ⟨body, rfl, hbody⟩ := ih hdecode
    exact ⟨'\\' :: e :: body, rfl, .escaped he hbody⟩
  | case6 => cases h
  | case7 after c cs hquote hslash s' rest' hdecode ih =>
    cases h
    obtain ⟨body, rfl, hbody⟩ := ih hdecode
    exact ⟨c :: body, rfl, .plain hquote hslash hbody⟩
  | case8 => cases h

/-- A quoted text is read in the same way whatever follows its closing quote. -/
theorem decode_append (h : decode after cs = .ok (s, rest)) (more : List Char) :
    decode after (cs ++ more) = .ok (s, rest ++ more) := by
  obtain ⟨body, rfl, hbody⟩ := exists_spells_of_decode h
  rw [List.append_assoc, List.cons_append]
  exact hbody.decode after (rest ++ more)

/-- More text without a quote does not complete a quoted text. -/
theorem exists_decode_of_append (hmore : '"' ∉ more)
    (h : decode after (cs ++ more) = .ok (s, rest)) : ∃ rest', decode after cs = .ok (s, rest') := by
  obtain ⟨body, hcs, hbody⟩ := exists_spells_of_decode h
  obtain ⟨read, -, hread⟩ | ⟨left, rfl, hleft⟩ := List.append_eq_append_iff.mp hcs
  · exact absurd (hread ▸ List.mem_append_right read List.mem_cons_self) hmore
  · cases left with
    | nil =>
      rw [List.nil_append] at hleft
      exact absurd (hleft ▸ List.mem_cons_self) hmore
    | cons q left =>
      obtain ⟨rfl, -⟩ := List.cons.inj hleft
      exact ⟨left, hbody.decode after left⟩

end Text

namespace Source

variable {meaning : String → Cell} {frames : List Frame} {start : Nat} {cs rest more : List Char}

/-! ### Lexemes of a text with more behind it -/

theorem quotedStop_append (start : Nat) (cs rest more : List Char) :
    quotedStop start (cs ++ more) (rest ++ more) = quotedStop start cs rest := by
  simp only [quotedStop, byteLength_append, Nat.add_sub_add_right]

theorem byteLength_quote (cs : List Char) : byteLength ('"' :: cs) = 1 + byteLength cs := rfl

/-- A quoted text and what is left of the text after it make up the text. -/
theorem quotedStop_add {s : List Char} (h : Text.decode 0 cs = .ok (s, rest)) (start : Nat) :
    quotedStop start cs rest + byteLength rest = start + byteLength ('"' :: cs) := by
  obtain ⟨body, rfl, -⟩ := Text.exists_spells_of_decode h
  simp only [quotedStop, byteLength_append, byteLength_quote]
  omega

/-- A word and what is left of the text after it make up the text. -/
theorem wordStop_add (start : Nat) (c : Char) (cs : List Char) :
    wordStop start c cs + byteLength (cs.dropWhile isWordChar) =
      start + byteLength (c :: cs) := by
  have hcs : byteLength (cs.takeWhile isWordChar) + byteLength (cs.dropWhile isWordChar) =
      byteLength cs := by
    rw [← byteLength_append, List.takeWhile_append_dropWhile]
  rw [wordStop, byteLength_cons]
  omega

theorem lexemesFrom_quoted_append {s : List Char} (h : Text.decode 0 cs = .ok (s, rest))
    (start : Nat) (more : List Char) :
    lexemesFrom start ('"' :: cs ++ more) =
      ⟨start, quotedStop start cs rest, .literal (.text (.ofList s))⟩ ::
        lexemesFrom (quotedStop start cs rest) (rest ++ more) := by
  rw [List.cons_append, lexemesFrom_quoted (Text.decode_append h more), quotedStop_append]

theorem lexemesFrom_token_append {c : Char} (hc : isWordChar c = true)
    (h : ∀ e, tokenAt start c (cs.takeWhile isWordChar) ≠ .faulty e) (hmore : EndsWord more) :
    lexemesFrom start (c :: cs ++ more) =
      ⟨start, wordStop start c cs, tokenAt start c (cs.takeWhile isWordChar)⟩ ::
        lexemesFrom (wordStop start c cs) (cs.dropWhile isWordChar ++ more) := by
  have hword := takeWhile_append_endsWord cs hmore
  have hstop : wordStop start c (cs ++ more) = wordStop start c cs := by
    rw [wordStop, hword, wordStop]
  rw [List.cons_append, lexemesFrom_token hc (by rwa [hword]), hword, hstop,
    dropWhile_append_endsWord cs hmore]

/-- No lexeme is a fault. -/
def Faultless (lexemes : List Lexeme) : Prop := ∀ l ∈ lexemes, ∀ e, l.token ≠ .faulty e

theorem faultless_cons {l : Lexeme} {lexemes : List Lexeme} :
    Faultless (l :: lexemes) ↔ (∀ e, l.token ≠ .faulty e) ∧ Faultless lexemes :=
  List.forall_mem_cons

/-- **The lexemes of a text without a fault, and then those of what follows it.** -/
theorem lexemesFrom_append (hmore : EndsWord more) (h : Faultless (lexemesFrom start cs)) :
    lexemesFrom start (cs ++ more) =
      lexemesFrom start cs ++ lexemesFrom (start + byteLength cs) more := by
  induction start, cs using lexemesFrom_induction with
  | nil start =>
    rw [lexemesFrom]
    rfl
  | blank start c cs hc ih =>
    rw [lexemesFrom_blank hc] at h
    rw [List.cons_append, lexemesFrom_blank hc, lexemesFrom_blank hc, ih h, byteLength_cons,
      Nat.add_assoc]
  | opening start cs ih =>
    rw [lexemesFrom_opening, faultless_cons] at h
    rw [List.cons_append, lexemesFrom_opening, lexemesFrom_opening, ih h.2, List.cons_append,
      byteLength_cons, Nat.add_assoc]
    rfl
  | closing start cs ih =>
    rw [lexemesFrom_closing, faultless_cons] at h
    rw [List.cons_append, lexemesFrom_closing, lexemesFrom_closing, ih h.2, List.cons_append,
      byteLength_cons, Nat.add_assoc]
    rfl
  | quoted start cs s rest hdecode ih =>
    rw [lexemesFrom_quoted hdecode, faultless_cons] at h
    rw [lexemesFrom_quoted_append hdecode, lexemesFrom_quoted hdecode, ih h.2, List.cons_append,
      quotedStop_add hdecode]
  | misquoted start cs fault hdecode =>
    rw [lexemesFrom_misquoted hdecode, faultless_cons] at h
    exact absurd rfl (h.1 _)
  | token start c cs hc htoken ih =>
    rw [lexemesFrom_token hc htoken, faultless_cons] at h
    rw [lexemesFrom_token_append hc htoken hmore, lexemesFrom_token hc htoken, ih h.2,
      List.cons_append, wordStop_add]
  | fault start c cs e hc htoken =>
    rw [lexemesFrom_fault hc htoken, faultless_cons] at h
    exact absurd rfl (h.1 e)

/-- A fault stays a fault with more text behind it, unless this closes a quoted text. -/
theorem faultless_of_append (hmore : EndsWord more) (hquote : '"' ∉ more)
    (h : Faultless (lexemesFrom start (cs ++ more))) : Faultless (lexemesFrom start cs) := by
  induction start, cs using lexemesFrom_induction with
  | nil start =>
    rw [lexemesFrom]
    exact List.forall_mem_nil _
  | blank start c cs hc ih =>
    rw [List.cons_append, lexemesFrom_blank hc] at h
    rw [lexemesFrom_blank hc]
    exact ih h
  | opening start cs ih =>
    rw [List.cons_append, lexemesFrom_opening, faultless_cons] at h
    rw [lexemesFrom_opening, faultless_cons]
    exact h.imp_right ih
  | closing start cs ih =>
    rw [List.cons_append, lexemesFrom_closing, faultless_cons] at h
    rw [lexemesFrom_closing, faultless_cons]
    exact h.imp_right ih
  | quoted start cs s rest hdecode ih =>
    rw [lexemesFrom_quoted_append hdecode, faultless_cons] at h
    rw [lexemesFrom_quoted hdecode, faultless_cons]
    exact h.imp_right ih
  | misquoted start cs fault hdecode =>
    cases hjoined : Text.decode 0 (cs ++ more) with
    | ok read =>
      obtain ⟨rest, hrest⟩ := Text.exists_decode_of_append hquote hjoined
      rw [hrest] at hdecode
      cases hdecode
    | error fault' =>
      rw [List.cons_append, lexemesFrom_misquoted hjoined, faultless_cons] at h
      exact absurd rfl (h.1 _)
  | token start c cs hc htoken ih =>
    rw [lexemesFrom_token_append hc htoken hmore, faultless_cons] at h
    rw [lexemesFrom_token hc htoken, faultless_cons]
    exact h.imp_right ih
  | fault start c cs e hc htoken =>
    have hjoined : tokenAt start c ((cs ++ more).takeWhile isWordChar) = .faulty e := by
      rw [takeWhile_append_endsWord cs hmore, htoken]
    rw [List.cons_append, lexemesFrom_fault hc hjoined, faultless_cons] at h
    exact absurd rfl (h.1 e)

/-! ### Reading lexemes in turn -/

theorem not_faulty_of_advance {l : Lexeme} {progress : Progress}
    (h : advance meaning frames l = .ok progress) (e : ParseError) : l.token ≠ .faulty e := by
  obtain ⟨start, stop, token⟩ := l
  rintro (rfl : token = .faulty e)
  cases h

theorem faultless_of_readCells {lexemes : List Lexeme} {cells : List Cell}
    (h : readCells meaning frames lexemes = .ok cells) : Faultless lexemes := by
  induction h using readCells_induction with
  | done => exact List.forall_mem_nil _
  | pending frames frames' l lexemes cells hadvance _ ih =>
    exact faultless_cons.mpr ⟨not_faulty_of_advance hadvance, ih⟩
  | complete frames c l lexemes cells hadvance _ ih =>
    exact faultless_cons.mpr ⟨not_faulty_of_advance hadvance, ih⟩

/-- **Programs are read one after the other.** -/
theorem readCells_append {first : List Lexeme} {cells : List Cell}
    (h : readCells meaning frames first = .ok cells) (second : List Lexeme) :
    readCells meaning frames (first ++ second) =
      (readCells meaning [] second).map (cells ++ ·) := by
  induction h using readCells_induction with
  | done =>
    rw [List.nil_append]
    cases readCells meaning [] second <;> rfl
  | pending frames frames' l lexemes cells hadvance _ ih =>
    rw [List.cons_append, readCells_pending hadvance, ih]
  | complete frames c l lexemes cells hadvance _ ih =>
    rw [List.cons_append, readCells_complete hadvance, ih]
    cases readCells meaning [] second <;> rfl

/-! ### Bracketed programs -/

theorem faultless_of_readCell {lexemes : List Lexeme} {stop : Nat} {c : Cell}
    (h : readCell meaning stop frames lexemes = .ok (c, [])) : Faultless lexemes := by
  induction lexemes generalizing frames with
  | nil => exact List.forall_mem_nil _
  | cons l lexemes ih =>
    cases hadvance : advance meaning frames l with
    | error e =>
      rw [readCell, hadvance] at h
      cases h
    | ok progress =>
      rw [readCell_cons hadvance] at h
      refine faultless_cons.mpr ⟨not_faulty_of_advance hadvance, ?_⟩
      cases progress with
      | complete c' =>
        cases h
        exact List.forall_mem_nil _
      | pending frames' => exact ih h

/-- What a lexeme leads to inside one more bracket: a complete cell goes into that bracket. -/
def Progress.within (base : Frame) : Progress → Progress
  | .complete c => .pending [{ base with cells := c :: base.cells }]
  | .pending frames => .pending (frames ++ [base])

theorem place_within (base : Frame) (c : Cell) (frames : List Frame) :
    place c (frames ++ [base]) = (place c frames).within base := by
  cases frames <;> rfl

/-- A lexeme that is read is read inside one more bracket as well. -/
theorem advance_within {l : Lexeme} {progress : Progress}
    (h : advance meaning frames l = .ok progress) (base : Frame) :
    advance meaning (frames ++ [base]) l = .ok (progress.within base) := by
  obtain ⟨start, stop, token⟩ := l
  cases token with
  | opening =>
    cases h
    rfl
  | closing =>
    cases frames with
    | nil => cases h
    | cons frame outer =>
      cases h
      exact congrArg Except.ok (place_within base _ outer)
  | literal c =>
    cases h
    exact congrArg Except.ok (place_within base c frames)
  | bareword name =>
    cases h
    exact congrArg Except.ok (place_within base _ frames)
  | faulty e => cases h

/-- A lexeme that cannot be read cannot be read inside one more bracket either, or it closes that
bracket. -/
theorem advance_within_error {l : Lexeme} {e : ParseError}
    (h : advance meaning frames l = .error e) (base : Frame) :
    advance meaning (frames ++ [base]) l = .error e ∨
      ∃ c, advance meaning (frames ++ [base]) l = .ok (.complete c) := by
  obtain ⟨start, stop, token⟩ := l
  cases token with
  | opening => cases h
  | closing =>
    cases frames with
    | nil => exact .inr ⟨_, rfl⟩
    | cons frame outer => cases h
  | literal c => cases h
  | bareword name => cases h
  | faulty e => exact .inl h

/-- Lexemes that are followed by a last closing bracket make up one cell exactly when they make up a
program, which that bracket then encloses. -/
theorem readCell_closing_iff {close : Lexeme} (hclose : close.token = .closing)
    (frames : List Frame) (base : Frame) {stop : Nat} {lexemes : List Lexeme} {c : Cell} :
    readCell meaning stop (frames ++ [base]) (lexemes ++ [close]) = .ok (c, []) ↔
      ∃ cells, readCells meaning frames lexemes = .ok cells ∧
        c = .quotation (base.cells.reverse ++ cells) := by
  obtain ⟨start, after, token⟩ := close
  obtain rfl : token = .closing := hclose
  induction lexemes generalizing frames base with
  | nil =>
    cases frames with
    | nil =>
      show (Except.ok (Cell.quotation base.cells.reverse, []) = .ok (c, [])) ↔
        ∃ cells, Except.ok [] = .ok cells ∧ _
      simp [eq_comm]
    | cons frame outer =>
      -- the last bracket closes an inner one, and the outermost stays open
      constructor
      · intro h
        cases outer <;> cases h
      · rintro ⟨cells, h, -⟩
        cases h
  | cons l lexemes ih =>
    rw [List.cons_append]
    cases hadvance : advance meaning frames l with
    | error e =>
      rw [readCells_error hadvance]
      obtain herror | ⟨c', hc'⟩ := advance_within_error hadvance base
      · rw [readCell, herror]
        simp
      · rw [readCell_cons hc', resume]
        simp
    | ok progress =>
      rw [readCell_cons (advance_within hadvance base)]
      cases progress with
      | pending frames' => rw [Progress.within, resume, ih, readCells_pending hadvance]
      | complete c' =>
        rw [Progress.within, resume, readCells_complete hadvance]
        show readCell meaning stop ([] ++ [_]) _ = _ ↔ _
        rw [ih]
        cases readCells meaning [] lexemes with
        | error e => simp [Except.map]
        | ok later => simp [Except.map]

/-- Where a program starts matters to the offsets of its errors only. -/
theorem readCells_lexemesFrom (n : Nat) (cs : List Char) :
    readCells meaning [] (lexemesFrom n cs) =
      (readCells meaning [] (lexemes cs)).mapError (ParseError.shift n) := by
  have hshift := lexemesFrom_shift n 0 cs
  rw [Nat.zero_add] at hshift
  have hread := readCells_translate (translates_id meaning) n [] (scalar_lexemesFrom 0 cs)
  rw [hshift, lexemes]
  refine hread.trans ?_
  rw [List.map_id_fun]
  cases readCells meaning [] (lexemesFrom 0 cs) <;> rfl

/-- **A bracketed program is read as a quotation.** -/
theorem readCell_bracketed_iff {stop : Nat} {text : List Char} {c : Cell} :
    readCell meaning stop [] (lexemes ('[' :: text ++ [']'])) = .ok (c, []) ↔
      ∃ cells, readCells meaning [] (lexemes text) = .ok cells ∧ c = .quotation cells := by
  have hends : EndsWord [']'] := endsWord_cons (by decide) []
  have hopen : advance meaning [] ⟨0, 0 + 1, .opening⟩ = .ok (.pending [⟨0, []⟩]) := rfl
  rw [lexemes, List.cons_append, lexemesFrom_opening, readCell_cons hopen, resume]
  -- with no fault in the text, the added bracket is one more lexeme
  have hjoined : Faultless (lexemesFrom 1 text) →
      (readCell meaning stop [⟨0, []⟩] (lexemesFrom 1 (text ++ [']'])) = .ok (c, []) ↔
        ∃ cells, readCells meaning [] (lexemesFrom 1 text) = .ok cells ∧ c = .quotation cells) := by
    intro h
    rw [lexemesFrom_append hends h, lexemesFrom_closing, lexemesFrom]
    exact readCell_closing_iff rfl [] ⟨0, []⟩
  have hok : ∀ cells, readCells meaning [] (lexemesFrom 1 text) = .ok cells ↔
      readCells meaning [] (lexemes text) = .ok cells := by
    intro cells
    rw [readCells_lexemesFrom]
    cases readCells meaning [] (lexemes text) <;> simp [Except.mapError]
  simp only [hok] at hjoined
  constructor
  · intro h
    exact (hjoined (faultless_of_append hends (by decide) (faultless_of_readCell h))).mp h
  · rintro ⟨cells, hcells, rfl⟩
    exact (hjoined (faultless_of_readCells ((hok cells).mpr hcells))).mpr ⟨cells, hcells, rfl⟩

theorem parseMeaning_eq_ok_iff {text : List Char} {c : Cell} :
    parseMeaning meaning text = .ok c ↔
      readCell meaning (byteLength text) [] (lexemes text) = .ok (c, []) := by
  rw [parseMeaning]
  cases readCell meaning (byteLength text) [] (lexemes text) with
  | error e => simp [bind, Except.bind]
  | ok read =>
    obtain ⟨c', rest⟩ := read
    cases rest <;> simp [bind, Except.bind, expectEnd, pure, Except.pure]

theorem parseState_eq_ok_iff {text : String} {s : Stack}
    (hopen : beginsOpen (lexemes text.toList) = true) :
    parseState text = .ok s ↔
      ∃ c, readCell .symbol (byteLength text.toList) [] (lexemes text.toList) = .ok (c, []) ∧
        codeOf c = s := by
  rw [parseState]
  simp only [readGroup, if_pos hopen]
  cases readCell .symbol (byteLength text.toList) [] (lexemes text.toList) with
  | error e => simp [bind, Except.bind, Except.map]
  | ok read =>
    obtain ⟨c, rest⟩ := read
    cases rest <;> simp [bind, Except.bind, Except.map, expectEnd, pure, Except.pure]

/-! ### Joined programs -/

/-- The blanks: space, tab, line feed, form feed and carriage return. -/
def blanks : List Char := [' ', '\t', '\n', '\x0c', '\r']

theorem isBlank_iff {c : Char} : isBlank c = true ↔ c ∈ blanks := by
  simp [isBlank, blanks, or_assoc]

theorem endsWord_of_blanks {w : List Char} (hne : w ≠ []) (hw : ∀ c ∈ w, c ∈ blanks) :
    EndsWord (w ++ rest) := by
  cases w with
  | nil => exact absurd rfl hne
  | cons c w =>
    have hdelimiters : ∀ c ∈ blanks, c ∈ delimiters := by simp [blanks, delimiters]
    exact endsWord_cons (hdelimiters c (hw c List.mem_cons_self)) (w ++ rest)

theorem lexemesFrom_blanks {w : List Char} (hw : ∀ c ∈ w, c ∈ blanks) (start : Nat) :
    lexemesFrom start (w ++ rest) = lexemesFrom (start + byteLength w) rest := by
  induction w generalizing start with
  | nil => rfl
  | cons c w ih =>
    obtain ⟨hc, hw⟩ := List.forall_mem_cons.mp hw
    rw [List.cons_append, lexemesFrom_blank (isBlank_iff.mpr hc), ih hw, byteLength_cons,
      Nat.add_assoc]

theorem byteLength_eq_utf8Len (cs : List Char) : byteLength cs = String.utf8Len cs := by
  induction cs with
  | nil => rfl
  | cons c cs ih => rw [byteLength_cons, String.utf8Len_cons, ih, Nat.add_comm]

theorem byteLength_toList (s : String) : byteLength s.toList = s.utf8ByteSize := by
  rw [byteLength_eq_utf8Len, ← String.utf8ByteSize_ofList, String.ofList_toList]

/-- A program, blanks and another program are read as the first program and then the second. -/
theorem readCells_joined {first second w : List Char} {cells : List Cell}
    (h : readCells meaning [] (lexemes first) = .ok cells) (hne : w ≠ [])
    (hw : ∀ c ∈ w, c ∈ blanks) :
    readCells meaning [] (lexemes (first ++ (w ++ second))) =
      ((readCells meaning [] (lexemes second)).mapError
        (ParseError.shift (byteLength first + byteLength w))).map (cells ++ ·) := by
  have hlexemes : lexemes (first ++ (w ++ second)) =
      lexemes first ++ lexemesFrom (byteLength first + byteLength w) second := by
    rw [lexemes, lexemesFrom_append (endsWord_of_blanks hne hw) (faultless_of_readCells h),
      lexemesFrom_blanks hw, Nat.zero_add, lexemes]
  rw [hlexemes, readCells_append h, readCells_lexemesFrom]

end Source

/-- **The three ways to read a program agree.** A text is read as a program exactly when it is read
between brackets as a state, or as one cell: the cells of the program are those of the state, and
those of the quotation that the cell is. -/
theorem program_reads_alike_bracketed (text : String) (s : Stack) :
    (Source.parseProgram text = .ok s ↔ Source.parseState ("[" ++ text ++ "]") = .ok s) ∧
      (Source.parseProgram text = .ok s ↔
        Source.parse ("[" ++ text ++ "]") = .ok (.quotation s)) := by
  have htext : ("[" ++ text ++ "]").toList = '[' :: text.toList ++ [']'] := by simp
  have hopen : Source.beginsOpen (Source.lexemes ("[" ++ text ++ "]").toList) = true := by
    rw [htext, Source.lexemes, List.cons_append, Source.lexemesFrom_opening]
    rfl
  constructor
  · rw [Source.parseState_eq_ok_iff hopen, htext]
    simp only [Source.readCell_bracketed_iff]
    constructor
    · intro h
      exact ⟨.quotation s, ⟨s, h, rfl⟩, rfl⟩
    · rintro ⟨_, ⟨cells, h, rfl⟩, rfl⟩
      exact h
  · rw [Source.parse, Source.parseMeaning_eq_ok_iff, htext, Source.readCell_bracketed_iff]
    constructor
    · intro h
      exact ⟨s, h, rfl⟩
    · rintro ⟨cells, h, hs⟩
      cases hs
      exact h

/-- **Reading takes joined programs to joined cells.** If a first text is read as a program, then
the text with blanks and a second text behind it is read as the cells of both programs. If the
second text cannot be read, neither can the whole: the fault is the same, and it is found as many
bytes further on as the first text and the blanks take up. -/
theorem joined_programs_read_in_turn {first w second : String} {cells : List Cell}
    (hfirst : Source.parseProgram first = .ok cells) (hne : w ≠ "")
    (hw : ∀ c ∈ w.toList, c ∈ Source.blanks) :
    (∀ cells', Source.parseProgram second = .ok cells' →
      Source.parseProgram (first ++ w ++ second) = .ok (cells ++ cells')) ∧
    ∀ e, Source.parseProgram second = .error e →
      Source.parseProgram (first ++ w ++ second) =
        .error ⟨e.fault, e.offset + first.utf8ByteSize + w.utf8ByteSize⟩ := by
  have htext : (first ++ w ++ second).toList = first.toList ++ (w.toList ++ second.toList) := by
    simp
  have hjoined : Source.parseProgram (first ++ w ++ second) =
      ((Source.parseProgram second).mapError
        (ParseError.shift (first.utf8ByteSize + w.utf8ByteSize))).map (cells ++ ·) := by
    rw [Source.parseProgram, htext, Source.readCells_joined hfirst (by simpa using hne) hw,
      Source.byteLength_toList, Source.byteLength_toList]
    rfl
  constructor
  · intro cells' hsecond
    rw [hjoined, hsecond]
    rfl
  · intro e hsecond
    rw [hjoined, hsecond, Nat.add_assoc]
    rfl

open Source in
/-- A quotation of one accented letter takes four bytes. A line feed and a space behind it make six,
and the bracket that is closed too often in `1 ]` is found at byte eight of the whole. -/
theorem joined_programs_read_in_turn_unmatched :
    parseProgram "[é]" = .ok [.quotation [.symbol "é"]] ∧
      parseProgram "[é]\n 1" = .ok [.quotation [.symbol "é"], .int 1] ∧
      parseProgram "1 ]" = .error ⟨.unmatchedClose, 2⟩ ∧
      parseProgram "[é]\n 1 ]" = .error ⟨.unmatchedClose, 8⟩ := by
  have hletter : ∀ start, wordToken start ['é'] = .bareword "é" := fun _ => rfl
  have hone : ∀ start, wordToken start ['1'] = .literal (.int 1) := fun _ => rfl
  have hfirst : parseProgram "[é]" = .ok [.quotation [.symbol "é"]] := by
    simp [parseProgram, lexemes, lexemesFrom, isBlank, isWordChar, hletter, readCells, advance,
      place, Except.map]
  have hnumber : parseProgram "1" = .ok [.int 1] := by
    simp [parseProgram, lexemes, lexemesFrom, isBlank, hone, readCells, advance, place, Except.map]
  have hunmatched : parseProgram "1 ]" = .error ⟨.unmatchedClose, 2⟩ := by
    simp [parseProgram, lexemes, lexemesFrom, isBlank, isWordChar, hone, readCells, advance, place,
      Except.map, Char.utf8Size]
  have hblanks : ∀ c ∈ "\n ".toList, c ∈ blanks := by simp [blanks]
  have hread := (joined_programs_read_in_turn hfirst (by decide) hblanks).1 _ hnumber
  have hfails := (joined_programs_read_in_turn hfirst (by decide) hblanks).2 _ hunmatched
  exact ⟨hfirst, hread, hunmatched, hfails⟩

end Restack
