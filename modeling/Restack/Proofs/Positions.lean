import Restack.Proofs.ByteScan

/-!
# Positions in a text

A reader goes through a text from its first byte to its last, and reports where it has met a fault.
Each lexeme begins after the blanks behind the one before it, takes up at least one byte, and begins
and ends between two characters. A cell takes up at least one lexeme. The offset of an error is the
start of a lexeme or of an open bracket, the end of the text, or a place inside a lexeme that comes
after characters of ASCII or before an escape, so it lies between two characters as well.

## Main definitions

* `Cut`, `Cut.Fits` — a text taken apart around one of its lexemes.
* `AreCut`, `endOf` — lexemes one after the other, and where they end.
* `Scanned` — what a search by bytes finds where a lexeme is.
* `ReportsAt` — an outcome that is no error, or an error at an offset of a kind.

## Main results

* `areCut_lexemesFrom` — the lexemes of a text are cut out of it one after the other.
* `Cut.Fits.scanned` — blanks are skipped, and words are read, byte by byte.
* `exists_taken_of_readCell` — a cell takes up a lexeme.
* `reportsAt_advance`, `reportsAt_readCell`, `reportsAt_readCells` — where reading reports faults.
* `reading_keeps_to_boundaries` — progress, slices and errors, for every text.
-/

namespace Restack

/-- Where an unknown escape was found: before it stand as many bytes as are counted. -/
theorem Text.exists_escape_of_decode {after n : Nat} {cs : List Char} {e : Char}
    (h : Text.decode after cs = .error (.unknownEscape n e)) :
    ∃ before rest, cs = before ++ '\\' :: e :: rest ∧ n = after + Source.byteLength before := by
  fun_induction Text.decode after cs with
  | case1 => cases h
  | case2 => cases h
  | case3 => cases h
  | case4 after e' cs he =>
    cases h
    exact ⟨[], cs, rfl, rfl⟩
  | case5 => cases h
  | case6 after e' cs c he fault herror _ ih =>
    cases h
    obtain ⟨before, rest, rfl, rfl⟩ := ih herror
    refine ⟨'\\' :: e' :: before, rest, rfl, ?_⟩
    simp only [Source.byteLength_cons]
    have hslash : '\\'.utf8Size = 1 := rfl
    omega
  | case7 => cases h
  | case8 after c cs hquote hslash fault herror ih =>
    cases h
    obtain ⟨before, rest, rfl, rfl⟩ := ih herror
    refine ⟨c :: before, rest, rfl, ?_⟩
    rw [Source.byteLength_cons]
    omega

namespace Source

variable {text : String} {after start stop : Nat} {l : Lexeme} {before ahead : List Lexeme}

/-! ### Lexemes in their text -/

/-- A text taken apart around one of its lexemes. -/
structure Cut where
  /-- The text up to the end of the lexeme before. -/
  before : List Char
  /-- The blanks that are skipped. -/
  skipped : List Char
  /-- The characters of the lexeme. -/
  word : List Char
  /-- The text behind the lexeme. -/
  rest : List Char

/-- What a token says of its characters and its text: a bareword is named by the characters, and a
fault is found on a boundary. -/
def FitsWord (text : String) (word : List Char) : Token → Prop
  | .bareword name => name.toList = word
  | .faulty e => IsBoundary text e.offset
  | _ => True

/-- A lexeme that follows one which ends at byte `after`, and the text around it. -/
structure Cut.Fits (text : String) (after : Nat) (l : Lexeme) (cut : Cut) : Prop where
  /-- The parts make up the text. -/
  text_eq : text.toList = cut.before ++ (cut.skipped ++ (cut.word ++ cut.rest))
  /-- The lexeme before ends where it does. -/
  after_eq : after = byteLength cut.before
  /-- What is skipped are blanks. -/
  blank : ∀ c ∈ cut.skipped, isBlank c = true
  /-- The lexeme starts after the blanks. -/
  start_eq : l.start = after + byteLength cut.skipped
  /-- The lexeme ends after its characters. -/
  stop_eq : l.stop = l.start + byteLength cut.word
  /-- The lexeme does not start with a blank, and a word goes on for as long as it can. -/
  begins : ∃ c cs, cut.word = c :: cs ∧ isBlank c = false ∧
    (isWordChar c = true → (cs ++ cut.rest).takeWhile isWordChar = cs)
  /-- The token fits the characters. -/
  token : FitsWord text cut.word l.token

/-- Lexemes that are cut out of a text one after the other, from byte `after` on. -/
def AreCut (text : String) (after : Nat) : List Lexeme → Prop
  | [] => True
  | l :: lexemes => (∃ cut : Cut, cut.Fits text after l) ∧ AreCut text l.stop lexemes

/-- Where lexemes end that follow byte `after`. -/
def endOf (after : Nat) : List Lexeme → Nat
  | [] => after
  | l :: lexemes => endOf l.stop lexemes

theorem AreCut.of_append (h : AreCut text after (before ++ ahead)) :
    AreCut text after before ∧ AreCut text (endOf after before) ahead := by
  induction before generalizing after with
  | nil => exact ⟨trivial, h⟩
  | cons l before ih =>
    obtain ⟨hl, hrest⟩ := h
    obtain ⟨hbefore, hahead⟩ := ih hrest
    exact ⟨⟨hl, hbefore⟩, hahead⟩

theorem endOf_append (after : Nat) (before ahead : List Lexeme) :
    endOf after (before ++ ahead) = endOf (endOf after before) ahead := by
  induction before generalizing after with
  | nil => rfl
  | cons l before ih => exact ih l.stop

/-! ### The lexemes of a text are cut out of it -/

/-- A token for a word at a byte: a fault is found at that byte, and a bareword has the characters
of the word. -/
def Describes (start : Nat) (word : List Char) : Token → Prop
  | .faulty e => e.offset = start
  | .bareword name => name.toList = word
  | _ => True

theorem describes_wordToken (start : Nat) (word : List Char) :
    Describes start word (wordToken start word) := by
  rw [wordToken]
  split
  · split
    · trivial
    · rfl
  · split
    · trivial
    · split
      · trivial
      · split
        · split
          · trivial
          · rfl
        · exact String.toList_ofList

theorem describes_tokenAt (start : Nat) (c : Char) (word : List Char) :
    Describes start (c :: word) (tokenAt start c word) := by
  rw [tokenAt]
  split
  · rw [variableToken]
    split
    · trivial
    · rfl
  · exact describes_wordToken start (c :: word)

/-- The error for a quoted text is found on a boundary. -/
theorem isBoundary_textError {read cs : List Char} {fault : Text.QuoteFault}
    (htext : text.toList = read ++ '"' :: cs) (h : Text.decode 0 cs = .error fault) :
    IsBoundary text (textError (byteLength read) fault).offset := by
  cases fault with
  | unterminated => exact isBoundary_byteLength htext
  | unknownEscape m e =>
    obtain ⟨body, rest, rfl, rfl⟩ := Text.exists_escape_of_decode h
    -- the opening quote, and what stands before the escape
    have hsplit : text.toList = (read ++ '"' :: body) ++ '\\' :: e :: rest := by simp [htext]
    have hoffset : byteLength read + 1 + (0 + byteLength body) =
        byteLength (read ++ '"' :: body) := by
      rw [byteLength_append, byteLength_quote]
      omega
    rw [textError, hoffset]
    exact isBoundary_byteLength hsplit

/-- A lexeme that is cut off the rest of a text, and the lexemes behind it. -/
theorem areCut_cons {read skipped : List Char} {lexemes : List Lexeme} (word rest : List Char)
    (htext : text.toList = read ++ (skipped ++ (word ++ rest)))
    (hskipped : ∀ c ∈ skipped, isBlank c = true)
    (hstart : l.start = byteLength read + byteLength skipped)
    (hstop : l.stop = l.start + byteLength word)
    (hbegins : ∃ c cs, word = c :: cs ∧ isBlank c = false ∧
      (isWordChar c = true → (cs ++ rest).takeWhile isWordChar = cs))
    (htoken : FitsWord text word l.token)
    (htail : ∀ read', text.toList = read' ++ ([] ++ rest) →
      l.stop = byteLength read' + byteLength [] → AreCut text (byteLength read') lexemes) :
    AreCut text (byteLength read) (l :: lexemes) := by
  refine ⟨⟨⟨read, skipped, word, rest⟩, htext, rfl, hskipped, hstart, hstop, hbegins, htoken⟩, ?_⟩
  have hend : l.stop = byteLength (read ++ (skipped ++ word)) := by
    rw [hstop, hstart, byteLength_append, byteLength_append, Nat.add_assoc]
  rw [hend]
  exact htail _ (by simp [htext]) hend

/-- A run of word characters that is cut off the rest of a text, and the lexemes behind it. -/
theorem areCut_word {read skipped cs : List Char} {c : Char} {token : Token} {lexemes : List Lexeme}
    (hc : isWordChar c = true) (htext : text.toList = read ++ (skipped ++ c :: cs))
    (hskipped : ∀ c ∈ skipped, isBlank c = true)
    (hstart : start = byteLength read + byteLength skipped)
    (htoken : Describes start (c :: cs.takeWhile isWordChar) token)
    (htail : ∀ read', text.toList = read' ++ ([] ++ cs.dropWhile isWordChar) →
      wordStop start c cs = byteLength read' + byteLength [] →
        AreCut text (byteLength read') lexemes) :
    AreCut text (byteLength read) (⟨start, wordStop start c cs, token⟩ :: lexemes) := by
  have hblank : isBlank c = false := Bool.eq_false_iff.mpr (isWordChar_iff_ne.mp hc).1
  refine areCut_cons (c :: cs.takeWhile isWordChar) (cs.dropWhile isWordChar) (by simp [htext])
    hskipped hstart ?_ ⟨c, _, rfl, hblank, ?_⟩ ?_ htail
  · rw [byteLength_cons, ← Nat.add_assoc]
    rfl
  · intro _
    rw [List.takeWhile_append_dropWhile]
  · cases token with
    | faulty e =>
      have hoffset : e.offset = start := htoken
      show IsBoundary text e.offset
      rw [hoffset, hstart, ← byteLength_append]
      exact isBoundary_byteLength (by rw [htext, List.append_assoc])
    | _ => exact htoken

/-- **The lexemes of a text are cut out of it one after the other.** -/
theorem areCut_lexemesFrom (start : Nat) (cs : List Char) :
    ∀ read skipped, text.toList = read ++ (skipped ++ cs) →
      (∀ c ∈ skipped, isBlank c = true) → start = byteLength read + byteLength skipped →
      AreCut text (byteLength read) (lexemesFrom start cs) := by
  induction start, cs using lexemesFrom_induction with
  | nil start =>
    intro read skipped _ _ _
    rw [lexemesFrom]
    trivial
  | blank start c cs hc ih =>
    intro read skipped htext hskipped hstart
    rw [lexemesFrom_blank hc]
    refine ih read (skipped ++ [c]) (by simp [htext]) ?_ (by simp [hstart, Nat.add_assoc])
    intro d hd
    rcases List.mem_append.mp hd with hd | hd
    · exact hskipped d hd
    · rw [List.mem_singleton.mp hd]
      exact hc
  | opening start cs ih =>
    intro read skipped htext hskipped hstart
    rw [lexemesFrom_opening]
    exact areCut_cons ['['] cs htext hskipped hstart rfl
      ⟨'[', [], rfl, rfl, fun hword => absurd hword (by decide)⟩ trivial
      fun read' hread' hstop => ih read' [] hread' (List.forall_mem_nil _) hstop
  | closing start cs ih =>
    intro read skipped htext hskipped hstart
    rw [lexemesFrom_closing]
    exact areCut_cons [']'] cs htext hskipped hstart rfl
      ⟨']', [], rfl, rfl, fun hword => absurd hword (by decide)⟩ trivial
      fun read' hread' hstop => ih read' [] hread' (List.forall_mem_nil _) hstop
  | quoted start cs s rest hdecode ih =>
    intro read skipped htext hskipped hstart
    rw [lexemesFrom_quoted hdecode]
    have hadd := quotedStop_add hdecode start
    obtain ⟨body, rfl, -⟩ := Text.exists_spells_of_decode hdecode
    have hstop : quotedStop start (body ++ '"' :: rest) rest =
        start + byteLength ('"' :: (body ++ ['"'])) := by
      simp only [byteLength_cons, byteLength_append, byteLength_nil] at hadd ⊢
      omega
    exact areCut_cons ('"' :: (body ++ ['"'])) rest (by simp [htext]) hskipped hstart hstop
      ⟨'"', _, rfl, rfl, fun hword => absurd hword (by decide)⟩ trivial
      fun read' hread' hstop' => ih read' [] hread' (List.forall_mem_nil _) hstop'
  | misquoted start cs fault hdecode =>
    intro read skipped htext hskipped hstart
    rw [lexemesFrom_misquoted hdecode]
    refine areCut_cons ('"' :: cs) [] (by simp [htext]) hskipped hstart ?_
      ⟨'"', _, rfl, rfl, fun hword => absurd hword (by decide)⟩ ?_ fun _ _ _ => trivial
    · show start + 1 + byteLength cs = start + byteLength ('"' :: cs)
      rw [byteLength_quote, Nat.add_assoc]
    · show IsBoundary text (textError start fault).offset
      rw [hstart, ← byteLength_append]
      exact isBoundary_textError (by simp [htext]) hdecode
  | token start c cs hc htoken ih =>
    intro read skipped htext hskipped hstart
    rw [lexemesFrom_token hc htoken]
    exact areCut_word hc htext hskipped hstart (describes_tokenAt start c _)
      fun read' hread' hstop => ih read' [] hread' (List.forall_mem_nil _) hstop
  | fault start c cs e hc htoken =>
    intro read skipped htext hskipped hstart
    rw [lexemesFrom_fault hc htoken]
    have hdescribes := describes_tokenAt start c (cs.takeWhile isWordChar)
    rw [htoken] at hdescribes
    exact areCut_word hc htext hskipped hstart hdescribes fun _ _ _ => trivial

theorem areCut_lexemes (text : String) : AreCut text 0 (lexemes text.toList) :=
  areCut_lexemesFrom 0 text.toList [] [] rfl (List.forall_mem_nil _) rfl

/-! ### Offsets of cut lexemes -/

namespace Cut.Fits

variable {cut : Cut}

theorem start_eq_byteLength (h : cut.Fits text after l) :
    l.start = byteLength (cut.before ++ cut.skipped) := by
  rw [h.start_eq, h.after_eq, byteLength_append]

theorem bareword (h : cut.Fits text after l) {name : String} (hname : l.token = .bareword name) :
    name.toList = cut.word := by
  have htoken := h.token
  rwa [hname] at htoken

theorem fault (h : cut.Fits text after l) {e : ParseError} (he : l.token = .faulty e) :
    IsBoundary text e.offset := by
  have htoken := h.token
  rwa [he] at htoken

theorem text_eq_append (h : cut.Fits text after l) :
    text.toList = (cut.before ++ cut.skipped) ++ (cut.word ++ cut.rest) := by
  rw [h.text_eq, List.append_assoc]

theorem isBoundary_start (h : cut.Fits text after l) : IsBoundary text l.start := by
  rw [h.start_eq_byteLength]
  exact isBoundary_byteLength h.text_eq_append

/-- Where a lexeme has been read up to some character, there is a boundary. -/
theorem isBoundary_within (h : cut.Fits text after l) (read left : List Char)
    (hword : cut.word = read ++ left) : IsBoundary text (l.start + byteLength read) := by
  have hsplit : text.toList = (cut.before ++ cut.skipped ++ read) ++ (left ++ cut.rest) := by
    simp [h.text_eq, hword]
  rw [h.start_eq_byteLength, ← byteLength_append]
  exact isBoundary_byteLength hsplit

theorem isBoundary_stop (h : cut.Fits text after l) : IsBoundary text l.stop := by
  rw [h.stop_eq]
  exact h.isBoundary_within cut.word [] (List.append_nil _).symm

/-- A lexeme takes up at least one byte. -/
theorem start_lt_stop (h : cut.Fits text after l) : l.start < l.stop := by
  obtain ⟨c, cs, hword, -⟩ := h.begins
  have hsize := c.utf8Size_pos
  rw [h.stop_eq, hword, byteLength_cons]
  omega

theorem le_start (h : cut.Fits text after l) : after ≤ l.start := by
  rw [h.start_eq]
  exact Nat.le_add_right after _

end Cut.Fits

/-- Each lexeme takes up at least one byte. -/
theorem AreCut.add_length_le {lexemes : List Lexeme} (h : AreCut text after lexemes) :
    after + lexemes.length ≤ endOf after lexemes := by
  induction lexemes generalizing after with
  | nil => exact le_rfl
  | cons l lexemes ih =>
    obtain ⟨⟨cut, hcut⟩, hrest⟩ := h
    have hle := ih hrest
    have hstart := hcut.le_start
    have hstop := hcut.start_lt_stop
    rw [List.length_cons, endOf]
    omega

theorem AreCut.isBoundary_endOf {lexemes : List Lexeme} (h : AreCut text after lexemes)
    (hafter : IsBoundary text after) : IsBoundary text (endOf after lexemes) := by
  induction lexemes generalizing after with
  | nil => exact hafter
  | cons l lexemes ih =>
    obtain ⟨⟨cut, hcut⟩, hrest⟩ := h
    exact ih hrest hcut.isBoundary_stop

/-- A text has no more lexemes than bytes. -/
theorem length_lexemes_le (text : String) :
    (lexemes text.toList).length ≤ text.utf8ByteSize := by
  have hcut := areCut_lexemes text
  have hzero : IsBoundary text 0 := isBoundary_byteLength (List.nil_append text.toList).symm
  have hle := hcut.add_length_le
  have hend := (hcut.isBoundary_endOf hzero).le
  omega

/-! ### Searching by bytes -/

/-- What is found by bytes where a lexeme is cut out, after byte `after`. -/
structure Scanned (text : String) (after : Nat) (l : Lexeme) : Prop where
  /-- The lexeme starts where the blank bytes end. -/
  start_eq : l.start = after + ((bytesFrom text after).takeWhile isBlankByte).length
  /-- A word ends where its bytes end. -/
  stop_eq : ∀ b ∈ (bytesFrom text l.start).head?, isWordByte b = true →
    l.stop = l.start + ((bytesFrom text l.start).takeWhile isWordByte).length
  /-- A bareword has the bytes from its start to its end for a name. -/
  name_eq : ∀ name, l.token = .bareword name →
    name.toUTF8.data.toList = (bytesFrom text l.start).take (l.stop - l.start)
  /-- The lexeme is not empty. -/
  start_lt_stop : l.start < l.stop
  /-- The lexeme starts on a boundary. -/
  isBoundary_start : IsBoundary text l.start
  /-- Behind a quote, or another first byte of ASCII, there is a boundary. -/
  isBoundary_succ : ∀ b ∈ (bytesFrom text l.start).head?, b.toNat ≤ 127 →
    IsBoundary text (l.start + 1)
  /-- The lexeme ends on a boundary. -/
  isBoundary_stop : IsBoundary text l.stop

namespace Cut.Fits

variable {cut : Cut}

theorem bytesFrom_start (h : cut.Fits text after l) :
    bytesFrom text l.start = encoded cut.word ++ encoded cut.rest := by
  rw [h.start_eq_byteLength, bytesFrom_append h.text_eq_append, encoded_append]

/-- Blanks are skipped byte by byte. -/
theorem takeWhile_blank (h : cut.Fits text after l) :
    (bytesFrom text after).takeWhile isBlankByte = encoded cut.skipped := by
  obtain ⟨c, cs, hword, hblank, -⟩ := h.begins
  rw [h.after_eq, bytesFrom_append h.text_eq, takeWhile_encoded fun c b hb => isBlankByte_eq hb,
    List.takeWhile_append_of_pos h.blank, hword, List.cons_append,
    List.takeWhile_cons_of_neg (by simp [hblank]), List.append_nil]

/-- The first byte of a lexeme is one of its first character. -/
theorem exists_head (h : cut.Fits text after l) {b : UInt8}
    (hb : b ∈ (bytesFrom text l.start).head?) :
    ∃ c cs, cut.word = c :: cs ∧ b ∈ String.utf8EncodeChar c ∧
      (isWordChar c = true → (cs ++ cut.rest).takeWhile isWordChar = cs) := by
  obtain ⟨c, cs, hword, -, hends⟩ := h.begins
  obtain ⟨b', bs, hbytes⟩ := exists_encoding_cons c
  rw [h.bytesFrom_start, hword, encoded_cons, hbytes] at hb
  cases hb
  exact ⟨c, cs, hword, by rw [hbytes]; exact List.mem_cons_self, hends⟩

/-- **A lexeme is found by bytes**, and no byte at which the search stops is inside a character. -/
theorem scanned (h : cut.Fits text after l) : Scanned text after l where
  start_eq := by rw [h.takeWhile_blank, length_encoded, h.start_eq]
  stop_eq := by
    intro b hb hword
    obtain ⟨c, cs, hcs, hmem, hends⟩ := h.exists_head hb
    rw [isWordByte_eq hmem] at hword
    have htake : (cut.word ++ cut.rest).takeWhile isWordChar = cut.word := by
      rw [hcs, List.cons_append, List.takeWhile_cons_of_pos hword, hends hword]
    rw [h.bytesFrom_start, ← encoded_append, takeWhile_encoded fun c b hb => isWordByte_eq hb,
      htake, length_encoded, h.stop_eq]
  name_eq := by
    intro name hname
    rw [toList_toUTF8, h.bareword hname, h.bytesFrom_start, h.stop_eq, Nat.add_sub_cancel_left,
      ← length_encoded, List.take_left]
  start_lt_stop := h.start_lt_stop
  isBoundary_start := h.isBoundary_start
  isBoundary_succ := by
    intro b hb hascii
    obtain ⟨c, cs, hcs, hmem, -⟩ := h.exists_head hb
    have hc : c.toNat ≤ 127 := by
      by_contra hlarge
      have hhigh := le_of_mem_encoding (Nat.lt_of_not_le hlarge) hmem
      omega
    have hsize : byteLength [c] = 1 := by
      rw [← length_encoded, encoded_cons, encoding_ascii hc]
      rfl
    rw [← hsize]
    exact h.isBoundary_within [c] cs hcs
  isBoundary_stop := h.isBoundary_stop

end Cut.Fits

/-! ### Where reading reports faults -/

variable {α β : Type} {P : Nat → Prop} {meaning : String → Cell} {frames : List Frame}

/-- An outcome that is an error only at offsets with the given property. -/
def ReportsAt (P : Nat → Prop) (outcome : Except ParseError α) : Prop :=
  ∀ e, outcome = .error e → P e.offset

theorem reportsAt_ok (a : α) : ReportsAt P (.ok a : Except ParseError α) := nofun

theorem reportsAt_error {e : ParseError} (h : P e.offset) :
    ReportsAt P (.error e : Except ParseError α) := by
  rintro e' ⟨⟩
  exact h

theorem ReportsAt.bind {x : Except ParseError α} {f : α → Except ParseError β}
    (hx : ReportsAt P x) (hf : ∀ a, x = .ok a → ReportsAt P (f a)) : ReportsAt P (x >>= f) := by
  cases x with
  | error e => exact reportsAt_error (hx e rfl)
  | ok a => exact hf a rfl

theorem ReportsAt.map {x : Except ParseError α} (f : α → β) (hx : ReportsAt P x) :
    ReportsAt P (x.map f) := by
  intro e he
  cases x with
  | error e' => exact hx e (by cases he; rfl)
  | ok a => cases he

/-- A lexeme at whose offsets something holds. -/
structure Located (P : Nat → Prop) (l : Lexeme) : Prop where
  /-- At its start. -/
  start : P l.start
  /-- At the fault that it may be. -/
  fault : ∀ e, l.token = .faulty e → P e.offset
  /-- Behind an arrow with which it may begin. -/
  arrow : ∀ name rest, l.token = .bareword name → name.toList = '-' :: '>' :: rest →
    P (l.start + 2)

/-- Something holds where the open brackets stand. -/
def Opened (P : Nat → Prop) (frames : List Frame) : Prop := ∀ frame ∈ frames, P frame.start

theorem opened_nil : Opened P [] := List.forall_mem_nil _

theorem opened_of_place {c : Cell} {frames' : List Frame} (hframes : Opened P frames)
    (h : place c frames = .pending frames') : Opened P frames' := by
  cases frames with
  | nil => cases h
  | cons frame outer =>
    cases h
    obtain ⟨hframe, houter⟩ := List.forall_mem_cons.mp hframes
    exact List.forall_mem_cons.mpr ⟨hframe, houter⟩

/-- **One lexeme** is reported at its own offsets, and opens a bracket at its start. -/
theorem reportsAt_advance (meaning : String → Cell) (hframes : Opened P frames)
    (hl : Located P l) :
    ReportsAt P (advance meaning frames l) ∧
      ∀ frames', advance meaning frames l = .ok (.pending frames') → Opened P frames' := by
  obtain ⟨start, stop, token⟩ := l
  cases token with
  | opening =>
    refine ⟨reportsAt_ok _, ?_⟩
    rintro frames' ⟨⟩
    exact List.forall_mem_cons.mpr ⟨hl.start, hframes⟩
  | closing =>
    cases frames with
    | nil => exact ⟨reportsAt_error hl.start, nofun⟩
    | cons frame outer =>
      have houter : Opened P outer := fun f hf => hframes f (List.mem_cons_of_mem frame hf)
      exact ⟨reportsAt_ok _, fun frames' h => opened_of_place houter (Except.ok.inj h)⟩
  | literal c => exact ⟨reportsAt_ok _, fun frames' h => opened_of_place hframes (Except.ok.inj h)⟩
  | bareword name =>
    exact ⟨reportsAt_ok _, fun frames' h => opened_of_place hframes (Except.ok.inj h)⟩
  | faulty e => exact ⟨reportsAt_error (hl.fault e rfl), nofun⟩

theorem reportsAt_readCell (hstop : P stop) (hframes : Opened P frames)
    (hahead : ∀ l ∈ ahead, Located P l) : ReportsAt P (readCell meaning stop frames ahead) := by
  induction ahead generalizing frames with
  | nil =>
    cases frames with
    | nil => exact reportsAt_error hstop
    | cons frame outer => exact reportsAt_error (hframes frame List.mem_cons_self)
  | cons l ahead ih =>
    obtain ⟨hl, hrest⟩ := List.forall_mem_cons.mp hahead
    obtain ⟨hreports, hopened⟩ := reportsAt_advance meaning hframes hl
    cases hadvance : advance meaning frames l with
    | error e =>
      rw [readCell, hadvance]
      exact reportsAt_error (hreports e hadvance)
    | ok progress =>
      rw [readCell_cons hadvance]
      cases progress with
      | complete c => exact reportsAt_ok _
      | pending frames' => exact ih (hopened frames' hadvance) hrest

theorem reportsAt_readCells (hframes : Opened P frames) (hahead : ∀ l ∈ ahead, Located P l) :
    ReportsAt P (readCells meaning frames ahead) := by
  induction ahead generalizing frames with
  | nil =>
    cases frames with
    | nil => exact reportsAt_ok _
    | cons frame outer => exact reportsAt_error (hframes frame List.mem_cons_self)
  | cons l ahead ih =>
    obtain ⟨hl, hrest⟩ := List.forall_mem_cons.mp hahead
    obtain ⟨hreports, hopened⟩ := reportsAt_advance meaning hframes hl
    cases hadvance : advance meaning frames l with
    | error e =>
      rw [readCells_error hadvance]
      exact reportsAt_error (hreports e hadvance)
    | ok progress =>
      cases progress with
      | complete c =>
        rw [readCells_complete hadvance]
        exact (ih opened_nil hrest).map _
      | pending frames' =>
        rw [readCells_pending hadvance]
        exact ih (hopened frames' hadvance) hrest

/-- **A cell takes up a lexeme**, and perhaps more of them. -/
theorem exists_taken_of_readCell {c : Cell} {rest : List Lexeme}
    (h : readCell meaning stop frames ahead = .ok (c, rest)) :
    ∃ l taken, ahead = l :: (taken ++ rest) := by
  induction ahead generalizing frames with
  | nil => cases frames <;> cases h
  | cons l ahead ih =>
    cases hadvance : advance meaning frames l with
    | error e =>
      rw [readCell, hadvance] at h
      cases h
    | ok progress =>
      rw [readCell_cons hadvance] at h
      cases progress with
      | complete c' =>
        cases h
        exact ⟨l, [], rfl⟩
      | pending frames' =>
        obtain ⟨l', taken, rfl⟩ := ih h
        exact ⟨l, l' :: taken, rfl⟩

theorem located_startOf (hstop : P stop) (hahead : ∀ l ∈ ahead, Located P l) :
    P (startOf stop ahead) := by
  cases ahead with
  | nil => exact hstop
  | cons l ahead => exact (hahead l List.mem_cons_self).start

theorem reportsAt_expectEnd (hahead : ∀ l ∈ ahead, Located P l) :
    ReportsAt P (expectEnd ahead) := by
  cases ahead with
  | nil => exact reportsAt_ok _
  | cons l ahead => exact reportsAt_error (hahead l List.mem_cons_self).start

theorem reportsAt_readGroup {fault : ParseFault} (hstop : P stop)
    (hahead : ∀ l ∈ ahead, Located P l) : ReportsAt P (readGroup meaning fault stop ahead) := by
  rw [readGroup]
  split
  · exact (reportsAt_readCell hstop opened_nil hahead).map _
  · exact reportsAt_error (located_startOf hstop hahead)

/-- What is left after a cell was read lies ahead. -/
theorem located_of_readCell {c : Cell} {rest : List Lexeme}
    (h : readCell meaning stop frames ahead = .ok (c, rest)) (hahead : ∀ l ∈ ahead, Located P l) :
    ∀ l ∈ rest, Located P l := by
  obtain ⟨l, taken, rfl⟩ := exists_taken_of_readCell h
  exact fun l' hl' => hahead l' (List.mem_cons_of_mem l (List.mem_append_right taken hl'))

theorem located_of_readGroup {fault : ParseFault} {cells : List Cell} {rest : List Lexeme}
    (h : readGroup meaning fault stop ahead = .ok (cells, rest))
    (hahead : ∀ l ∈ ahead, Located P l) : ∀ l ∈ rest, Located P l := by
  rw [readGroup] at h
  split at h
  · cases hread : readCell meaning stop [] ahead with
    | error e => rw [hread] at h; cases h
    | ok read =>
      rw [hread] at h
      cases h
      exact located_of_readCell hread hahead
  · cases h

theorem reportsAt_passArrow (hstop : P stop) (hahead : ∀ l ∈ ahead, Located P l) :
    ReportsAt P (passArrow stop ahead) := by
  have hstart := located_startOf hstop hahead
  unfold passArrow
  split
  · next start stop' name rest =>
    split
    · exact reportsAt_ok _
    · next more hname =>
      exact reportsAt_error ((hahead _ List.mem_cons_self).arrow name _ rfl hname)
    · exact reportsAt_error hstart
  · exact reportsAt_error hstart

theorem located_of_passArrow {rest : List Lexeme} (h : passArrow stop ahead = .ok rest)
    (hahead : ∀ l ∈ ahead, Located P l) : ∀ l ∈ rest, Located P l := by
  unfold passArrow at h
  split at h
  · split at h
    · cases h
      exact fun l hl => hahead l (List.mem_cons_of_mem _ hl)
    · cases h
    · cases h
  · cases h

theorem reportsAt_parseMeaning {cs : List Char} (hstop : P (byteLength cs))
    (hlexemes : ∀ l ∈ lexemes cs, Located P l) : ReportsAt P (parseMeaning meaning cs) := by
  refine (reportsAt_readCell hstop opened_nil hlexemes).bind ?_
  rintro ⟨c, rest⟩ hread
  refine (reportsAt_expectEnd (located_of_readCell hread hlexemes)).bind ?_
  exact fun _ _ => reportsAt_ok c

/-- A bracketed group and nothing behind it. -/
theorem reportsAt_group {fault : ParseFault} (hstop : P stop) (hahead : ∀ l ∈ ahead, Located P l) :
    ReportsAt P (readGroup meaning fault stop ahead >>= fun (cells, rest) =>
      expectEnd rest >>= fun _ => pure cells) := by
  refine (reportsAt_readGroup hstop hahead).bind ?_
  rintro ⟨cells, rest⟩ hread
  refine (reportsAt_expectEnd (located_of_readGroup hread hahead)).bind ?_
  exact fun _ _ => reportsAt_ok cells

theorem reportsAt_parseSignature (hstop : P (byteLength text.toList))
    (hlexemes : ∀ l ∈ lexemes text.toList, Located P l) : ReportsAt P (parseSignature text) := by
  refine (reportsAt_readGroup hstop hlexemes).bind ?_
  rintro ⟨consumes, rest⟩ hread
  have hrest := located_of_readGroup hread hlexemes
  refine (reportsAt_passArrow hstop hrest).bind fun rest' hpass => ?_
  have hrest' := located_of_passArrow hpass hrest
  refine (reportsAt_readGroup hstop hrest').bind ?_
  rintro ⟨produces, rest''⟩ hread'
  refine (reportsAt_expectEnd (located_of_readGroup hread' hrest')).bind ?_
  exact fun _ _ => reportsAt_ok _

/-! ### Every text -/

/-- Everything that a lexeme reports of itself is on a boundary. -/
theorem Cut.Fits.located {cut : Cut} (h : cut.Fits text after l) : Located (IsBoundary text) l where
  start := h.isBoundary_start
  fault := fun _ => h.fault
  arrow := by
    intro name rest hname harrow
    rw [h.bareword hname] at harrow
    exact h.isBoundary_within ['-', '>'] rest harrow

theorem AreCut.located {lexemes : List Lexeme} (h : AreCut text after lexemes) :
    ∀ l ∈ lexemes, Located (IsBoundary text) l := by
  induction lexemes generalizing after with
  | nil => exact nofun
  | cons l lexemes ih =>
    obtain ⟨⟨cut, hcut⟩, hrest⟩ := h
    exact List.forall_mem_cons.mpr ⟨hcut.located, ih hrest⟩

/-- Reading a cell takes a text further. -/
theorem startOf_lt_endOf {c : Cell} {rest : List Lexeme} (hcut : AreCut text after ahead)
    (h : readCell meaning stop frames ahead = .ok (c, rest)) :
    ∃ taken, ahead = taken ++ rest ∧ after ≤ startOf stop ahead ∧
      startOf stop ahead < endOf after taken := by
  obtain ⟨l, taken, rfl⟩ := exists_taken_of_readCell h
  obtain ⟨⟨cut, hl⟩, hrest⟩ := hcut
  have hend := hrest.of_append.1.add_length_le
  have hlt := hl.start_lt_stop
  refine ⟨l :: taken, rfl, hl.le_start, ?_⟩
  rw [startOf, endOf]
  omega

/-- An outcome whose error, if it is one, has an offset into the text that is on a boundary. -/
def ReportsInside (text : String) (outcome : Except ParseError α) : Prop :=
  ReportsAt (fun n => n ≤ text.utf8ByteSize ∧ IsBoundary text n) outcome

theorem reportsInside_of {outcome : Except ParseError α}
    (h : ReportsAt (IsBoundary text) outcome) : ReportsInside text outcome :=
  fun e he => ⟨(h e he).le, h e he⟩

/-- **Reading goes forward, and keeps to the boundaries between characters.** For every text: each
lexeme is found by bytes where it is cut out, and the places at which the text is cut are
boundaries; there are no more lexemes than bytes; wherever a cell is read, with whatever brackets
open, the reader gets at least a byte further than the place at which it started; and every error,
in each of the six ways to read a text, has an offset that is no further than the end of the text
and is on a boundary. -/
theorem reading_keeps_to_boundaries (text : String) :
    (∀ before l after, lexemes text.toList = before ++ l :: after →
      Scanned text (endOf 0 before) l) ∧
    (lexemes text.toList).length ≤ text.utf8ByteSize ∧
    (∀ before ahead, lexemes text.toList = before ++ ahead →
      ∀ meaning frames c rest, readCell meaning text.utf8ByteSize frames ahead = .ok (c, rest) →
        ∃ taken, ahead = taken ++ rest ∧
          endOf 0 before ≤ startOf text.utf8ByteSize ahead ∧
          startOf text.utf8ByteSize ahead + 1 ≤ endOf 0 (before ++ taken)) ∧
    ReportsInside text (parse text) ∧
    (∀ names, ReportsInside text (parseWith names text)) ∧
    ReportsInside text (parseState text) ∧
    ReportsInside text (parseProgram text) ∧
    ReportsInside text (parseTypes text) ∧
    ReportsInside text (parseSignature text) := by
  have hcut := areCut_lexemes text
  have hlexemes := hcut.located
  have hstop : IsBoundary text (byteLength text.toList) := by
    rw [byteLength_toList]
    exact isBoundary_utf8ByteSize text
  refine ⟨fun before l after h => ?_, length_lexemes_le text, fun before ahead h => ?_, ?_⟩
  · rw [h] at hcut
    obtain ⟨⟨cut, hfits⟩, -⟩ := hcut.of_append.2
    exact hfits.scanned
  · intro meaning frames c rest hread
    rw [h] at hcut
    obtain ⟨taken, rfl, hle, hlt⟩ := startOf_lt_endOf hcut.of_append.2 hread
    exact ⟨taken, rfl, hle, by rwa [endOf_append]⟩
  · refine ⟨reportsInside_of (reportsAt_parseMeaning hstop hlexemes), fun names =>
      reportsInside_of (reportsAt_parseMeaning hstop hlexemes), ?_⟩
    refine ⟨reportsInside_of (reportsAt_group hstop hlexemes),
      reportsInside_of (reportsAt_readCells opened_nil hlexemes),
      reportsInside_of (reportsAt_group hstop hlexemes),
      reportsInside_of (reportsAt_parseSignature hstop hlexemes)⟩

-- the escape is found after the quote and a character of two bytes
example : parse "\"ö\\x\"" = .error ⟨.unknownEscape 'x', 3⟩ := by cbv

end Source
end Restack
