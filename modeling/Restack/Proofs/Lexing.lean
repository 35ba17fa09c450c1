import Restack.Source.Lexeme

/-!
# How texts are cut into lexemes

A text starts with a blank, a bracket, a quoted text or a run of word characters. Each of them has
its equation, and the induction over a text has one case for each. A text further on is cut in the
same way: only the offsets differ.

## Main definitions

* `tokenAt` — what a run of word characters stands for.
* `ParseError.shift`, `Lexeme.shift` — the same, a number of bytes further on.

## Main results

* `lexemesFrom_induction` — induction over the lexemes of a text.
* `lexemesFrom_shift` — where a text starts matters to its offsets only.
-/

namespace Restack

/-- The same error, `n` bytes further on. -/
def ParseError.shift (n : Nat) (e : ParseError) : ParseError := { e with offset := e.offset + n }

/-- The same token, `n` bytes further on: a fault says where it was found. -/
def Token.shift (n : Nat) : Token → Token
  | .faulty e => .faulty (e.shift n)
  | token => token

/-- The same lexeme, `n` bytes further on. -/
def Lexeme.shift (n : Nat) (l : Lexeme) : Lexeme := ⟨l.start + n, l.stop + n, l.token.shift n⟩

theorem Token.shift_of_not_faulty {token : Token} (h : ∀ e, token ≠ .faulty e) (n : Nat) :
    token.shift n = token := by
  cases token with
  | faulty e => exact absurd rfl (h e)
  | _ => rfl

@[simp] theorem Lexeme.shift_zero (l : Lexeme) : l.shift 0 = l := by
  obtain ⟨start, stop, token⟩ := l
  cases token <;> rfl

namespace Source

variable {start : Nat} {cs rest : List Char}

/-! ### One lexeme -/

/-- What a run of word characters stands for. -/
def tokenAt (start : Nat) (c : Char) (word : List Char) : Token :=
  if c = '\x27' then variableToken start word else wordToken start (c :: word)

theorem lexemesFrom_blank {c : Char} (hc : isBlank c = true) :
    lexemesFrom start (c :: cs) = lexemesFrom (start + c.utf8Size) cs := by
  rw [lexemesFrom, if_pos hc]

theorem lexemesFrom_opening (start : Nat) (rest : List Char) :
    lexemesFrom start ('[' :: rest) =
      ⟨start, start + 1, .opening⟩ :: lexemesFrom (start + 1) rest := by
  rw [lexemesFrom]
  rfl

theorem lexemesFrom_closing (start : Nat) (rest : List Char) :
    lexemesFrom start (']' :: rest) =
      ⟨start, start + 1, .closing⟩ :: lexemesFrom (start + 1) rest := by
  rw [lexemesFrom]
  rfl

/-- Where a quoted text ends that opens at byte `start`. -/
def quotedStop (start : Nat) (cs rest : List Char) : Nat :=
  start + 1 + (byteLength cs - byteLength rest)

/-- A quoted text is cut off after its closing quote. -/
theorem lexemesFrom_quoted {s : List Char} (h : Text.decode 0 cs = .ok (s, rest)) :
    lexemesFrom start ('"' :: cs) =
      ⟨start, quotedStop start cs rest, .literal (.text (.ofList s))⟩ ::
        lexemesFrom (quotedStop start cs rest) rest := by
  rw [lexemesFrom, if_neg (by decide), if_neg (by decide), if_neg (by decide), if_pos rfl]
  split
  · rename_i hok
    rw [h] at hok
    cases hok
    rfl
  · rename_i herror
    rw [h] at herror
    cases herror

/-- A quoted text that cannot be read ends the lexemes. -/
theorem lexemesFrom_misquoted {fault : Text.QuoteFault} (h : Text.decode 0 cs = .error fault) :
    lexemesFrom start ('"' :: cs) =
      [⟨start, start + 1 + byteLength cs, .faulty (textError start fault)⟩] := by
  rw [lexemesFrom, if_neg (by decide), if_neg (by decide), if_neg (by decide), if_pos rfl]
  split
  · rename_i hok
    rw [h] at hok
    cases hok
  · rename_i herror
    rw [h] at herror
    cases herror
    rfl

/-- Where a run of word characters ends that starts with `c` at byte `start`. -/
def wordStop (start : Nat) (c : Char) (cs : List Char) : Nat :=
  start + c.utf8Size + byteLength (cs.takeWhile isWordChar)

theorem isWordChar_iff_ne {c : Char} :
    isWordChar c = true ↔ ¬ isBlank c = true ∧ c ≠ '[' ∧ c ≠ ']' ∧ c ≠ '"' := by
  simp [isWordChar, and_assoc]

/-- A run of word characters is cut off where it ends. -/
theorem lexemesFrom_token {c : Char} (hc : isWordChar c = true)
    (h : ∀ e, tokenAt start c (cs.takeWhile isWordChar) ≠ .faulty e) :
    lexemesFrom start (c :: cs) =
      ⟨start, wordStop start c cs, tokenAt start c (cs.takeWhile isWordChar)⟩ ::
        lexemesFrom (wordStop start c cs) (cs.dropWhile isWordChar) := by
  obtain ⟨hblank, hopening, hclosing, hquote⟩ := isWordChar_iff_ne.mp hc
  rw [lexemesFrom, if_neg hblank, if_neg hopening, if_neg hclosing, if_neg hquote]
  dsimp only
  split
  · rename_i e hfaulty
    exact absurd hfaulty (h e)
  · rfl

/-- A run of word characters that stands for nothing ends the lexemes. -/
theorem lexemesFrom_fault {c : Char} {e : ParseError} (hc : isWordChar c = true)
    (h : tokenAt start c (cs.takeWhile isWordChar) = .faulty e) :
    lexemesFrom start (c :: cs) = [⟨start, wordStop start c cs, .faulty e⟩] := by
  obtain ⟨hblank, hopening, hclosing, hquote⟩ := isWordChar_iff_ne.mp hc
  unfold tokenAt at h
  rw [lexemesFrom, if_neg hblank, if_neg hopening, if_neg hclosing, if_neg hquote]
  simp only [h]
  rfl

/-! ### All lexemes -/

/-- Induction over the lexemes of a text. -/
theorem lexemesFrom_induction {motive : Nat → List Char → Prop} (nil : ∀ start, motive start [])
    (blank : ∀ start c cs, isBlank c = true → motive (start + c.utf8Size) cs →
      motive start (c :: cs))
    (opening : ∀ start cs, motive (start + 1) cs → motive start ('[' :: cs))
    (closing : ∀ start cs, motive (start + 1) cs → motive start (']' :: cs))
    (quoted : ∀ start cs s rest, Text.decode 0 cs = .ok (s, rest) →
      motive (quotedStop start cs rest) rest → motive start ('"' :: cs))
    (misquoted : ∀ start cs fault, Text.decode 0 cs = .error fault → motive start ('"' :: cs))
    (token : ∀ start c cs, isWordChar c = true →
      (∀ e, tokenAt start c (cs.takeWhile isWordChar) ≠ .faulty e) →
      motive (wordStop start c cs) (cs.dropWhile isWordChar) → motive start (c :: cs))
    (fault : ∀ start c cs e, isWordChar c = true →
      tokenAt start c (cs.takeWhile isWordChar) = .faulty e → motive start (c :: cs))
    (start : Nat) (cs : List Char) : motive start cs := by
  fun_induction lexemesFrom start cs with
  | case1 start => exact nil start
  | case2 start c cs hblank ih => exact blank start c cs hblank ih
  | case3 start cs _ ih => exact opening start cs ih
  | case4 start cs _ _ ih => exact closing start cs ih
  | case5 start cs s rest hok stop _ _ _ ih => exact quoted start cs s rest hok ih
  | case6 start cs f herror => exact misquoted start cs f herror
  | case7 start c cs hblank hopening hclosing hquote word stop tok e he =>
    exact fault start c cs e (isWordChar_iff_ne.mpr ⟨hblank, hopening, hclosing, hquote⟩) he
  | case8 start c cs hblank hopening hclosing hquote word rest stop tok hfault ih =>
    exact token start c cs (isWordChar_iff_ne.mpr ⟨hblank, hopening, hclosing, hquote⟩) hfault ih

theorem wordToken_shift (n : Nat) (word : List Char) :
    wordToken (start + n) word = (wordToken start word).shift n := by
  unfold wordToken
  split
  · split <;> rfl
  · split
    · rfl
    · split
      · rfl
      · split
        · split <;> rfl
        · rfl

theorem tokenAt_shift (n : Nat) (c : Char) (word : List Char) :
    tokenAt (start + n) c word = (tokenAt start c word).shift n := by
  unfold tokenAt
  split
  · unfold variableToken
    split <;> rfl
  · exact wordToken_shift n (c :: word)

theorem textError_shift (n : Nat) (fault : Text.QuoteFault) :
    textError (start + n) fault = (textError start fault).shift n := by
  cases fault with
  | unterminated => rfl
  | unknownEscape after escaped =>
    have hoffset : start + n + 1 + after = start + 1 + after + n := by omega
    rw [textError, hoffset]
    rfl

/-- **A text `n` bytes further on has the same lexemes, `n` bytes further on.** -/
theorem lexemesFrom_shift (n start : Nat) (cs : List Char) :
    lexemesFrom (start + n) cs = (lexemesFrom start cs).map (Lexeme.shift n) := by
  induction start, cs using lexemesFrom_induction with
  | nil start => simp [lexemesFrom]
  | blank start c cs hc ih =>
    rw [lexemesFrom_blank hc, lexemesFrom_blank hc, Nat.add_right_comm, ih]
  | opening start cs ih =>
    rw [lexemesFrom_opening, lexemesFrom_opening, Nat.add_right_comm, ih]
    rfl
  | closing start cs ih =>
    rw [lexemesFrom_closing, lexemesFrom_closing, Nat.add_right_comm, ih]
    rfl
  | quoted start cs s rest h ih =>
    have hstop : quotedStop (start + n) cs rest = quotedStop start cs rest + n := by
      unfold quotedStop
      omega
    rw [lexemesFrom_quoted h, lexemesFrom_quoted h, hstop, ih]
    rfl
  | misquoted start cs fault h =>
    have hstop : start + n + 1 + byteLength cs = start + 1 + byteLength cs + n := by omega
    rw [lexemesFrom_misquoted h, lexemesFrom_misquoted h, textError_shift, hstop]
    rfl
  | token start c cs hc h ih =>
    have hstop : wordStop (start + n) c cs = wordStop start c cs + n := by
      unfold wordStop
      omega
    have htoken : tokenAt (start + n) c (cs.takeWhile isWordChar) =
        tokenAt start c (cs.takeWhile isWordChar) := by
      rw [tokenAt_shift, Token.shift_of_not_faulty h]
    rw [lexemesFrom_token hc h, lexemesFrom_token hc (htoken ▸ h), htoken, hstop, ih,
      List.map_cons, Lexeme.shift, Token.shift_of_not_faulty h]
  | fault start c cs e hc h =>
    have hstop : wordStop (start + n) c cs = wordStop start c cs + n := by
      unfold wordStop
      omega
    have htoken : tokenAt (start + n) c (cs.takeWhile isWordChar) = .faulty (e.shift n) := by
      rw [tokenAt_shift, h]
      rfl
    rw [lexemesFrom_fault hc h, lexemesFrom_fault hc htoken, hstop]
    rfl

end Source
end Restack
