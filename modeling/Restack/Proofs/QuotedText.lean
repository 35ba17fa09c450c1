import Restack.Proofs.RoundTrip

/-!
# Which texts read back

A text is written with more escapes than can be read: the null character becomes `\0`, and a
character without a printed form, or one that would attach to its predecessor, is written by its
code point. The reader refuses both. So a text reads back exactly when all of its characters are
legible, and otherwise the reading fails at the first one that is not.

## Main definitions

* `Text.escapeLetter` — what follows the backslash of a character that is not legible.

## Main results

* `decode_encode_illegible` — the reading of a text ends at its first illegible character.
* `printed_text_reads_back_iff` — the texts that read back, and how the others fail.
-/

namespace Restack

namespace Text

/-- What follows the backslash in the written form of a character that is not legible. -/
def escapeLetter (c : Char) : Char := if c = '\x00' then '0' else 'u'

theorem unescape?_escapeLetter (c : Char) : unescape? (escapeLetter c) = none := by
  unfold escapeLetter
  split <;> rfl

/-- A character that is not legible is written with an escape that cannot be read. -/
theorem encodeChar_illegible {c : Char} (hc : ¬ IsLegible c) :
    ∃ tail, encodeChar c = '\\' :: escapeLetter c :: tail := by
  obtain ⟨hescape, hplain⟩ := not_or.mp hc
  simp only [List.mem_cons, List.not_mem_nil, or_false, not_or] at hescape
  obtain ⟨hquote, hslash, hline, htab, hreturn⟩ := hescape
  rw [encodeChar, if_neg hquote, if_neg hslash, if_neg hline, if_neg htab, if_neg hreturn]
  by_cases hnul : c = '\x00'
  · subst hnul
    exact ⟨[], rfl⟩
  · have hcode : c.toNat ≠ 0 := fun h => hnul (Char.toNat_inj.mp h)
    rw [if_neg hcode, if_neg hplain, escapeLetter, if_neg hnul]
    exact ⟨_, rfl⟩

theorem decode_unknownEscape {e : Char} (he : unescape? e = none) (after : Nat)
    (rest : List Char) : decode after ('\\' :: e :: rest) = .error (.unknownEscape after e) := by
  rw [decode.eq_def]
  simp only [he]
  rfl

/-- **The reading of a text ends at its first illegible character.** -/
theorem decode_encode_illegible {before : List Char} {c : Char}
    (hbefore : ∀ d ∈ before, IsLegible d) (hc : ¬ IsLegible c) (after : Nat)
    (later rest : List Char) :
    decode after (encode (before ++ c :: later) ++ rest) =
      .error (.unknownEscape (after + Source.byteLength (encode before)) (escapeLetter c)) := by
  obtain ⟨tail, htail⟩ := encodeChar_illegible hc
  have hencode : encode (before ++ c :: later) ++ rest =
      encode before ++ '\\' :: escapeLetter c :: (tail ++ (encode later ++ rest)) := by
    simp [encode, htail]
  rw [hencode, decode_encode hbefore, decode_unknownEscape (unescape?_escapeLetter c)]
  rfl

end Text

namespace Source

theorem parse_legible_text {s : String} (hs : ∀ c ∈ s.toList, Text.IsLegible c) :
    parse (Cell.text s).toText = .ok (.text s) := by
  rw [parse, Cell.toText, String.toList_ofList]
  refine parseMeaning_of_reads (reads_of_lexeme (.inl rfl) fun start rest _ => ?_)
  exact lexemesFrom_text hs start rest

/-- The printed form of a text fails at its first illegible character. -/
theorem parse_illegible_text {s : String} {before later : List Char} {c : Char}
    (hs : s.toList = before ++ c :: later) (hbefore : ∀ d ∈ before, Text.IsLegible d)
    (hc : ¬ Text.IsLegible c) : parse (Cell.text s).toText =
      .error ⟨.unknownEscape (Text.escapeLetter c), 1 + byteLength (Text.encode before)⟩ := by
  have htext : (Cell.text s).toText.toList = '"' :: (Text.encode s.toList ++ ['"']) := by
    rw [Cell.toText, String.toList_ofList]
    rfl
  have hdecode := Text.decode_encode_illegible hbefore hc 0 later ['"']
  rw [← hs, Nat.zero_add] at hdecode
  rw [parse, htext, parseMeaning, lexemes, lexemesFrom_misquoted hdecode, textError]
  rfl

end Source

/-- **Which texts read back.** A text is read off its own printed form exactly when all of its
characters are legible. Otherwise the reading fails at the first of them that is not: with `\0` for
the null character and `\u` for all others, at the byte where that escape stands. -/
theorem printed_text_reads_back_iff (s : String) :
    (Source.parse (Cell.text s).toText = .ok (.text s) ↔ ∀ c ∈ s.toList, Text.IsLegible c) ∧
      ∀ before c later, s.toList = before ++ c :: later → (∀ d ∈ before, Text.IsLegible d) →
        ¬ Text.IsLegible c →
        Source.parse (Cell.text s).toText =
          .error ⟨.unknownEscape (if c = '\x00' then '0' else 'u'),
            1 + Source.byteLength (Text.encode before)⟩ := by
  refine ⟨⟨fun hread => ?_, Source.parse_legible_text⟩, fun before c later hs hbefore hc =>
    Source.parse_illegible_text hs hbefore hc⟩
  -- an illegible character would have a first one before it, where the reading fails
  cases hfind : s.toList.find? (fun c => !decide (Text.IsLegible c)) with
  | none => simpa using hfind
  | some c =>
    obtain ⟨hc, before, later, hs, hbefore⟩ := List.find?_eq_some_iff_append.mp hfind
    rw [Source.parse_illegible_text hs (by simpa using hbefore) (by simpa using hc)] at hread
    cases hread

/-- The end of a line has a short escape and reads back; the soft hyphen behind it has no printed
form and fails at the fourth byte, where its own escape stands. -/
theorem printed_text_reads_back_iff_soft_hyphen :
    Source.parse (Cell.text "a\n").toText = .ok (.text "a\n") ∧
      (Cell.text "a\n\u00ad").toText = "\"a\\n\\u\x7bad\x7d\"" ∧
      Source.parse (Cell.text "a\n\u00ad").toText = .error ⟨.unknownEscape 'u', 4⟩ := by
  have hlegible : ∀ d ∈ ['a', '\n'], Text.IsLegible d :=
    List.forall_mem_cons.mpr ⟨by decide, List.forall_mem_singleton.mpr (by decide)⟩
  have hhyphen : ¬ Text.IsLegible '\u00ad' := by decide +kernel
  refine ⟨(printed_text_reads_back_iff "a\n").1.mpr hlegible, by decide +kernel, ?_⟩
  exact (printed_text_reads_back_iff "a\n\u00ad").2 ['a', '\n'] '\u00ad' [] rfl hlegible hhyphen

/-- The text of the null character is printed as `"\0"`, and that of the delete character by its
code point. Neither can be read. -/
theorem null_text_does_not_read_back :
    (Cell.text "\x00").toText = "\"\\0\"" ∧
      Source.parse (Cell.text "\x00").toText = .error ⟨.unknownEscape '0', 1⟩ ∧
      (Cell.text "\x7f").toText = "\"\\u\x7b7f\x7d\"" ∧
      Source.parse (Cell.text "\x7f").toText = .error ⟨.unknownEscape 'u', 1⟩ := by
  have hnull : ¬ Text.IsLegible '\x00' := by decide
  have hdelete : ¬ Text.IsLegible '\x7f' := by decide
  have hnullText : "\x00".toList = [] ++ '\x00' :: [] := rfl
  have hdeleteText : "\x7f".toList = [] ++ '\x7f' :: [] := rfl
  have hnone : ∀ d ∈ ([] : List Char), Text.IsLegible d := nofun
  exact ⟨by decide, Source.parse_illegible_text hnullText hnone hnull, by decide,
    Source.parse_illegible_text hdeleteText hnone hdelete⟩

end Restack
