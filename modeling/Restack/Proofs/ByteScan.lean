import Restack.Proofs.JoinedText

/-!
# Texts as bytes

Offsets into a text count the bytes of its encoding in UTF-8. A character of ASCII is one byte, and
that byte is in the encoding of no other character. So a delimiter can be looked for byte by byte:
the bytes that stand before the first delimiter are those of whole characters, and the search comes
to an end on a boundary between characters.

## Main definitions

* `encoded`, `bytesFrom` — the bytes of characters, and those of a text from an offset on.
* `IsBoundary` — an offset between two characters of a text, or at one of its ends.
* `isBlankByte`, `isWordByte` — the blanks and the word characters, as bytes.

## Main results

* `mem_encoding_ascii_iff` — an ASCII character is told by its byte.
* `isBoundary_iff` — the boundaries are the ends of the beginnings of a text.
* `takeWhile_encoded` — a search by bytes finds what a search by characters finds.
-/

namespace Restack.Source

variable {cs ds : List Char} {text : String} {n : Nat}

/-! ### The bytes of a text -/

/-- The bytes that encode characters. -/
def encoded (cs : List Char) : List UInt8 := cs.flatMap String.utf8EncodeChar

@[simp] theorem encoded_nil : encoded [] = [] := rfl

@[simp] theorem encoded_cons (c : Char) (cs : List Char) :
    encoded (c :: cs) = String.utf8EncodeChar c ++ encoded cs := rfl

@[simp] theorem encoded_append (cs ds : List Char) :
    encoded (cs ++ ds) = encoded cs ++ encoded ds := by
  simp [encoded]

@[simp] theorem length_encoded (cs : List Char) : (encoded cs).length = byteLength cs := by
  induction cs with
  | nil => rfl
  | cons c cs ih => simp [ih]

/-- The bytes of a text from an offset on. -/
def bytesFrom (text : String) (n : Nat) : List UInt8 := text.toUTF8.data.toList.drop n

theorem toList_toUTF8 (text : String) : text.toUTF8.data.toList = encoded text.toList := by
  have hbytes : text.toUTF8 = text.toList.utf8Encode := by
    rw [← String.toByteArray_ofList, String.ofList_toList]
    rfl
  rw [hbytes, List.utf8Encode, List.data_toByteArray, encoded]

/-- After the bytes of its beginning, a text goes on with the bytes of the rest. -/
theorem bytesFrom_append (h : text.toList = cs ++ ds) :
    bytesFrom text (byteLength cs) = encoded ds := by
  rw [bytesFrom, toList_toUTF8, h, encoded_append, ← length_encoded, List.drop_left]

/-! ### Boundaries -/

/-- Whether a byte offset is one where a character of the text starts, or the end of the text. -/
def IsBoundary (text : String) (n : Nat) : Prop := (⟨n⟩ : String.Pos.Raw).IsValid text

theorem IsBoundary.le (h : IsBoundary text n) : n ≤ text.utf8ByteSize := h.le_rawEndPos

/-- The boundaries of a text are where its beginnings end. -/
theorem isBoundary_iff : IsBoundary text n ↔
    ∃ before after, text.toList = before ++ after ∧ n = byteLength before := by
  rw [IsBoundary, String.Pos.Raw.isValid_iff_exists_take_toList]
  simp only [String.utf8ByteSize_ofList, ← byteLength_eq_utf8Len]
  constructor
  · rintro ⟨i, hi⟩
    exact ⟨_, _, (List.take_append_drop i text.toList).symm, hi⟩
  · rintro ⟨before, after, htext, hn⟩
    refine ⟨before.length, ?_⟩
    rw [htext, List.take_left]
    exact hn

theorem isBoundary_byteLength (h : text.toList = cs ++ ds) : IsBoundary text (byteLength cs) :=
  isBoundary_iff.mpr ⟨cs, ds, h, rfl⟩

theorem isBoundary_utf8ByteSize (text : String) : IsBoundary text text.utf8ByteSize := by
  rw [← byteLength_toList]
  exact isBoundary_byteLength (List.append_nil _).symm

/-! ### Bytes of ASCII characters -/

/-- The byte of an ASCII character. -/
def asciiByte (d : Char) : UInt8 := UInt8.ofNat d.toNat

theorem toNat_asciiByte {d : Char} (hd : d.toNat ≤ 127) : (asciiByte d).toNat = d.toNat :=
  UInt8.toNat_ofNat_of_lt' (Nat.lt_of_le_of_lt hd (by decide))

theorem encoding_ascii {c : Char} (hc : c.toNat ≤ 127) :
    String.utf8EncodeChar c = [asciiByte c] := by
  rw [String.utf8EncodeChar]
  exact if_pos hc

/-- The bytes of a character beyond ASCII are beyond ASCII too. -/
theorem le_of_mem_encoding {c : Char} (hc : 127 < c.toNat) {b : UInt8}
    (hb : b ∈ String.utf8EncodeChar c) : 128 ≤ b.toNat := by
  have hbyte : ∀ x, 128 ≤ x → x < 256 → 128 ≤ (UInt8.ofNat x).toNat := by
    intro x hx hlt
    rw [UInt8.toNat_ofNat_of_lt' hlt]
    exact hx
  rw [String.utf8EncodeChar] at hb
  change b ∈ ite (c.toNat ≤ 127) _ _ at hb
  rw [if_neg (by omega)] at hb
  -- two, three or four bytes, each with its highest bit set
  split at hb
  · simp only [List.mem_cons, List.not_mem_nil, or_false] at hb
    rcases hb with rfl | rfl <;> exact hbyte _ (by omega) (by omega)
  · split at hb
    · simp only [List.mem_cons, List.not_mem_nil, or_false] at hb
      rcases hb with rfl | rfl | rfl <;> exact hbyte _ (by omega) (by omega)
    · simp only [List.mem_cons, List.not_mem_nil, or_false] at hb
      rcases hb with rfl | rfl | rfl | rfl <;> exact hbyte _ (by omega) (by omega)

/-- **The byte of an ASCII character is in the encoding of no other character.** -/
theorem mem_encoding_ascii_iff {c d : Char} (hd : d.toNat ≤ 127) {b : UInt8}
    (hb : b ∈ String.utf8EncodeChar c) : b = asciiByte d ↔ c = d := by
  have hnat := toNat_asciiByte hd
  by_cases hc : c.toNat ≤ 127
  · rw [encoding_ascii hc, List.mem_singleton] at hb
    rw [hb, ← UInt8.toNat_inj, hnat, toNat_asciiByte hc, Char.toNat_inj]
  · have hhigh := le_of_mem_encoding (Nat.lt_of_not_le hc) hb
    constructor
    · rintro rfl
      omega
    · rintro rfl
      exact absurd hd hc

/-! ### Searching by bytes -/

/-- The bytes of the blanks. -/
def isBlankByte (b : UInt8) : Bool :=
  b == asciiByte ' ' || b == asciiByte '\t' || b == asciiByte '\n' || b == asciiByte '\x0c' ||
    b == asciiByte '\r'

/-- The bytes that may stand inside a word: all but those of blanks, brackets and quotes. -/
def isWordByte (b : UInt8) : Bool :=
  !(isBlankByte b || b == asciiByte '[' || b == asciiByte ']' || b == asciiByte '"')

theorem beq_asciiByte {c d : Char} (hd : d.toNat ≤ 127) {b : UInt8}
    (hb : b ∈ String.utf8EncodeChar c) : (b == asciiByte d) = (c == d) := by
  rw [Bool.eq_iff_iff, beq_iff_eq, beq_iff_eq]
  exact mem_encoding_ascii_iff hd hb

/-- Every byte of a blank is blank, and no byte of another character is. -/
theorem isBlankByte_eq {c : Char} {b : UInt8} (hb : b ∈ String.utf8EncodeChar c) :
    isBlankByte b = isBlank c := by
  simp only [isBlankByte, isBlank]
  rw [beq_asciiByte (by decide) hb, beq_asciiByte (by decide) hb, beq_asciiByte (by decide) hb,
    beq_asciiByte (by decide) hb, beq_asciiByte (by decide) hb]

/-- The bytes of word characters are those that may stand inside a word. -/
theorem isWordByte_eq {c : Char} {b : UInt8} (hb : b ∈ String.utf8EncodeChar c) :
    isWordByte b = isWordChar c := by
  simp only [isWordByte, isWordChar, isBlankByte_eq hb]
  rw [beq_asciiByte (by decide) hb, beq_asciiByte (by decide) hb, beq_asciiByte (by decide) hb]

/-- The first byte of a character. -/
theorem exists_encoding_cons (c : Char) : ∃ b bs, String.utf8EncodeChar c = b :: bs := by
  refine List.exists_cons_of_ne_nil fun hnil => ?_
  have hlen := String.length_utf8EncodeChar c
  rw [hnil] at hlen
  exact absurd hlen.symm (Nat.ne_of_gt c.utf8Size_pos)

/-- **A search by bytes finds what a search by characters finds**, if the bytes of a character all
count as the character does. -/
theorem takeWhile_encoded {p : UInt8 → Bool} {q : Char → Bool}
    (h : ∀ c, ∀ b ∈ String.utf8EncodeChar c, p b = q c) (cs : List Char) :
    (encoded cs).takeWhile p = encoded (cs.takeWhile q) := by
  induction cs with
  | nil => rfl
  | cons c cs ih =>
    rw [encoded_cons, List.takeWhile_cons]
    by_cases hc : q c = true
    · rw [if_pos hc, encoded_cons, List.takeWhile_append_of_pos fun b hb => (h c b hb).trans hc, ih]
    · obtain ⟨b, bs, hbytes⟩ := exists_encoding_cons c
      have hb : ¬ p b = true := by
        rw [h c b (by rw [hbytes]; exact List.mem_cons_self)]
        exact hc
      rw [if_neg hc, hbytes, List.cons_append, List.takeWhile_cons_of_neg hb, encoded_nil]

end Restack.Source
