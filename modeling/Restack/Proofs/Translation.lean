import Restack.Proofs.Reading

/-!
# Reading up to translation

Lexemes that stand further on are read as the same cells, and fail further on. Another meaning of
barewords may be put in for the symbols once all is read, because barewords are all that the lexemes
leave open and a bracket is closed in the same way whatever it holds. Both are one law: reading
commutes with a map of cells that keeps scalars and enters quotations, and with a shift of offsets.

## Main definitions

* `Cell.mapSymbols` — another cell for each symbol, at any quotation depth.
* `Translates` — a map of cells that turns one meaning of barewords into another.

## Main results

* `advance_translate`, `readCell_translate`, `readCells_translate` — one lexeme, one cell, and all of
  them.
* `parseMeaning_translate` — a text that is one cell.
* `parse_with_names_eq_map` — names may be given their cells after reading.
-/

namespace Restack

mutual

/-- Replaces every symbol of a cell, inside quotations too, by what `f` says. -/
def Cell.mapSymbols (f : String → Cell) : Cell → Cell
  | .symbol name => f name
  | .quotation code => .quotation (Cell.mapSymbolsList f code)
  | c => c

/-- Replaces every symbol of the cells by what `f` says. -/
def Cell.mapSymbolsList (f : String → Cell) : List Cell → List Cell
  | [] => []
  | c :: cs => c.mapSymbols f :: Cell.mapSymbolsList f cs

end

theorem Cell.mapSymbolsList_eq_map (f : String → Cell) (cs : List Cell) :
    Cell.mapSymbolsList f cs = cs.map (Cell.mapSymbols f) := by
  induction cs with
  | nil => rfl
  | cons c cs ih => simp [Cell.mapSymbolsList, ih]

theorem Cell.IsScalar.mapSymbols {c : Cell} (h : c.IsScalar) (f : String → Cell) :
    c.mapSymbols f = c := by
  obtain ⟨hvalue, hquotation⟩ := h
  cases c with
  | symbol name => cases hvalue
  | quotation code => cases hquotation
  | _ => rfl

namespace Source

variable {f : Cell → Cell} {meaning meaning' : String → Cell}

/-! ### Maps of cells -/

/-- A map of cells that turns what is read with one meaning of barewords into what is read with
another. -/
structure Translates (f : Cell → Cell) (meaning meaning' : String → Cell) : Prop where
  /-- Barewords take their new meaning. -/
  bareword : ∀ name, f (meaning name) = meaning' name
  /-- Scalars stay as they are. -/
  scalar : ∀ c : Cell, c.IsScalar → f c = c
  /-- Quotations are entered. -/
  quotation : ∀ code, f (.quotation code) = .quotation (code.map f)

theorem translates_id (meaning : String → Cell) : Translates id meaning meaning where
  bareword _ := rfl
  scalar _ _ := rfl
  quotation code := congrArg Cell.quotation (List.map_id code).symm

/-- Symbols may be given any meaning afterwards. -/
theorem translates_mapSymbols (meaning : String → Cell) :
    Translates (Cell.mapSymbols meaning) .symbol meaning where
  bareword _ := rfl
  scalar _ hc := hc.mapSymbols meaning
  quotation code := by rw [Cell.mapSymbols, Cell.mapSymbolsList_eq_map]

/-- The same open bracket, `n` bytes further on, with its cells mapped. -/
def Frame.translate (f : Cell → Cell) (n : Nat) (frame : Frame) : Frame :=
  ⟨frame.start + n, frame.cells.map f⟩

/-- What the same lexeme leads to, `n` bytes further on and with all cells mapped. -/
def Progress.translate (f : Cell → Cell) (n : Nat) : Progress → Progress
  | .complete c => .complete (f c)
  | .pending frames => .pending (frames.map (Frame.translate f n))

/-! ### Reading -/

theorem place_translate (f : Cell → Cell) (n : Nat) (c : Cell) (frames : List Frame) :
    place (f c) (frames.map (Frame.translate f n)) = (place c frames).translate f n := by
  cases frames <;> rfl

/-- **One lexeme, translated.** -/
theorem advance_translate (h : Translates f meaning meaning') (n : Nat) (frames : List Frame)
    {l : Lexeme} (hl : IsScalarToken l.token) :
    advance meaning' (frames.map (Frame.translate f n)) (l.shift n) =
      ((advance meaning frames l).map (Progress.translate f n)).mapError (ParseError.shift n) := by
  obtain ⟨start, stop, token⟩ := l
  cases token with
  | opening => rfl
  | closing =>
    cases frames with
    | nil => rfl
    | cons frame outer =>
      have hquotation : Cell.quotation (frame.cells.map f).reverse =
          f (.quotation frame.cells.reverse) := by
        rw [h.quotation, List.map_reverse]
      show Except.ok (place (.quotation (frame.cells.map f).reverse) _) = _
      rw [hquotation, place_translate]
      rfl
  | literal c =>
    show Except.ok (place c _) = _
    rw [← h.scalar c hl, place_translate, h.scalar c hl]
    rfl
  | bareword name =>
    show Except.ok (place (meaning' name) _) = _
    rw [← h.bareword, place_translate]
    rfl
  | faulty e => rfl

/-- **One cell, translated.** -/
theorem readCell_translate (h : Translates f meaning meaning') (n stop : Nat) (frames : List Frame)
    {lexemes : List Lexeme} (hlexemes : ∀ l ∈ lexemes, IsScalarToken l.token) :
    readCell meaning' (stop + n) (frames.map (Frame.translate f n))
        (lexemes.map (Lexeme.shift n)) =
      ((readCell meaning stop frames lexemes).map
        fun read => (f read.1, read.2.map (Lexeme.shift n))).mapError (ParseError.shift n) := by
  induction lexemes generalizing frames with
  | nil => cases frames <;> rfl
  | cons l lexemes ih =>
    obtain ⟨hl, hlexemes⟩ := List.forall_mem_cons.mp hlexemes
    rw [List.map_cons, readCell, readCell, advance_translate h n frames hl]
    cases advance meaning frames l with
    | error e => rfl
    | ok progress =>
      cases progress with
      | complete c => rfl
      | pending frames' => exact ih frames' hlexemes

/-- **All cells, translated.** -/
theorem readCells_translate (h : Translates f meaning meaning') (n : Nat) (frames : List Frame)
    {lexemes : List Lexeme} (hlexemes : ∀ l ∈ lexemes, IsScalarToken l.token) :
    readCells meaning' (frames.map (Frame.translate f n)) (lexemes.map (Lexeme.shift n)) =
      ((readCells meaning frames lexemes).map (List.map f)).mapError (ParseError.shift n) := by
  induction lexemes generalizing frames with
  | nil => cases frames <;> rfl
  | cons l lexemes ih =>
    obtain ⟨hl, hlexemes⟩ := List.forall_mem_cons.mp hlexemes
    rw [List.map_cons, readCells, readCells, advance_translate h n frames hl]
    cases advance meaning frames l with
    | error e => rfl
    | ok progress =>
      cases progress with
      | pending frames' => exact ih frames' hlexemes
      | complete c =>
        -- what follows a complete cell is read with no bracket open
        have hrest : readCells meaning' [] (lexemes.map (Lexeme.shift n)) = _ := ih [] hlexemes
        show (readCells meaning' [] (lexemes.map (Lexeme.shift n))).map (f c :: ·) = _
        rw [hrest]
        cases readCells meaning [] lexemes <;> rfl

/-- A text that is one cell is read with one meaning of barewords and then translated, or read with
the other. -/
theorem parseMeaning_translate (h : Translates f meaning meaning') (text : List Char) :
    parseMeaning meaning' text = (parseMeaning meaning text).map f := by
  have hscalar : ∀ l ∈ lexemes text, IsScalarToken l.token := scalar_lexemesFrom 0 text
  have hcell := readCell_translate h 0 (byteLength text) [] hscalar
  rw [funext Lexeme.shift_zero, List.map_id', List.map_nil, Nat.add_zero] at hcell
  rw [parseMeaning, parseMeaning, hcell]
  cases readCell meaning (byteLength text) [] (lexemes text) with
  | error e => rfl
  | ok read =>
    obtain ⟨c, rest⟩ := read
    cases rest <;> rfl

end Source

/-- **Names may be given their cells after reading.** A text that is read with some names standing
for cells fails as it does without them, and otherwise is the cell that is read without them, with
each symbol among the names, at any quotation depth, replaced by its cell. -/
theorem parse_with_names_eq_map (names : List (String × Cell)) (text : String) :
    Source.parseWith names text =
      (Source.parse text).map
        (Cell.mapSymbols fun name => (names.lookup name).getD (.symbol name)) :=
  Source.parseMeaning_translate (Source.translates_mapSymbols _) text.toList

/-- What a name stands for is not looked up again. -/
example :
    let names : List (String × Cell) := [("x", .quotation [.symbol "y"]), ("y", .int 1)]
    Cell.mapSymbols (fun name => (names.lookup name).getD (.symbol name))
      (.quotation [.symbol "x", .symbol "y"]) =
        .quotation [.quotation [.symbol "y"], .int 1] := rfl

end Restack
