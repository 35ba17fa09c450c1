import Restack.Proofs.Depth
import Restack.Proofs.Lexing
import Restack.Source.Reader

/-!
# What texts can write

Every cell that is read off a program text is a literal or a symbol, at every depth: the
lexemes stand for scalars, the open brackets hold such cells, and a bracket that is
closed becomes a quotation of them.

## Main results

* `scalar_lexemesFrom` — the lexemes of a text stand for scalars.
* `readCells_induction` — induction over a reading that succeeds.
* `written_advance` — a lexeme keeps what the open brackets hold written.
* `written_parseProgram` — a program that is read is written.
-/

namespace Restack.Source

variable {meaning : String → Cell} {frames : List Frame}

/-! ### Lexemes -/

/-- A token that stands for a scalar, if it stands for a cell of its own. -/
def IsScalarToken : Token → Prop
  | .literal c => c.IsScalar
  | _ => True

theorem scalar_readNumber {word : List Char} {c : Cell} (h : readNumber word = .ok c) :
    c.IsScalar := by
  simp only [readNumber] at h
  split at h
  · split at h
    · cases h
      exact ⟨rfl, rfl⟩
    · cases h
  · split at h
    · split at h
      · cases h
        exact ⟨rfl, rfl⟩
      · cases h
    · split at h
      · cases h
        exact ⟨rfl, rfl⟩
      · cases h

theorem scalar_wordToken (start : Nat) (word : List Char) :
    IsScalarToken (wordToken start word) := by
  rw [wordToken]
  split
  · split
    · exact ⟨rfl, rfl⟩
    · exact trivial
  · split
    · exact ⟨rfl, rfl⟩
    · split
      · exact ⟨rfl, rfl⟩
      · split
        · split
          · exact scalar_readNumber ‹_›
          · exact trivial
        · exact trivial

theorem scalar_tokenAt (start : Nat) (c : Char) (word : List Char) :
    IsScalarToken (tokenAt start c word) := by
  rw [tokenAt]
  split
  · rw [variableToken]
    split
    · exact ⟨rfl, rfl⟩
    · exact trivial
  · exact scalar_wordToken start (c :: word)

/-- **The lexemes of a text stand for scalars.** -/
theorem scalar_lexemesFrom (start : Nat) (cs : List Char) :
    ∀ l ∈ lexemesFrom start cs, IsScalarToken l.token := by
  induction start, cs using lexemesFrom_induction with
  | nil start => simp [lexemesFrom]
  | blank start c cs hc ih =>
    rw [lexemesFrom_blank hc]
    exact ih
  | opening start cs ih =>
    rw [lexemesFrom_opening]
    exact List.forall_mem_cons.mpr ⟨trivial, ih⟩
  | closing start cs ih =>
    rw [lexemesFrom_closing]
    exact List.forall_mem_cons.mpr ⟨trivial, ih⟩
  | quoted start cs s rest h ih =>
    rw [lexemesFrom_quoted h]
    exact List.forall_mem_cons.mpr ⟨⟨rfl, rfl⟩, ih⟩
  | misquoted start cs fault h =>
    rw [lexemesFrom_misquoted h]
    exact List.forall_mem_singleton.mpr trivial
  | token start c cs hc h ih =>
    rw [lexemesFrom_token hc h]
    exact List.forall_mem_cons.mpr ⟨scalar_tokenAt start c _, ih⟩
  | fault start c cs e hc h =>
    rw [lexemesFrom_fault hc h]
    exact List.forall_mem_singleton.mpr trivial

/-! ### Open brackets -/

/-- All that the open brackets hold is written. -/
def AreWritten (frames : List Frame) : Prop := ∀ frame ∈ frames, ∀ c ∈ frame.cells, c.Written

theorem areWritten_nil : AreWritten [] := nofun

/-- What a lexeme leads to is written. -/
def IsWrittenProgress : Progress → Prop
  | .complete c => c.Written
  | .pending frames => AreWritten frames

theorem written_place {c : Cell} (hc : c.Written) (hframes : AreWritten frames) :
    IsWrittenProgress (place c frames) := by
  cases frames with
  | nil => exact hc
  | cons frame outer =>
    obtain ⟨hframe, houter⟩ := List.forall_mem_cons.mp hframes
    exact List.forall_mem_cons.mpr ⟨List.forall_mem_cons.mpr ⟨hc, hframe⟩, houter⟩

theorem written_quotation {code : List Cell} (h : ∀ c ∈ code, c.Written) :
    (Cell.quotation code).Written :=
  Cell.everywhere_quotation.mpr ⟨rfl, h⟩

/-- **A lexeme keeps what the open brackets hold written.** -/
theorem written_advance (hmeaning : ∀ name, (meaning name).Written) (hframes : AreWritten frames)
    {l : Lexeme} (hl : IsScalarToken l.token) {progress : Progress}
    (h : advance meaning frames l = .ok progress) : IsWrittenProgress progress := by
  obtain ⟨start, stop, token⟩ := l
  cases token with
  | opening =>
    cases h
    exact List.forall_mem_cons.mpr ⟨nofun, hframes⟩
  | closing =>
    cases frames with
    | nil => cases h
    | cons frame outer =>
      cases h
      obtain ⟨hframe, houter⟩ := List.forall_mem_cons.mp hframes
      have hcells : ∀ c ∈ frame.cells.reverse, c.Written :=
        fun c hc => hframe c (List.mem_reverse.mp hc)
      exact written_place (written_quotation hcells) houter
  | literal c =>
    cases h
    exact written_place hl.written hframes
  | bareword name =>
    cases h
    exact written_place (hmeaning name) hframes
  | faulty e => cases h

/-! ### Whole programs -/

theorem readCells_error {l : Lexeme} {e : ParseError} (h : advance meaning frames l = .error e)
    (lexemes : List Lexeme) : readCells meaning frames (l :: lexemes) = .error e := by
  rw [readCells, h]

theorem readCells_pending {l : Lexeme} {frames' : List Frame}
    (h : advance meaning frames l = .ok (.pending frames')) (lexemes : List Lexeme) :
    readCells meaning frames (l :: lexemes) = readCells meaning frames' lexemes := by
  rw [readCells, h]

theorem readCells_complete {l : Lexeme} {c : Cell}
    (h : advance meaning frames l = .ok (.complete c)) (lexemes : List Lexeme) :
    readCells meaning frames (l :: lexemes) = (readCells meaning [] lexemes).map (c :: ·) := by
  rw [readCells, h]

/-- Induction over a reading that succeeds. -/
theorem readCells_induction
    {motive : ∀ frames lexemes cells, readCells meaning frames lexemes = .ok cells → Prop}
    (done : motive [] [] [] rfl)
    (pending : ∀ frames frames' l lexemes cells
      (hadvance : advance meaning frames l = .ok (.pending frames'))
      (h : readCells meaning frames' lexemes = .ok cells), motive frames' lexemes cells h →
      motive frames (l :: lexemes) cells ((readCells_pending hadvance lexemes).trans h))
    (complete : ∀ frames c l lexemes cells
      (hadvance : advance meaning frames l = .ok (.complete c))
      (h : readCells meaning [] lexemes = .ok cells), motive [] lexemes cells h →
      motive frames (l :: lexemes) (c :: cells)
        ((readCells_complete hadvance lexemes).trans (congrArg (Except.map (c :: ·)) h)))
    {lexemes : List Lexeme} {cells : List Cell}
    (h : readCells meaning frames lexemes = .ok cells) : motive frames lexemes cells h := by
  induction lexemes generalizing frames cells with
  | nil =>
    cases frames with
    | nil =>
      cases h
      exact done
    | cons frame outer => cases h
  | cons l lexemes ih =>
    cases hadvance : advance meaning frames l with
    | error e =>
      rw [readCells_error hadvance] at h
      cases h
    | ok progress =>
      cases progress with
      | pending frames' =>
        have hrest := h
        rw [readCells_pending hadvance] at hrest
        exact pending frames frames' l lexemes cells hadvance hrest (ih hrest)
      | complete c =>
        have hmap := h
        rw [readCells_complete hadvance] at hmap
        cases hrest : readCells meaning [] lexemes with
        | error e =>
          rw [hrest] at hmap
          cases hmap
        | ok later =>
          rw [hrest] at hmap
          cases hmap
          exact complete frames c l lexemes later hadvance hrest (ih hrest)

/-- Cells that are read off lexemes of scalars are written. -/
theorem written_readCells (hmeaning : ∀ name, (meaning name).Written) {lexemes : List Lexeme}
    {cells : List Cell} (h : readCells meaning frames lexemes = .ok cells)
    (hlexemes : ∀ l ∈ lexemes, IsScalarToken l.token) (hframes : AreWritten frames) :
    ∀ c ∈ cells, c.Written := by
  induction h using readCells_induction with
  | done => nofun
  | pending frames frames' l lexemes cells hadvance _ ih =>
    obtain ⟨hl, hlexemes⟩ := List.forall_mem_cons.mp hlexemes
    exact ih hlexemes (written_advance hmeaning hframes hl hadvance)
  | complete frames c l lexemes cells hadvance _ ih =>
    obtain ⟨hl, hlexemes⟩ := List.forall_mem_cons.mp hlexemes
    exact List.forall_mem_cons.mpr
      ⟨written_advance hmeaning hframes hl hadvance, ih hlexemes areWritten_nil⟩

/-- **A program that is read is written.** -/
theorem written_parseProgram {text : String} {program : List Cell}
    (h : parseProgram text = .ok program) : ∀ c ∈ program, c.Written := by
  have hsymbol : ∀ name, (Cell.symbol name).Written := fun _ => rfl
  exact written_readCells hsymbol h (scalar_lexemesFrom 0 text.toList) areWritten_nil

end Restack.Source
