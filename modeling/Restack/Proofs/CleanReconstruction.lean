import Restack.Proofs.Inheritance
import Restack.Proofs.Mirror
import Restack.Proofs.Reading

/-!
# Reconstructions without placeholders

In a recording run of a program that was read off a text, every cell of code, data and
definitions stands for written code: it is written itself, a dummy, or a record of such
cells. Records never get into a quotation, since no instruction makes a quotation out of
data. Reconstruction flattens the data, so what comes from there is written. It does not
flatten the code that is still pending, and while a word skips a record, the record and its
dummies are pending code. A run that halts has no code left, so its reconstruction holds no
placeholder; one that is stopped by its budget may leave some.

## Main definitions

* `Cell.Spelled` — the code that a cell stands for is written.

## Main results

* `inherited_spelled`, `sustains_recording` — a recording run keeps its cells spelled.
* `reconstruction_clean_iff` — a reconstruction holds no placeholder exactly when the code
  that is pending at the end of the run is none.
-/

namespace Restack

variable {c : Cell} {code : List Cell} {data : Stack}

/-- The code that a cell stands for is written. -/
def Cell.Spelled (c : Cell) : Prop := ∀ d ∈ c.flatten, d.Written

/-! ### Spelled cells -/

theorem Cell.Written.spelled (h : c.Written) : c.Spelled := by
  have hself := Cell.not_isDeferred_of_isWritten (Cell.test_of_everywhere h)
  rw [Cell.Spelled, Cell.flatten_of_not_isDeferred hself]
  exact List.forall_mem_singleton.mpr h

/-- A spelled cell that is no placeholder is written. -/
theorem Cell.Spelled.written (h : c.Spelled) (hself : c.isDeferred = false) : c.Written := by
  rw [Cell.Spelled, Cell.flatten_of_not_isDeferred hself] at h
  exact List.forall_mem_singleton.mp h

theorem spelled_defer {record : List Cell} {result : Option TypeTag}
    (h : ∀ c ∈ record, c.Spelled) : (Cell.defer record result).Spelled := by
  intro d hd
  rw [Cell.flatten] at hd
  obtain ⟨c, hc, hd⟩ := Cell.mem_flattenList hd
  exact h c hc d hd

theorem spelled_dummy (tag : TypeTag) : (Cell.dummy tag).Spelled := by
  intro d hd
  rw [Cell.flatten] at hd
  cases hd

/-- A spelled cell holds no placeholder exactly when it is none. -/
theorem Cell.Spelled.noPlaceholder_iff (h : c.Spelled) :
    c.NoPlaceholder ↔ c.isDeferred = false := by
  constructor
  · intro hclean
    simpa using Cell.test_of_everywhere hclean
  · intro hself
    exact (h.written hself).noPlaceholder

/-- **That a cell is spelled is inherited.** -/
theorem inherited_spelled : Inherited Cell.Spelled where
  number n := Cell.Written.spelled (by cases n <;> rfl)
  bool _ := Cell.Written.spelled rfl
  symbol _ := Cell.Written.spelled rfl
  instruction _ h := nomatch h.written rfl
  quotation h c hc := Cell.Written.spelled ((Cell.everywhere_quotation.mp (h.written rfl)).2 c hc)
  continuation h := nomatch (Cell.everywhere_continuation.mp (h.written rfl)).1
  empty := Cell.Written.spelled rfl
  again := by
    intro cond body hcond hbody
    refine Cell.Written.spelled (Source.written_quotation (List.forall_mem_append.mpr
      ⟨(Cell.everywhere_quotation.mp (hbody.written rfl)).2, ?_⟩))
    simp only [List.forall_mem_cons, List.not_mem_nil]
    exact ⟨hcond.written rfl, hbody.written rfl, rfl, nofun⟩
  assignment := by
    intro value target hvalue htarget
    refine spelled_defer ?_
    simp only [List.forall_mem_cons, List.not_mem_nil]
    exact ⟨hvalue, htarget, Cell.Written.spelled rfl, nofun⟩

/-! ### Recording instructions -/

/-- The record of spelled operands is spelled, and so are its dummies. -/
theorem spelled_record {operands : List Cell} (h : ∀ c ∈ operands, c.Spelled) (name : String)
    (outputs : List OutputType) : ∀ c ∈ record name operands outputs, c.Spelled := by
  refine List.forall_mem_cons.mpr ⟨spelled_defer (List.forall_mem_append.mpr ⟨?_, ?_⟩), ?_⟩
  · exact fun c hc => h c (List.mem_reverse.mp hc)
  · exact List.forall_mem_singleton.mpr (Cell.Written.spelled rfl)
  · intro c hc
    obtain ⟨type, -, rfl⟩ := List.mem_map.mp hc
    exact spelled_dummy _

theorem spelled_retryBeneath {popped rest : List Cell} {cell : Cell}
    (hdata : ∀ c ∈ popped ++ cell :: rest, c.Spelled) (name : String) (inputs : List TypeTag) :
    Leaves Cell.Spelled (retryBeneath name true inputs popped cell rest) := by
  have hsymbol : (Cell.symbol name).Spelled := Cell.Written.spelled rfl
  obtain ⟨hpopped, hcell, hrest⟩ : (∀ c ∈ popped, c.Spelled) ∧ cell.Spelled ∧
      ∀ c ∈ rest, c.Spelled := by
    simpa only [List.forall_mem_append, List.forall_mem_cons] using hdata
  simp only [retryBeneath]
  split
  · exact .inl (List.forall_mem_cons.mpr ⟨hsymbol, hdata⟩)
  · -- the skipped cells go back into the code, all others stay on the data
    refine .inr ⟨_, _, rfl, List.forall_mem_cons.mpr ⟨hsymbol, List.forall_mem_append.mpr
      ⟨?_, List.forall_mem_singleton.mpr hcell⟩⟩, List.forall_mem_append.mpr ⟨hpopped, ?_⟩⟩
    · intro c hc
      exact hrest c ((skippedDummies_isPrefix true cell rest).mem (List.mem_reverse.mp hc))
    · exact fun c hc => hrest c (List.mem_of_mem_drop hc)

/-- **A recording instruction leaves spelled cells.** -/
theorem keeps_recording (name : String) (inputs : List TypeTag) (outputs : List OutputType)
    (base : Environment) : (Instruction.recording name inputs outputs).Keeps Cell.Spelled base := by
  intro data data' env env' henv hdata happly
  have hfits := examine_fits true inputs data
  simp only [Instruction.recording, Instruction.apply] at happly
  cases he : examine true inputs data with
  | exhausted =>
    rw [he] at happly
    cases happly
    exact ⟨.inl (List.forall_mem_cons.mpr ⟨Cell.Written.spelled rfl, hdata⟩), henv⟩
  | rejected popped cell required rest =>
    obtain ⟨rfl, -⟩ := he ▸ hfits
    rw [he] at happly
    cases happly
    exact ⟨spelled_retryBeneath hdata name inputs, henv⟩
  | accepted popped rest =>
    obtain ⟨rfl, hmeet⟩ := he ▸ hfits
    have hops : (popped.filter fun c => !c.leavesNothing) = operandsOf true popped := rfl
    simp only [he, hops, if_true,
      recordInvocation_operands (length_operands hmeet) name outputs, restoreOver] at happly
    cases happly
    obtain ⟨hpopped, hrest⟩ := List.forall_mem_append.mp hdata
    refine ⟨.inl (List.forall_mem_append.mpr ⟨spelled_record ?_ name outputs,
      List.forall_mem_append.mpr ⟨?_, hrest⟩⟩), henv⟩
    · exact fun c hc => hpopped c (List.mem_filter.mp hc).1
    · exact fun c hc => hpopped c (List.mem_filter.mp hc).1

/-- **A recording run keeps its cells spelled.** -/
theorem sustains_recording : Mode.reorder.environment.Sustains Cell.Spelled := by
  intro c op hc hop
  cases c with
  | symbol name =>
    simp only [Environment.lookup, Mode.environment, Environment.resolve?, List.findSome?_cons,
      List.findSome?_nil] at hop
    cases hrecording : Vocabulary.recording.get? name with
    | some op' =>
      rw [hrecording] at hop
      cases hop
      rcases recording_cases hrecording with ⟨word, inputs, outputs, rfl⟩ | rfl
      · exact keeps_recording word inputs outputs _
      · exact (Instruction.IsStrict.control .assignRecorded).keeps inherited_spelled _
    | none =>
      rw [hrecording] at hop
      cases hstrict : Vocabulary.strict.get? name with
      | some op' =>
        rw [hstrict] at hop
        cases hop
        exact (isStrict_of_get? hstrict).keeps inherited_spelled _
      | none =>
        rw [hstrict] at hop
        cases hop
  | instruction op' => exact absurd hc (inherited_spelled.instruction op')
  | _ => cases hop

/-! ### Reconstruction -/

/-- A reconstruction from spelled cells holds no placeholder exactly when the pending code is
none. -/
theorem gather_noPlaceholder_iff (hcode : ∀ c ∈ code, c.Spelled) (hdata : ∀ c ∈ data, c.Spelled) :
    (∀ c ∈ gather code data, c.NoPlaceholder) ↔ ∀ c ∈ code, c.isDeferred = false := by
  -- the flattened data is written
  have hreplay : ∀ c ∈ replayCode data, c.NoPlaceholder := by
    intro d hd
    obtain ⟨c, hc, hd⟩ := Cell.mem_flattenList hd
    exact (hdata c (List.mem_reverse.mp hc) d hd).noPlaceholder
  rw [gather_eq, List.forall_mem_append]
  constructor
  · rintro ⟨-, hclean⟩ c hc
    exact (hcode c hc).noPlaceholder_iff.mp (hclean c hc)
  · intro hnone
    exact ⟨hreplay, fun c hc => (hcode c hc).noPlaceholder_iff.mpr (hnone c hc)⟩

/-- **Which reconstructions hold no placeholder.** Take a program that was read off a text, and a
recording run of it that ends without a fault, within a budget or without one. What is reconstructed
is a single quotation. It holds no record and no dummy at any depth exactly when no cell of the code
that is pending at the end is one; in particular, whenever the run has halted. -/
theorem reconstruction_clean_iff {text : String} {program : List Cell}
    (hparse : Source.parseProgram text = .ok program) (budget : Option Nat) {finished : Stack}
    {env : Environment}
    (hrun : run budget [.quotation program] Mode.reorder.environment = (.ok finished, env)) :
    ∃ pending data result, finished = .quotation pending :: data ∧
      reorder budget [.quotation program] Mode.reorder.environment =
        (.ok [.quotation result], env) ∧
      ((∀ c ∈ result, c.NoPlaceholder) ↔ ∀ c ∈ pending, c.isDeferred = false) ∧
      (isHalted finished = true → ∀ c ∈ result, c.NoPlaceholder) := by
  have hstate : StateOf Cell.Spelled [.quotation program] :=
    ⟨program, [], rfl, fun c hc => (Source.written_parseProgram hparse c hc).spelled, nofun⟩
  obtain ⟨⟨pending, data, rfl, hpending, hdata⟩, -⟩ :=
    runWithin_keeps inherited_spelled sustains_recording .base hstate hrun
  have hiff := gather_noPlaceholder_iff hpending hdata
  refine ⟨pending, data, gather pending data, rfl, by rw [reorder, hrun]; rfl, hiff, ?_⟩
  intro hhalted
  refine hiff.mpr ?_
  cases pending with
  | nil => nofun
  | cons c code => cases hhalted

open Source in
/-- How `2 "a" "b" swap 1 +` is read. -/
theorem parseProgram_skipped_exchange :
    parseProgram "2 \"a\" \"b\" swap 1 +" =
      .ok [.int 2, .text "a", .text "b", .symbol "swap", .int 1, .symbol "+"] := by
  have htwo : ∀ start, wordToken start ['2'] = .literal (.int 2) := fun _ => rfl
  have hone : ∀ start, wordToken start ['1'] = .literal (.int 1) := fun _ => rfl
  have hswap : ∀ start, wordToken start ['s', 'w', 'a', 'p'] = .bareword "swap" := fun _ => rfl
  have hadd : ∀ start, wordToken start ['+'] = .bareword "+" := fun _ => rfl
  simp [parseProgram, lexemes, lexemesFrom, isBlank, isWordChar, Text.decode, htwo, hone, hswap,
    hadd, readCells, advance, place, Except.map]

/-- The theorem at `2 "a" "b" swap 1 +`: the sum skips the exchanged texts, which are back on the
data when the run halts, and the reconstruction `2 1 + "a" "b" swap` is clean. -/
theorem reconstruction_clean_iff_skipped_exchange :
    let program : List Cell := [.int 2, .text "a", .text "b", .symbol "swap", .int 1, .symbol "+"]
    Source.parseProgram "2 \"a\" \"b\" swap 1 +" = .ok program ∧
      ∃ result env, reorder (some 9) [.quotation program] Mode.reorder.environment =
          (.ok [.quotation result], env) ∧
        ∀ c ∈ result, c.NoPlaceholder := by
  intro program
  have hparse : Source.parseProgram "2 \"a\" \"b\" swap 1 +" = .ok program :=
    parseProgram_skipped_exchange
  have hrun : run (some 9) [.quotation program] Mode.reorder.environment =
      (.ok [.quotation [], .defer [.text "a", .text "b", .symbol "swap"] (some .text),
        .dummy .text, .defer [.int 2, .int 1, .symbol "+"] (some .int)],
        Mode.reorder.environment) := rfl
  obtain ⟨_, _, result, -, hreorder, -, hclean⟩ := reconstruction_clean_iff hparse (some 9) hrun
  exact ⟨hparse, result, _, hreorder, hclean rfl⟩

/-- Six steps into `2 "a" "b" swap 1 +`, the record of the exchange and its dummy are pending code,
for the sum is skipping them. The reconstruction of that state holds both. -/
theorem reconstruction_unclean_skipped_exchange :
    let program : List Cell := [.int 2, .text "a", .text "b", .symbol "swap", .int 1, .symbol "+"]
    let exchange : Cell := .defer [.text "a", .text "b", .symbol "swap"] (some .text)
    Source.parseProgram "2 \"a\" \"b\" swap 1 +" = .ok program ∧
      reorder (some 6) [.quotation program] Mode.reorder.environment =
        (.ok [.quotation [.int 2, .int 1, .symbol "+", .dummy .text, exchange]],
          Mode.reorder.environment) ∧
      ¬ (Cell.dummy .text).NoPlaceholder ∧ ¬ exchange.NoPlaceholder := by
  refine ⟨parseProgram_skipped_exchange, rfl, ?_, ?_⟩
  · intro h
    cases h
  · intro h
    cases h

end Restack
