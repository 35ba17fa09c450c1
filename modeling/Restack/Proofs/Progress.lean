import Mathlib.Data.List.Permutation
import Mathlib.Data.Set.Finite.List
import Mathlib.Order.Interval.Finset.Nat
import Mathlib.Order.Preorder.Finite
import Mathlib.Order.WellFounded
import Restack.Inference
import Restack.Proofs.WordStep

/-!
# Progress of skipping

In the lenient and the recording vocabulary a step pushes a cell, leaves a word on the
data, moves cells from the data back into the code, or applies a word. Only the last of
these changes which cells there are, and it takes a word away for good. So a run that
goes on forever ends up moving the same cells around. Pushing and skipping alone come to
an end; a run without an end therefore leaves words on the data over and over, and meets
one such state twice.

## Main definitions

* `Move` — what a step can do to code and data.
* `wordCount` — the number of words in sight.
* `Ends` — a run that halts or fails.

## Main results

* `step_move` — a step fails or is a `Move`.
* `exists_repetition` — a run without an end repeats a state with a word on its data.
* `run_ends_iff` — a run ends exactly when it repeats no such state.
-/

namespace Restack

open scoped List

variable {code code' : List Cell} {data data' : Stack}

/-- What a step of a run behind operand checks can do to code and data. -/
inductive Move : List Cell → Stack → List Cell → Stack → Prop
  /-- A cell that is no word is pushed. -/
  | push {c : Cell} (hc : c.isWord = false) (code : List Cell) (data : Stack) :
    Move (c :: code) data code (c :: data)
  /-- A word is left on the data. -/
  | leave {c : Cell} (hc : c.isWord = true) (code : List Cell) (data : Stack) :
    Move (c :: code) data code (c :: data)
  /-- A word is to be run again beneath some cells. -/
  | skip {c : Cell} (hc : c.isWord = true) (code popped : List Cell) (cell : Cell)
    (group below : List Cell) :
    Move (c :: code) (popped ++ cell :: (group ++ below))
      (c :: (group.reverse ++ cell :: code)) (popped ++ below)
  /-- A word is applied, and leaves no word among its results. -/
  | apply {c : Cell} (hc : c.isWord = true) (code : List Cell) {results beneath data : Stack}
    (hresults : ∀ d ∈ results, d.IsTame ∧ d.isWord = false) (hbeneath : beneath.Sublist data) :
    Move (c :: code) data code (results ++ beneath)

/-! ### Every step is a move -/

/-- A step of a lenient word fails or is a move. -/
theorem step_lenient_move {name : String} {op : Primitive} (hw : IsWord name op)
    (hdata : ∀ d ∈ data, d.IsTame) (code : List Cell) :
    (∃ e, step (.quotation (.symbol name :: code) :: data) Mode.nonStrict.environment =
        (.error e, Mode.nonStrict.environment)) ∨
      ∃ code' data', step (.quotation (.symbol name :: code) :: data)
          Mode.nonStrict.environment =
          (.ok (.quotation code' :: data'), Mode.nonStrict.environment) ∧
        Move (.symbol name :: code) data code' data' := by
  rw [step_lenient_word hw (noContinuation_of_tame hdata)]
  have hfits := examine_fits false op.inputs data
  cases he : examine false op.inputs data with
  | exhausted => exact .inr ⟨_, _, rfl, .leave hw.isWord code data⟩
  | rejected popped cell required rest =>
    obtain ⟨rfl, -⟩ := he ▸ hfits
    exact .inr ⟨_, _, rfl, .skip hw.isWord code popped cell [] rest⟩
  | accepted popped rest =>
    obtain ⟨rfl, hmeet⟩ := he ▸ hfits
    have hlen : popped.length = (op.action name).inputs.length := by
      rw [hw.length_inputs_action, ← length_operands hmeet, operandsOf_false]
    rw [lenientNext, Action.apply_append _ hlen]
    cases hr : (op.action name).apply name popped with
    | error e => exact .inl ⟨e, rfl⟩
    | ok results =>
      refine .inr ⟨code, results ++ rest, rfl,
        .apply hw.isWord code ?_ (List.sublist_append_right popped rest)⟩
      intro d hd
      rcases hw.mem_results hr hd with hd | ⟨n, rfl⟩ | ⟨b, rfl⟩
      -- an operand that comes back, and operands are no words
      · refine ⟨hdata d (List.mem_append_left rest hd), ?_⟩
        exact isWord_of_mem_operands hmeet (by rwa [operandsOf_false])
      · exact ⟨.plain (.inert (.literal (by cases n <;> rfl))), by cases n <;> rfl⟩
      · exact ⟨.plain (.inert (.literal rfl)), rfl⟩

/-- The cells of a record are tame, and no words. -/
theorem mem_record {name : String} {operands : List Cell} {outputs : List OutputType} {d : Cell}
    (h : d ∈ record name operands outputs) : d.IsTame ∧ d.isWord = false := by
  rcases List.mem_cons.mp h with rfl | h
  · exact ⟨.defer _ _, rfl⟩
  · obtain ⟨type, -, rfl⟩ := List.mem_map.mp h
    exact ⟨.dummy _, rfl⟩

/-- A step of a recording word is a move. -/
theorem step_recording_move {name : String} {op : Primitive} (hw : IsWord name op)
    (code : List Cell) (data : Stack) :
    ∃ code' data', step (.quotation (.symbol name :: code) :: data) Mode.reorder.environment =
        (.ok (.quotation code' :: data'), Mode.reorder.environment) ∧
      Move (.symbol name :: code) data code' data' := by
  rw [step_recording_word hw]
  have hfits := examine_fits true op.inputs data
  cases he : examine true op.inputs data with
  | exhausted => exact ⟨_, _, rfl, .leave hw.isWord code data⟩
  | rejected popped cell required rest =>
    obtain ⟨rfl, -⟩ := he ▸ hfits
    rw [recordingNext]
    split
    · exact ⟨_, _, rfl, .leave hw.isWord code _⟩
    · refine ⟨_, _, rfl, ?_⟩
      have hmove := Move.skip hw.isWord code popped cell (skippedDummies true cell rest)
        (rest.drop (skippedDummies true cell rest).length)
      rwa [skippedDummies_append_drop] at hmove
  | accepted popped rest =>
    obtain ⟨rfl, -⟩ := he ▸ hfits
    refine ⟨_, _, rfl, .apply hw.isWord code (fun d hd => mem_record hd) ?_⟩
    exact List.filter_sublist.append_right rest

/-- The modes whose words stand behind an operand check. -/
def Mode.Checks (mode : Mode) : Prop := mode = .nonStrict ∨ mode = .reorder

/-- **A step fails or is a move.** -/
theorem step_move {mode : Mode} (hmode : mode.Checks) {c : Cell} (hc : c.IsTame)
    (hdata : ∀ d ∈ data, d.IsTame) (code : List Cell) :
    (∃ e, step (.quotation (c :: code) :: data) mode.environment =
        (.error e, mode.environment)) ∨
      ∃ code' data', step (.quotation (c :: code) :: data) mode.environment =
          (.ok (.quotation code' :: data'), mode.environment) ∧
        Move (c :: code) data code' data' := by
  rcases hc.word_or_lookup with ⟨name, op, hw, rfl⟩ | hnone
  · rcases hmode with rfl | rfl
    · exact step_lenient_move hw hdata code
    · exact .inr (step_recording_move hw code data)
  · refine .inr ⟨code, c :: data, step_push (hnone mode) code data, .push ?_ code data⟩
    -- a word would be known to the strict vocabulary
    by_contra hword
    obtain ⟨name, op, hw, rfl⟩ := Cell.isWord_eq_true_iff.mp (by simpa using hword)
    have hstrict : Mode.strict.environment.lookup (.symbol name) = some (.strict name op) :=
      hw.resolve_strict
    rw [hnone .strict] at hstrict
    cases hstrict

/-! ### What a move keeps -/

/-- The number of words in code and data. -/
def wordCount (code : List Cell) (data : Stack) : Nat :=
  (code ++ data).countP Cell.isWord

/-- How far a run is from its next word applied or left, as long as it only pushes and skips: a
word in front can skip no more cells than there are on the data, and before it comes to the front
there is code to push. -/
def settling (code : List Cell) (data : Stack) : Nat :=
  if code.head?.any Cell.isWord then data.length else code.length + data.length + code.length

/-- A word that is applied is gone for good. -/
theorem wordCount_lt_of_apply {c : Cell} (hc : c.isWord = true) (code : List Cell)
    {results beneath : Stack} (hresults : ∀ d ∈ results, d.IsTame ∧ d.isWord = false)
    (hbeneath : beneath.Sublist data) :
    wordCount code (results ++ beneath) < wordCount (c :: code) data := by
  have hnone : results.countP Cell.isWord = 0 := by
    rw [List.countP_eq_zero]
    intro d hd
    simp [(hresults d hd).2]
  have hle : beneath.countP Cell.isWord ≤ data.countP Cell.isWord := hbeneath.countP_le
  simp only [wordCount, List.cons_append, List.countP_append, List.countP_cons, hc, if_true,
    hnone]
  omega

/-- Skipping only moves cells around. -/
theorem perm_skip (c : Cell) (code popped : List Cell) (cell : Cell) (group below : List Cell) :
    c :: (group.reverse ++ cell :: code) ++ (popped ++ below) ~
      c :: code ++ (popped ++ cell :: (group ++ below)) := by
  rw [List.cons_append, List.cons_append, List.perm_cons]
  have hgroup : group.reverse ++ cell :: code ~ code ++ cell :: group :=
    calc group.reverse ++ cell :: code
      _ ~ group ++ cell :: code := (List.reverse_perm group).append_right _
      _ ~ cell :: code ++ group := List.perm_append_comm
      _ ~ code ++ cell :: group := List.perm_middle.symm
  have hpopped : cell :: group ++ popped ~ popped ++ cell :: group := List.perm_append_comm
  calc group.reverse ++ cell :: code ++ (popped ++ below)
    _ ~ code ++ cell :: group ++ (popped ++ below) := hgroup.append_right _
    _ = code ++ (cell :: group ++ popped ++ below) := by simp
    _ ~ code ++ (popped ++ cell :: group ++ below) := (hpopped.append_right below).append_left code
    _ = code ++ (popped ++ cell :: (group ++ below)) := by simp

namespace Move

theorem tame (h : Move code data code' data') (hcode : ∀ d ∈ code, d.IsTame)
    (hdata : ∀ d ∈ data, d.IsTame) : (∀ d ∈ code', d.IsTame) ∧ ∀ d ∈ data', d.IsTame := by
  cases h with
  | push hc code data => grind
  | leave hc code data => grind
  | skip hc code popped cell group below => grind
  | apply hc code hresults hbeneath =>
    refine ⟨fun d hd => hcode d (List.mem_cons_of_mem _ hd), fun d hd => ?_⟩
    rcases List.mem_append.mp hd with hd | hd
    · exact (hresults d hd).1
    · exact hdata d (hbeneath.mem hd)

/-- A move takes one cell of the code at most. -/
theorem length_le (h : Move code data code' data') : code.length ≤ code'.length + 1 := by
  cases h with
  | push hc code data => exact le_rfl
  | leave hc code data => exact le_rfl
  | skip hc code popped cell group below =>
    simp only [List.length_cons, List.length_append]
    omega
  | apply hc code hresults hbeneath => exact le_rfl

/-- **A move takes a word away or only moves cells around.** -/
theorem wordCount_lt_or_perm (h : Move code data code' data') :
    wordCount code' data' < wordCount code data ∨ code' ++ data' ~ code ++ data := by
  cases h with
  | push hc code data => exact .inr List.perm_middle
  | leave hc code data => exact .inr List.perm_middle
  | @skip c hc code popped cell group below => exact .inr (perm_skip c code popped cell group below)
  | apply hc _ hresults hbeneath => exact .inl (wordCount_lt_of_apply hc _ hresults hbeneath)

/-- **Pushing and skipping alone come to an end**: a move takes a word away, leaves one on the
data, or brings the run nearer to doing so. -/
theorem settling_lt (h : Move code data code' data') :
    wordCount code' data' < wordCount code data ∨ (∃ c ∈ data', c.isWord = true) ∨
      settling code' data' < settling code data := by
  cases h with
  | @push c hc code data =>
    refine .inr (.inr ?_)
    simp only [settling, List.head?_cons, Option.any_some, hc, Bool.false_eq_true, if_false,
      List.length_cons]
    split <;> omega
  | @leave c hc code data => exact .inr (.inl ⟨c, List.mem_cons_self, hc⟩)
  | @skip c hc code popped cell group below =>
    refine .inr (.inr ?_)
    simp only [settling, List.head?_cons, Option.any_some, hc, if_true, List.length_append,
      List.length_cons]
    omega
  | apply hc _ hresults hbeneath => exact .inl (wordCount_lt_of_apply hc _ hresults hbeneath)

end Move

/-! ### Moves without an end -/

section Endless

variable {codes : ℕ → List Cell} {datas : ℕ → Stack}

/-- The words are taken away one by one until no more are. -/
theorem exists_wordCount_stable
    (h : ∀ n, Move (codes n) (datas n) (codes (n + 1)) (datas (n + 1))) :
    ∃ N, ∀ n, N ≤ n → wordCount (codes n) (datas n) = wordCount (codes N) (datas N) := by
  have hstep : ∀ n, wordCount (codes (n + 1)) (datas (n + 1)) ≤ wordCount (codes n) (datas n) := by
    intro n
    rcases (h n).wordCount_lt_or_perm with hlt | hperm
    · exact hlt.le
    · exact (hperm.countP_eq Cell.isWord).le
  have hanti : Antitone fun n => wordCount (codes n) (datas n) := antitone_nat_of_succ_le hstep
  let count : ℕ → ℕ := fun n => wordCount (codes n) (datas n)
  refine ⟨Function.argmin count, fun n hn => le_antisymm (hanti hn) ?_⟩
  exact Function.argmin_le count n

/-- From then on the cells are only moved around. -/
theorem perm_of_wordCount_stable
    (h : ∀ n, Move (codes n) (datas n) (codes (n + 1)) (datas (n + 1))) {N : ℕ}
    (hN : ∀ n, N ≤ n → wordCount (codes n) (datas n) = wordCount (codes N) (datas N)) {n : ℕ}
    (hn : N ≤ n) : codes n ++ datas n ~ codes N ++ datas N := by
  induction n, hn using Nat.le_induction with
  | base => exact .refl _
  | succ n hn ih =>
    rcases (h n).wordCount_lt_or_perm with hlt | hperm
    · rw [hN n hn, hN (n + 1) (by omega)] at hlt
      exact absurd hlt (lt_irrefl _)
    · exact hperm.trans ih

/-- And again and again a word is left on the data. -/
theorem exists_word_on_data
    (h : ∀ n, Move (codes n) (datas n) (codes (n + 1)) (datas (n + 1))) {N : ℕ}
    (hN : ∀ n, N ≤ n → wordCount (codes n) (datas n) = wordCount (codes N) (datas N)) {n : ℕ}
    (hn : N ≤ n) : ∃ m, n < m ∧ ∃ c ∈ datas m, c.isWord = true := by
  -- by induction on how far the run is from it, since words are no longer taken away
  induction hm : settling (codes n) (datas n) using Nat.strong_induction_on generalizing n with
  | _ k ih =>
    rcases (h n).settling_lt with hlt | hword | hlt
    · rw [hN n hn, hN (n + 1) (by omega)] at hlt
      exact absurd hlt (lt_irrefl _)
    · exact ⟨n + 1, Nat.lt_succ_self n, hword⟩
    · obtain ⟨m, hnm, hword⟩ := ih _ (hm ▸ hlt) (by omega : N ≤ n + 1) rfl
      exact ⟨m, by omega, hword⟩

/-- **Moves without an end repeat a state with a word on its data.** -/
theorem exists_repetition
    (h : ∀ n, Move (codes n) (datas n) (codes (n + 1)) (datas (n + 1))) :
    ∃ i j, i < j ∧ codes i = codes j ∧ datas i = datas j ∧ ∃ c ∈ datas i, c.isWord = true := by
  obtain ⟨N, hN⟩ := exists_wordCount_stable h
  -- a state is known by its cells in a row and by where its code ends, and both vary finitely
  let row : ℕ → List Cell × ℕ := fun n => (codes n ++ datas n, (codes n).length)
  let rows : Set (List Cell × ℕ) :=
    {l | l ~ codes N ++ datas N} ×ˢ Set.Iic (codes N ++ datas N).length
  have hfinite : rows.Finite := by
    refine Set.Finite.prod ?_ (Set.finite_Iic _)
    refine (List.finite_toSet (codes N ++ datas N).permutations).subset fun l hl => ?_
    exact List.mem_permutations.mpr hl
  let unapplied : Set ℕ := {n | N ≤ n ∧ ∃ c ∈ datas n, c.isWord = true}
  have hinfinite : unapplied.Infinite := by
    refine Set.infinite_of_forall_exists_gt fun n => ?_
    obtain ⟨m, hm, hword⟩ := exists_word_on_data h hN (le_max_left N n)
    have hle := max_lt_iff.mp hm
    exact ⟨m, ⟨hle.1.le, hword⟩, hle.2⟩
  have hmaps : Set.MapsTo row unapplied rows := by
    intro n hn
    have hperm := perm_of_wordCount_stable h hN hn.1
    refine ⟨hperm, ?_⟩
    rw [Set.mem_Iic, ← hperm.length_eq, List.length_append]
    exact Nat.le_add_right _ _
  -- infinitely many states fall on finitely many rows
  obtain ⟨i, hi, j, -, hij, hrow⟩ := hinfinite.exists_lt_map_eq_of_mapsTo hmaps hfinite
  obtain ⟨hcells, hlen⟩ := Prod.mk.inj hrow
  obtain ⟨hcodes, hdatas⟩ := List.append_inj hcells hlen
  exact ⟨i, j, hij, hcodes, hdatas, hi.2⟩

end Endless

/-! ### Runs -/

/-- The state after some steps of a run of a program from empty data. -/
def After (mode : Mode) (program : List Cell) (n : ℕ) (state : Stack) : Prop :=
  (runWithin n [.quotation program] mode.environment).1 = .ok state

/-- A run of a program from empty data halts, or a step of it fails. -/
def Ends (mode : Mode) (program : List Cell) : Prop :=
  ∃ n, (∃ e, (runWithin n [.quotation program] mode.environment).1 = .error e) ∨
    ∃ state, After mode program n state ∧ isHalted state = true

variable {mode : Mode} {program : List Cell}

/-- A run behind operand checks fails, or stays among tame cells, and never touches its
environment. -/
theorem runWithin_tame (hmode : mode.Checks) (n : ℕ) (hcode : ∀ d ∈ code, d.IsTame)
    (hdata : ∀ d ∈ data, d.IsTame) :
    (∃ e, runWithin n (.quotation code :: data) mode.environment =
        (.error e, mode.environment)) ∨
      ∃ code' data', runWithin n (.quotation code :: data) mode.environment =
          (.ok (.quotation code' :: data'), mode.environment) ∧
        (∀ d ∈ code', d.IsTame) ∧ ∀ d ∈ data', d.IsTame := by
  induction n generalizing code data with
  | zero => exact .inr ⟨code, data, rfl, hcode, hdata⟩
  | succ n ih =>
    cases code with
    | nil => exact .inr ⟨[], data, runWithin_halted _ _ rfl, hcode, hdata⟩
    | cons c code =>
      rcases step_move hmode (hcode c List.mem_cons_self) hdata code with
        ⟨e, hstep⟩ | ⟨code', data', hstep, hmove⟩
      · exact .inl ⟨e, runWithin_succ_error n rfl hstep⟩
      · rw [runWithin_succ_ok n rfl hstep]
        obtain ⟨hcode', hdata'⟩ := hmove.tame hcode hdata
        exact ih hcode' hdata'

/-- A run that halts takes a step for each cell of its code, or more. -/
theorem length_le_of_halts (hmode : mode.Checks) {n : ℕ} {last : Stack}
    (hcode : ∀ d ∈ code, d.IsTame) (hdata : ∀ d ∈ data, d.IsTame)
    (hrun : runWithin n (.quotation code :: data) mode.environment = (.ok last, mode.environment))
    (hlast : isHalted last = true) : code.length ≤ n := by
  induction n generalizing code data with
  | zero =>
    cases hrun
    cases code with
    | nil => exact le_rfl
    | cons c code => cases hlast
  | succ n ih =>
    cases code with
    | nil => exact Nat.zero_le _
    | cons c code =>
      rcases step_move hmode (hcode c List.mem_cons_self) hdata code with
        ⟨e, hstep⟩ | ⟨code', data', hstep, hmove⟩
      · rw [runWithin_succ_error n rfl hstep] at hrun
        cases hrun
      · rw [runWithin_succ_ok n rfl hstep] at hrun
        obtain ⟨hcode', hdata'⟩ := hmove.tame hcode hdata
        exact hmove.length_le.trans (Nat.succ_le_succ (ih hcode' hdata' hrun))

/-- The outcome of a run, with its environment. -/
theorem runWithin_eq_of_fst (hmode : mode.Checks) (hprogram : ∀ d ∈ program, d.IsPlain) {n : ℕ}
    {r : Except EngineError Stack}
    (h : (runWithin n [.quotation program] mode.environment).1 = r) :
    runWithin n [.quotation program] mode.environment = (r, mode.environment) := by
  have htame : ∀ d ∈ program, d.IsTame := fun d hd => .plain (hprogram d hd)
  have hnil : ∀ d ∈ ([] : Stack), d.IsTame := fun d hd => nomatch hd
  rcases runWithin_tame hmode n htame hnil with ⟨e, hrun⟩ | ⟨code, data, hrun, -⟩
  · rw [← h, hrun]
  · rw [← h, hrun]

/-- A run that goes on has code to run after any number of steps. -/
theorem runWithin_of_not_ends (hmode : mode.Checks) (hprogram : ∀ d ∈ program, d.IsPlain)
    (h : ¬ Ends mode program) (n : ℕ) :
    ∃ code data, runWithin n [.quotation program] mode.environment =
        (.ok (.quotation code :: data), mode.environment) ∧
      code ≠ [] ∧ (∀ d ∈ code, d.IsTame) ∧ ∀ d ∈ data, d.IsTame := by
  have htame : ∀ d ∈ program, d.IsTame := fun d hd => .plain (hprogram d hd)
  have hnil : ∀ d ∈ ([] : Stack), d.IsTame := fun d hd => nomatch hd
  rcases runWithin_tame hmode n htame hnil with ⟨e, hrun⟩ | ⟨code, data, hrun, hcode, hdata⟩
  · exact absurd ⟨n, .inl ⟨e, by rw [hrun]⟩⟩ h
  · refine ⟨code, data, hrun, ?_, hcode, hdata⟩
    rintro rfl
    exact h ⟨n, .inr ⟨.quotation [] :: data, by rw [After, hrun], rfl⟩⟩

/-- A run that goes on is one of moves without an end. -/
theorem exists_moves (hmode : mode.Checks) (hprogram : ∀ d ∈ program, d.IsPlain)
    (h : ¬ Ends mode program) :
    ∃ (codes : ℕ → List Cell) (datas : ℕ → Stack),
      (∀ n, After mode program n (.quotation (codes n) :: datas n)) ∧
        ∀ n, Move (codes n) (datas n) (codes (n + 1)) (datas (n + 1)) := by
  choose codes datas hrun hne hcodes hdatas using runWithin_of_not_ends hmode hprogram h
  refine ⟨codes, datas, fun n => by rw [After, hrun], fun n => ?_⟩
  -- the state after `n + 1` steps is one step from the state after `n`, and that step did not fail
  have hnext := runWithin_add n 1 (hrun n)
  obtain ⟨c, code, hcode⟩ := List.exists_cons_of_ne_nil (hne n)
  rw [hrun (n + 1), hcode] at hnext
  have htame : c.IsTame := hcodes n c (by rw [hcode]; exact List.mem_cons_self)
  rcases step_move hmode htame (hdatas n) code with ⟨e, hstep⟩ | ⟨code', data', hstep, hmove⟩
  · rw [runWithin_succ_error 0 rfl hstep] at hnext
    cases hnext
  · rw [runWithin_succ_ok 0 rfl hstep, runWithin] at hnext
    obtain ⟨⟨hcode', hdata'⟩, -⟩ : (codes (n + 1) = code' ∧ datas (n + 1) = data') ∧ True := by
      simpa using hnext
    rwa [hcode, hcode', hdata']

/-- A run that comes back to a state comes back to it forever. -/
theorem runWithin_repeated {state s : Stack} {env env' : Environment} {i j : ℕ} (hij : i < j)
    (hi : runWithin i state env = (.ok s, env')) (hj : runWithin j state env = (.ok s, env'))
    (k : ℕ) : runWithin (i + k * (j - i)) state env = (.ok s, env') := by
  have hround : runWithin (j - i) s env' = (.ok s, env') := by
    rw [← runWithin_add i (j - i) hi, Nat.add_sub_cancel' hij.le, hj]
  induction k with
  | zero => rw [Nat.zero_mul, Nat.add_zero, hi]
  | succ k ih =>
    rw [Nat.succ_mul, ← Nat.add_assoc, runWithin_add _ (j - i) ih, hround]

/-- A run that ends only comes back to the state it halts in. -/
theorem isHalted_of_repeated (hmode : mode.Checks) (hprogram : ∀ d ∈ program, d.IsPlain)
    (h : Ends mode program) {i j : ℕ} {s : Stack} (hij : i < j) (hi : After mode program i s)
    (hj : After mode program j s) : isHalted s = true := by
  have hi := runWithin_eq_of_fst hmode hprogram hi
  have hj := runWithin_eq_of_fst hmode hprogram hj
  obtain ⟨n, hend⟩ := h
  have hlate : n ≤ i + n * (j - i) :=
    (Nat.le_mul_of_pos_right n (Nat.sub_pos_of_lt hij)).trans (Nat.le_add_left _ i)
  have hagain := runWithin_repeated hij hi hj n
  -- late enough to have halted or failed, the run is back at `s`
  obtain ⟨m, hm⟩ := Nat.exists_eq_add_of_le hlate
  rw [hm] at hagain
  rcases hend with ⟨e, herr⟩ | ⟨t, hafter, hhalt⟩
  · rw [runWithin_add_error n m (runWithin_eq_of_fst hmode hprogram herr)] at hagain
    cases hagain
  · rw [runWithin_add n m (runWithin_eq_of_fst hmode hprogram hafter),
      runWithin_halted m _ hhalt] at hagain
    cases hagain
    exact hhalt

/-- **When skipping makes progress.** The run of a program of literals, free symbols and words in
the lenient or the recording vocabulary ends if and only if it never comes back to a state that has
an unapplied word on its data. -/
theorem run_ends_iff (hmode : mode.Checks) (hprogram : ∀ d ∈ program, d.IsPlain) :
    Ends mode program ↔
      ∀ i j s, i < j → After mode program i s → After mode program j s →
        (∃ c ∈ dataOf s, c.isWord = true) → isHalted s = true := by
  constructor
  · intro h i j s hij hi hj _
    exact isHalted_of_repeated hmode hprogram h hij hi hj
  · intro h
    by_contra hends
    obtain ⟨codes, datas, hafter, hmoves⟩ := exists_moves hmode hprogram hends
    obtain ⟨i, j, hij, hcodes, hdatas, hword⟩ := exists_repetition hmoves
    refine hends ⟨i, .inr ⟨_, hafter i, ?_⟩⟩
    refine h i j _ hij (hafter i) ?_ hword
    rw [hcodes, hdatas]
    exact hafter j

/-- A sum without operands is left on the data, and the run ends all the same. -/
theorem run_ends_iff_unapplied_sum :
    After .reorder [.symbol "+", .int 1] 2 [.quotation [], .int 1, .symbol "+"] ∧
      ∀ i j s, i < j → After .reorder [.symbol "+", .int 1] i s →
        After .reorder [.symbol "+", .int 1] j s → (∃ c ∈ dataOf s, c.isWord = true) →
          isHalted s = true := by
  have hplain : ∀ d ∈ [Cell.symbol "+", .int 1], d.IsPlain := by
    intro d hd
    simp only [List.mem_cons, List.not_mem_nil, or_false] at hd
    rcases hd with rfl | rfl
    · exact .word .add
    · exact .inert (.literal rfl)
  have hafter : After .reorder [.symbol "+", .int 1] 2 [.quotation [], .int 1, .symbol "+"] := rfl
  exact ⟨hafter, (run_ends_iff (.inr rfl) hplain).mp ⟨2, .inr ⟨_, hafter, rfl⟩⟩⟩

/-- Two words without operands skip each other forever: neither vocabulary ends the run. -/
theorem sum_and_product_never_end :
    (∀ d ∈ [Cell.symbol "+", .symbol "*"], d.IsPlain) ∧
      ¬ Ends .nonStrict [.symbol "+", .symbol "*"] ∧
      ¬ Ends .reorder [.symbol "+", .symbol "*"] := by
  have hplain : ∀ d ∈ [Cell.symbol "+", .symbol "*"], d.IsPlain := by
    intro d hd
    simp only [List.mem_cons, List.not_mem_nil, or_false] at hd
    rcases hd with rfl | rfl
    · exact .word .add
    · exact .word .mul
  -- the fourth step leads back to the initial state
  have hloop : ∀ mode : Mode, mode.Checks →
      After mode [.symbol "+", .symbol "*"] 4 [.quotation [.symbol "+", .symbol "*"]] →
      ¬ Ends mode [.symbol "+", .symbol "*"] := by
    intro mode hmode hback hends
    have hhalt := isHalted_of_repeated hmode hplain hends (by decide : 0 < 4) rfl hback
    cases hhalt
  exact ⟨hplain, hloop .nonStrict (.inl rfl) rfl, hloop .reorder (.inr rfl) rfl⟩

end Restack
