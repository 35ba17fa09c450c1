import Mathlib.Data.List.TakeWhile
import Restack.Proofs.Replay
import Restack.Proofs.Verbatim

/-!
# Reconstructions are canonical

If every word of a program leaves a result, the data of its recording run is built from
groups: a literal, a free symbol, or a record over its dummies. A word takes the topmost
groups, and its record is over those dummies of the deepest of them that are left; or it
skips a group as a whole, which is put back later. So the code that a group stands for
rebuilds the group on any data. A word that was left unapplied is the exception: what it
does depends on the data beneath. But no word gets past it without its being run again,
so that data is still the same at the end. The reconstruction of a halted run therefore
leads back to the data it was made from, in one step for each of its cells.

## Main definitions

* `Rebuilds` — cells that the code they stand for rebuilds on given data.
* `IsGroup` — a cell over its dummies, rebuilt on any data.
* `Layered`, `Pending` — data and code that consist of groups.

## Main results

* `Layered.split`, `Layered.take` — what a word skips and takes are groups.
* `step_layered` — a word leaves layered data.
* `runWithin_layered` — a run that halts does so in layered data.
* `reconstruction_canonical` — the reconstruction of a reconstruction is the same one.
-/

namespace Restack

variable {code popped rest upper lower dummies : List Cell} {data beneath : Stack} {c top : Cell}
  {name : String} {op : Primitive}

/-! ### Cells that are rebuilt -/

/-- The recording run of the code that the cells stand for, with any code behind it, leaves the
cells on the data beneath, in a step for each cell of that code. -/
def Rebuilds (cells : List Cell) (beneath : Stack) : Prop :=
  ∀ code, runWithin (replayCode cells).length
      (.quotation (replayCode cells ++ code) :: beneath) Mode.reorder.environment =
    (.ok (.quotation code :: (cells ++ beneath)), Mode.reorder.environment)

theorem rebuilds_nil (beneath : Stack) : Rebuilds [] beneath := by
  intro code
  rw [replayCode_nil]
  rfl

/-- The lower cells are rebuilt first, and the upper ones on them. -/
theorem Rebuilds.append (hl : Rebuilds lower beneath) (hu : Rebuilds upper (lower ++ beneath)) :
    Rebuilds (upper ++ lower) beneath := by
  intro code
  have hlower := hl (replayCode upper ++ code)
  rw [replayCode_append, List.length_append, List.append_assoc, runWithin_add _ _ hlower, hu code,
    List.append_assoc]

/-- One more step, on a cell that becomes the last one in the code of the cells. -/
theorem Rebuilds.concat {cells cells' : List Cell} (h : Rebuilds cells beneath)
    (hstep : ∀ code, step (.quotation (c :: code) :: (cells ++ beneath)) Mode.reorder.environment =
      (.ok (.quotation code :: (cells' ++ beneath)), Mode.reorder.environment))
    (hreplay : replayCode cells' = replayCode cells ++ [c]) : Rebuilds cells' beneath := by
  intro code
  have hcells := h (c :: code)
  rw [hreplay, List.length_append, List.append_assoc, List.singleton_append,
    runWithin_add _ _ hcells]
  exact runWithin_succ_ok 0 rfl (hstep code)

/-! ### Groups -/

/-- The cell has the type that some value has. No value has the type that only states the
requirement for a number. -/
def Cell.HasValueType (c : Cell) : Prop := ∃ tag, c.deferredType = some tag ∧ tag ≠ .num

/-- A literal or a free symbol, or a record over its dummies that is rebuilt on any data. -/
inductive IsGroup : Cell → List Cell → Prop
  /-- A literal or a free symbol has no dummies. -/
  | inert {c : Cell} (h : c.IsInert) : IsGroup c []
  /-- A record with a value, and the dummies for its other values. -/
  | record {record : List Cell} {result : Option TypeTag} {dummies : List Cell}
    (hdummies : ∀ d ∈ dummies, d.isDummy = true)
    (htyped : ∀ d ∈ .defer record result :: dummies, d.HasValueType)
    (hrebuilds : ∀ beneath, Rebuilds (.defer record result :: dummies) beneath) :
    IsGroup (.defer record result) dummies

theorem not_leavesNothing_of_deferredType (h : c.deferredType.isSome = true) :
    c.leavesNothing = false := by
  cases c with
  | defer record result =>
    cases result with
    | none => cases h
    | some tag => rfl
  | _ => rfl

theorem Cell.IsInert.not_leavesNothing (h : c.IsInert) : c.leavesNothing = false := by
  have hnot := h.not_isDeferred
  cases c with
  | defer record result => cases hnot
  | _ => rfl

namespace IsGroup

theorem not_isDummy (h : IsGroup top dummies) : top.isDummy = false := by
  cases h with
  | inert h =>
    have hnot := h.not_isDeferred
    cases top with
    | dummy tag => cases hnot
    | _ => rfl
  | record _ _ _ => rfl

theorem isDummy (h : IsGroup top dummies) : ∀ d ∈ dummies, d.isDummy = true := by
  cases h with
  | inert h => exact List.forall_mem_nil _
  | record hdummies _ _ => exact hdummies

theorem leaves (h : IsGroup top dummies) : ∀ c ∈ top :: dummies, c.leavesNothing = false := by
  cases h with
  | inert h => exact List.forall_mem_singleton.mpr h.not_leavesNothing
  | record _ htyped _ =>
    intro c hc
    obtain ⟨tag, htag, -⟩ := htyped c hc
    exact not_leavesNothing_of_deferredType (by rw [htag]; rfl)

theorem rebuilds (h : IsGroup top dummies) (beneath : Stack) :
    Rebuilds (top :: dummies) beneath := by
  cases h with
  | inert h =>
    refine (rebuilds_nil beneath).concat (fun code => step_push (h.lookup .reorder) code beneath) ?_
    rw [replayCode_cons, h.flatten]
  | record _ _ hrebuilds => exact hrebuilds beneath

/-- No cell of a group is looked up. -/
theorem lookup (h : IsGroup top dummies) :
    ∀ c ∈ top :: dummies, Mode.reorder.environment.lookup c = none := by
  refine List.forall_mem_cons.mpr ⟨?_, fun c hc => ?_⟩
  · cases h with
    | inert h => exact h.lookup .reorder
    | record _ _ _ => rfl
  · have hdummy := h.isDummy c hc
    cases c with
    | dummy tag => rfl
    | _ => cases hdummy

/-- A cell of a group that has a type has the type of a value. -/
theorem typed (h : IsGroup top dummies) :
    ∀ c ∈ top :: dummies, c.deferredType.isSome = true → c.HasValueType := by
  cases h with
  | inert h =>
    refine List.forall_mem_singleton.mpr fun hsome => ?_
    cases h with
    | free h => cases hsome
    | literal h =>
      cases top with
      | int | float | double | bool | text | quotation | type | var =>
        exact ⟨_, rfl, by decide⟩
      | _ => cases h
  | record _ htyped _ => exact fun c hc _ => htyped c hc

end IsGroup

/-! ### Layered data -/

/-- Data of groups, and of words that were left where they would be left again. -/
inductive Layered : Stack → Prop
  /-- No data. -/
  | nil : Layered []
  /-- A group. -/
  | group {top : Cell} {dummies : List Cell} {data : Stack} (h : IsGroup top dummies)
    (hdata : Layered data) : Layered (top :: (dummies ++ data))
  /-- A word that was left unapplied. -/
  | left {name : String} {op : Primitive} {data : Stack} (hw : IsWord name op)
    (hdrop : name ≠ "drop")
    (hleft : ∀ code, step (.quotation (.symbol name :: code) :: data) Mode.reorder.environment =
      (.ok (.quotation code :: .symbol name :: data), Mode.reorder.environment))
    (hdata : Layered data) : Layered (.symbol name :: data)

namespace Layered

theorem leaves (h : Layered data) : ∀ c ∈ data, c.leavesNothing = false := by
  induction h with
  | nil => exact List.forall_mem_nil _
  | group hg _ ih =>
    obtain ⟨htop, hdummies⟩ := List.forall_mem_cons.mp hg.leaves
    exact List.forall_mem_cons.mpr ⟨htop, List.forall_mem_append.mpr ⟨hdummies, ih⟩⟩
  | left _ _ _ _ ih => exact List.forall_mem_cons.mpr ⟨rfl, ih⟩

theorem typed (h : Layered data) : ∀ c ∈ data, c.deferredType.isSome = true → c.HasValueType := by
  induction h with
  | nil => exact List.forall_mem_nil _
  | group hg _ ih =>
    obtain ⟨htop, hdummies⟩ := List.forall_mem_cons.mp hg.typed
    exact List.forall_mem_cons.mpr ⟨htop, List.forall_mem_append.mpr ⟨hdummies, ih⟩⟩
  | left _ _ _ _ ih => exact List.forall_mem_cons.mpr ⟨nofun, ih⟩

/-- **The code that layered data stands for rebuilds it from nothing.** -/
theorem rebuilds (h : Layered data) : Rebuilds data [] := by
  induction h with
  | nil => exact rebuilds_nil []
  | group hg _ ih => exact ih.append (hg.rebuilds _)
  | @left name _ data _ _ hleft _ ih =>
    refine ih.concat (c := .symbol name) (fun code => ?_) ?_
    · rw [List.append_nil, List.append_nil]
      exact hleft code
    · rw [replayCode_cons, Cell.flatten_of_not_isDeferred rfl]

/-- There is no dummy on top of layered data. -/
theorem head_not_isDummy (h : Layered (c :: data)) : c.isDummy = false := by
  cases h with
  | group hg _ => exact hg.not_isDummy
  | left _ _ _ _ => rfl

/-- **What lies on a rejected cell, and the rejected cell, are groups.** If there is no word among
the cells on top, these can be put on any other layered data. -/
theorem split (h : Layered (popped ++ c :: rest)) (hpopped : ∀ d ∈ popped, d.isWord = false)
    (hc : c.isDummy = false) :
    Layered (c :: rest) ∧ ∀ below, Layered below → Layered (popped ++ below) := by
  generalize hsplit : popped ++ c :: rest = data at h
  induction h generalizing popped with
  | nil => simp at hsplit
  | @group top dummies data hg hdata ih =>
    cases popped with
    | nil =>
      rw [List.nil_append] at hsplit
      exact ⟨hsplit ▸ .group hg hdata, fun below hbelow => hbelow⟩
    | cons d popped =>
      obtain ⟨rfl, hbelow⟩ := List.cons_eq_cons.mp hsplit
      -- the dummies of the group lie above `c`, which is none
      obtain ⟨others, rfl, rfl⟩ : ∃ others, popped = dummies ++ others ∧
          data = others ++ c :: rest := by
        rcases List.append_eq_append_iff.mp hbelow with ⟨others, hd, hrest⟩ | ⟨others, hp, hrest⟩
        · cases others with
          | nil => exact ⟨[], by simpa using hd.symm, by simpa using hrest.symm⟩
          | cons d others =>
            have hdummy := hg.isDummy d (by
              rw [hd]; exact List.mem_append_right _ List.mem_cons_self)
            cases hrest
            rw [hc] at hdummy
            cases hdummy
        · exact ⟨others, hp, hrest⟩
      obtain ⟨hbase, hput⟩ := ih (fun e he => hpopped e (by simp [he])) rfl
      refine ⟨hbase, fun below hbelow => ?_⟩
      rw [List.cons_append, List.append_assoc]
      exact .group hg (hput below hbelow)
  | @left name op data hw hdrop hleft hdata ih =>
    cases popped with
    | nil =>
      rw [List.nil_append] at hsplit
      exact ⟨hsplit ▸ .left hw hdrop hleft hdata, fun below hbelow => hbelow⟩
    | cons d popped =>
      obtain ⟨rfl, -⟩ := List.cons_eq_cons.mp hsplit
      have hword := hpopped _ List.mem_cons_self
      rw [hw.isWord] at hword
      cases hword

/-- **What a word takes are groups**, but for some dummies of the deepest of them. -/
theorem take (h : Layered (popped ++ rest)) (hpopped : ∀ d ∈ popped, d.isWord = false) :
    ∃ dummies data, rest = dummies ++ data ∧ (∀ d ∈ dummies, d.isDummy = true) ∧
      (∀ beneath, Rebuilds (popped ++ dummies) beneath) ∧ Layered data := by
  generalize hsplit : popped ++ rest = data at h
  induction h generalizing popped with
  | nil =>
    obtain ⟨rfl, rfl⟩ := List.append_eq_nil_iff.mp hsplit
    exact ⟨[], [], rfl, List.forall_mem_nil _, rebuilds_nil, .nil⟩
  | @group top dummies data hg hdata ih =>
    cases popped with
    | nil =>
      rw [List.nil_append] at hsplit
      exact ⟨[], rest, rfl, List.forall_mem_nil _, rebuilds_nil, hsplit ▸ .group hg hdata⟩
    | cons d popped =>
      obtain ⟨rfl, hbelow⟩ := List.cons_eq_cons.mp hsplit
      rcases List.append_eq_append_iff.mp hbelow with ⟨others, rfl, rfl⟩ | ⟨others, rfl, hrest⟩
      · -- the last group is taken in part
        refine ⟨others, data, rfl, fun e he => ?_, hg.rebuilds, hdata⟩
        exact hg.isDummy e (List.mem_append_right _ he)
      · obtain ⟨spare, data', rfl, hspare, hrebuilds, hdata'⟩ :=
          ih (fun e he => hpopped e (by simp [he])) hrest.symm
        refine ⟨spare, data', rfl, hspare, fun beneath => ?_, hdata'⟩
        rw [List.cons_append, List.append_assoc]
        exact (hrebuilds beneath).append (hg.rebuilds _)
  | @left name op data hw hdrop hleft hdata ih =>
    cases popped with
    | nil =>
      rw [List.nil_append] at hsplit
      exact ⟨[], rest, rfl, List.forall_mem_nil _, rebuilds_nil,
        hsplit ▸ .left hw hdrop hleft hdata⟩
    | cons d popped =>
      obtain ⟨rfl, -⟩ := List.cons_eq_cons.mp hsplit
      have hword := hpopped _ List.mem_cons_self
      rw [hw.isWord] at hword
      cases hword

end Layered

/-- **What is skipped along with a cell are the dummies of its group.** -/
theorem IsGroup.skippedDummies_eq (h : IsGroup top dummies) (hdata : Layered data) :
    skippedDummies true top (dummies ++ data) = dummies := by
  cases h with
  | inert h =>
    have hnot := h.not_isDeferred
    cases top with
    | defer record result => cases hnot
    | _ => rfl
  | record hdummies htyped hrebuilds =>
    have hleaves := (IsGroup.record hdummies htyped hrebuilds).leaves
    -- the data beneath the dummies begins with a cell that is none of theirs
    have htake : (data.takeWhile fun c => c.isDummy || c.leavesNothing) = [] := by
      cases data with
      | nil => rfl
      | cons c data =>
        rw [List.takeWhile_cons_of_neg]
        simp [hdata.head_not_isDummy, hdata.leaves c List.mem_cons_self]
    have hdrop : dummies.reverse.dropWhile Cell.leavesNothing = dummies.reverse := by
      refine List.dropWhile_eq_self_iff.mpr fun hpos => ?_
      have hmem := List.mem_reverse.mp (List.getElem_mem hpos)
      rw [hleaves _ (List.mem_cons_of_mem _ hmem)]
      exact Bool.false_ne_true
    rw [skippedDummies, if_pos rfl, dummyGroup,
      List.takeWhile_append_of_pos (fun d hd => by simp [hdummies d hd]), htake, List.append_nil,
      hdrop, List.reverse_reverse]

/-! ### A word on layered data -/

/-- A cell that counts as a number has a numeric type, if it has the type of a value. -/
theorem Cell.HasValueType.isNumeric (h : c.HasValueType) (hmeets : c.meets true .num = true) :
    ∃ tag, c.deferredType = some tag ∧ (tag = .int ∨ tag = .float ∨ tag = .double) := by
  obtain ⟨tag, htag, hnum⟩ := h
  have hadmits : TypeTag.num.admits tag = true := by
    simpa only [Cell.meets, Cell.judgedType, if_true, htag, Option.any_some] using hmeets
  refine ⟨tag, htag, ?_⟩
  simpa [TypeTag.admits, TypeTag.isNumeric, Ne.symm hnum, or_assoc,
    show TypeTag.num ≠ TypeTag.any by decide] using hadmits

/-- Every output of a word has the type of a value, if its operands do. -/
theorem IsWord.resolve_hasValueType (hw : IsWord name op) {operands : List Cell}
    (hmeet : List.Forall₂ (fun required c => c.meets true required = true) op.inputs operands)
    (htyped : ∀ c ∈ operands, c.HasValueType) :
    ∀ out ∈ op.outputs, ∃ tag, out.resolve operands = some tag ∧ tag ≠ .num := by
  have hlen : operands.length = op.inputs.length := hmeet.length_eq.symm
  -- an output with the type of an operand, at any depth that the word has one
  have hsame : ∀ k < operands.length,
      ∃ tag, (OutputType.sameAs k).resolve operands = some tag ∧ tag ≠ .num := by
    intro k hk
    obtain ⟨tag, htag, hnum⟩ := htyped _ (List.getElem_mem hk)
    exact ⟨tag, by rw [OutputType.resolve, List.getElem?_eq_getElem hk, Option.bind_some, htag],
      hnum⟩
  cases hw with
  | add | sub | mul | div | minus =>
    obtain ⟨y, x, rfl⟩ := List.length_eq_two.mp hlen
    obtain ⟨hy, hx⟩ : y.meets true .num = true ∧ x.meets true .num = true := by
      cases hmeet with
      | cons hy h => cases h with
        | cons hx _ => exact ⟨hy, hx⟩
    obtain ⟨s, hs, hnumS⟩ := (htyped y (by simp)).isNumeric hy
    obtain ⟨t, ht, hnumT⟩ := (htyped x (by simp)).isNumeric hx
    refine List.forall_mem_singleton.mpr ?_
    simp only [OutputType.resolve, List.foldl, hs, ht, Option.bind_some]
    rcases hnumS with rfl | rfl | rfl <;> rcases hnumT with rfl | rfl | rfl <;>
      exact ⟨_, rfl, by decide⟩
  | less | greater | equal | not =>
    exact List.forall_mem_singleton.mpr ⟨.bool, rfl, by decide⟩
  | drop => exact List.forall_mem_nil _
  | dup | swap =>
    intro out hout
    simp only [Primitive.outputs, List.mem_cons, List.not_mem_nil, or_false] at hout
    rcases hout with rfl | rfl <;> exact hsame _ (by rw [hlen]; decide)
  | pick | rot =>
    intro out hout
    simp only [Primitive.outputs, List.mem_cons, List.not_mem_nil, or_false] at hout
    rcases hout with rfl | rfl | rfl <;> exact hsame _ (by rw [hlen]; decide)

/-- The record of a word that leaves a result, over its dummies, is typed as values are. -/
theorem IsWord.record_hasValueType (hw : IsWord name op) (hdrop : name ≠ "drop")
    {operands : List Cell}
    (hmeet : List.Forall₂ (fun required c => c.meets true required = true) op.inputs operands)
    (htyped : ∀ c ∈ operands, c.HasValueType) :
    ∃ cells result dummies, record name operands op.outputs = .defer cells result :: dummies ∧
      (∀ d ∈ dummies, d.isDummy = true) ∧ ∀ d ∈ .defer cells result :: dummies, d.HasValueType := by
  have hresolve := hw.resolve_hasValueType hmeet htyped
  obtain ⟨out, outs, houts⟩ := List.exists_cons_of_ne_nil (hw.outputs_ne_nil hdrop)
  rw [houts] at hresolve ⊢
  obtain ⟨⟨tag, htag, hnum⟩, hresolve⟩ := List.forall_mem_cons.mp hresolve
  refine ⟨_, _, _, rfl, fun d hd => ?_, List.forall_mem_cons.mpr ⟨⟨tag, ?_, hnum⟩, fun d hd => ?_⟩⟩
  · obtain ⟨type, -, rfl⟩ := List.mem_map.mp hd
    rfl
  · rw [List.map_cons, List.head?_cons, Option.bind_some, htag]
    rfl
  · rw [List.map_cons, List.tail_cons, List.map_map] at hd
    obtain ⟨out, hout, rfl⟩ := List.mem_map.mp hd
    obtain ⟨tag, htag, hnum⟩ := hresolve out hout
    exact ⟨tag, by simp [htag, Cell.deferredType], hnum⟩

/-- Code that consists of words and of groups, the dummies of a group before its record. -/
inductive Pending : List Cell → Prop
  /-- No code. -/
  | nil : Pending []
  /-- A word that leaves a result. -/
  | word {name : String} {op : Primitive} {code : List Cell} (hw : IsWord name op)
    (hdrop : name ≠ "drop") (h : Pending code) : Pending (.symbol name :: code)
  /-- A group that is to be pushed. -/
  | group {top : Cell} {dummies code : List Cell} (hg : IsGroup top dummies) (h : Pending code) :
    Pending (dummies.reverse ++ top :: code)

theorem pending_program {program : List Cell} (hplain : ∀ c ∈ program, c.IsPlain)
    (hdrop : .symbol "drop" ∉ program) : Pending program := by
  induction program with
  | nil => exact .nil
  | cons c program ih =>
    obtain ⟨hc, hplain⟩ := List.forall_mem_cons.mp hplain
    have hrest : Pending program := ih hplain fun h => hdrop (List.mem_cons_of_mem c h)
    cases hc with
    | inert hi => exact .group (.inert hi) hrest
    | word hw => exact .word hw (by rintro rfl; exact hdrop List.mem_cons_self) hrest

section Word

variable (hw : IsWord name op) (hdrop : name ≠ "drop")
include hw hdrop

/-- A word that is left does the same in front of any code, so it would be left again. -/
theorem Layered.leave (h : Layered data)
    (hleft : ∀ code, recordingNext name op code data (examine true op.inputs data) =
      .quotation code :: .symbol name :: data) : Layered (.symbol name :: data) :=
  .left hw hdrop (fun code => by rw [step_recording_word hw, hleft]) h

/-- **A word that is recorded leaves a group**, with the dummies that it did not take. -/
theorem Layered.record (h : Layered (popped ++ rest))
    (he : examine true op.inputs (popped ++ rest) = .accepted popped rest) :
    Layered (Restack.record name popped op.outputs ++ rest) := by
  have hfits := examine_fits true op.inputs (popped ++ rest)
  rw [he] at hfits
  obtain ⟨-, hmeet⟩ := hfits
  have hleaves : ∀ c ∈ popped, c.leavesNothing = false :=
    fun c hc => h.leaves c (List.mem_append_left rest hc)
  have hall := operandsOf_of_leaves hleaves
  have hword : ∀ c ∈ popped, c.isWord = false :=
    fun c hc => isWord_of_mem_operands hmeet (by rwa [hall])
  rw [Meet, hall] at hmeet
  have htyped : ∀ c ∈ popped, c.HasValueType := by
    intro c hc
    obtain ⟨required, -, hmeets⟩ := exists_of_forall₂ hmeet hc
    exact h.typed c (List.mem_append_left rest hc) (deferredType_of_meets hmeets)
  obtain ⟨spare, data, rfl, hspare, hrebuilds, hdata⟩ := h.take hword
  obtain ⟨cells, result, dummies, hrecord, hdummies, hrecorded⟩ :=
    hw.record_hasValueType hdrop hmeet htyped
  have hsteps : ∀ beneath, Rebuilds (Restack.record name popped op.outputs ++ spare) beneath := by
    intro beneath
    refine (hrebuilds beneath).concat (c := .symbol name) (fun code => ?_) ?_
    · have haccepts : examine true op.inputs (popped ++ (spare ++ beneath)) =
          .accepted popped (spare ++ beneath) :=
        examine_accepted_of hmeet fun c hc => by rw [Cell.steppedOver, hleaves c hc]; rfl
      rw [List.append_assoc, step_recording_word hw, haccepts, recordingNext, hall,
        filter_of_leaves hleaves, List.nil_append, List.append_assoc]
    · rw [replayCode_append, replayCode_append, replayCode_record, List.append_assoc]
  rw [hrecord] at hsteps ⊢
  rw [List.cons_append, ← List.append_assoc]
  refine .group (.record (List.forall_mem_append.mpr ⟨hdummies, hspare⟩) ?_ hsteps) hdata
  have hspareTyped : ∀ d ∈ spare, d.HasValueType := by
    intro d hd
    refine h.typed d (by simp [hd]) ?_
    have hdummy := hspare d hd
    cases d with
    | dummy tag => rfl
    | _ => cases hdummy
  rw [← List.cons_append]
  exact List.forall_mem_append.mpr ⟨hrecorded, hspareTyped⟩

/-- **A word skips a group as a whole.** -/
theorem Layered.skip {required : TypeTag} (h : Layered (popped ++ c :: rest)) (hcode : Pending code)
    (he : examine true op.inputs (popped ++ c :: rest) = .rejected popped c required rest)
    (hparts : partsDummy true op.inputs c (skippedDummies true c rest) = false) :
    Pending (.symbol name :: ((skippedDummies true c rest).reverse ++ c :: code)) ∧
      Layered (popped ++ rest.drop (skippedDummies true c rest).length) := by
  have hfits := examine_fits true op.inputs (popped ++ c :: rest)
  rw [he] at hfits
  obtain ⟨-, -, -, met, missing, -, hmeet⟩ := hfits
  have hall := operandsOf_of_leaves fun d hd => h.leaves d (List.mem_append_left (c :: rest) hd)
  have hword : ∀ d ∈ popped, d.isWord = false :=
    fun d hd => isWord_of_mem_operands hmeet (by rwa [hall])
  have hc : c.isDummy = false := by
    rw [partsDummy, Bool.true_and, Bool.or_eq_false_iff] at hparts
    exact hparts.1
  obtain ⟨hbase, hput⟩ := h.split hword hc
  cases hbase with
  | group hg hdata =>
    rw [hg.skippedDummies_eq hdata, List.drop_left]
    exact ⟨.word hw hdrop (.group hg hcode), hput _ hdata⟩
  | left hw' hdrop' hleft hdata =>
    exact ⟨.word hw hdrop (.word hw' hdrop' hcode), hput _ hdata⟩

/-- **A step of a word keeps data layered and code pending.** -/
theorem step_layered (h : Layered data) (hcode : Pending code) :
    ∃ code' data', step (.quotation (.symbol name :: code) :: data) Mode.reorder.environment =
        (.ok (.quotation code' :: data'), Mode.reorder.environment) ∧
      Pending code' ∧ Layered data' := by
  have hfits := examine_fits true op.inputs data
  have hstep := step_recording_word hw code data
  cases he : examine true op.inputs data with
  | exhausted =>
    rw [he] at hstep
    exact ⟨code, _, hstep, hcode, h.leave hw hdrop fun code => by rw [he, recordingNext]⟩
  | rejected popped cell required rest =>
    obtain ⟨rfl, -⟩ := he ▸ hfits
    cases hparts : partsDummy true op.inputs cell (skippedDummies true cell rest) with
    | true =>
      rw [he, recordingNext, if_pos hparts] at hstep
      exact ⟨code, _, hstep, hcode,
        h.leave hw hdrop fun code => by rw [he, recordingNext, if_pos hparts]⟩
    | false =>
      rw [he, recordingNext, if_neg (by simp [hparts])] at hstep
      obtain ⟨hcode', hdata'⟩ := h.skip hw hdrop hcode he hparts
      exact ⟨_, _, hstep, hcode', hdata'⟩
  | accepted popped rest =>
    obtain ⟨rfl, -⟩ := he ▸ hfits
    have hleaves : ∀ c ∈ popped, c.leavesNothing = false :=
      fun c hc => h.leaves c (List.mem_append_left rest hc)
    rw [he, recordingNext, operandsOf_of_leaves hleaves, filter_of_leaves hleaves,
      List.nil_append] at hstep
    exact ⟨code, _, hstep, hcode, h.record hw hdrop he⟩

end Word

/-! ### Runs -/

/-- **A recording run that halts does so in layered data.** -/
theorem runWithin_layered {n : ℕ} {last : Stack} (hcode : Pending code) (hdata : Layered data)
    (hrun : runWithin n (.quotation code :: data) Mode.reorder.environment =
      (.ok last, Mode.reorder.environment)) (hlast : isHalted last = true) :
    ∃ data', last = .quotation [] :: data' ∧ Layered data' := by
  -- by the steps left; a group in the code is pushed as a whole, for there is nothing to be said of
  -- data that ends in dummies
  induction n using Nat.strong_induction_on generalizing code data with
  | _ n ih =>
    cases hcode with
    | nil =>
      rw [runWithin_halted n _ rfl] at hrun
      cases hrun
      exact ⟨data, rfl, hdata⟩
    | word hw hdrop hcode =>
      obtain ⟨code', data', hstep, hcode', hdata'⟩ := step_layered hw hdrop hdata hcode
      obtain ⟨m, rfl, hrest⟩ := runWithin_tail rfl hstep hrun hlast
      exact ih m (Nat.lt_succ_self m) hcode' hdata' hrest
    | @group top dummies code hg hcode =>
      have hlookup : ∀ c ∈ dummies.reverse ++ [top], Mode.reorder.environment.lookup c = none :=
        fun c hc => hg.lookup c (by simpa [or_comm] using hc)
      have hpush := runWithin_push hlookup code data
      rw [List.append_assoc, List.singleton_append] at hpush
      have hrest := runWithin_rest hrun hlast hpush
      have hdata' := Layered.group hg hdata
      rw [List.reverse_append, List.reverse_reverse, List.reverse_singleton, List.append_assoc,
        List.singleton_append] at hrest
      have hpos : 0 < n := by
        cases n with
        | zero =>
          cases hrun
          cases hcells : dummies.reverse ++ top :: code with
          | nil => simp at hcells
          | cons c cells => rw [hcells] at hlast; cases hlast
        | succ n => exact Nat.succ_pos n
      refine ih _ ?_ hcode hdata' hrest
      rw [List.length_append, List.length_singleton]
      omega

/-- **Reordering comes to a canonical form.** Take a program of literals, free symbols and words
that leave a result, and let its recording run halt. The recording run of what is reconstructed from
it halts in the same state, after one step for each of its cells, so the same program is
reconstructed from it again; and a budget that suffices for the program suffices for its
reconstruction. -/
theorem reconstruction_canonical {program : List Cell} (hplain : ∀ c ∈ program, c.IsPlain)
    (hdrop : .symbol "drop" ∉ program) {n : ℕ} {finished : Stack}
    (hrun : After .reorder program n finished) (hfinished : isHalted finished = true) :
    ∃ rebuilt, reconstruct finished = [.quotation rebuilt] ∧
      After .reorder rebuilt rebuilt.length finished ∧
      ∀ budget, n ≤ stepLimit budget →
        reorder budget [.quotation program] Mode.reorder.environment =
            (.ok [.quotation rebuilt], Mode.reorder.environment) ∧
          reorder budget [.quotation rebuilt] Mode.reorder.environment =
            (.ok [.quotation rebuilt], Mode.reorder.environment) := by
  have hruns := runWithin_eq_of_fst (.inr rfl) hplain hrun
  obtain ⟨data, rfl, hdata⟩ :=
    runWithin_layered (pending_program hplain hdrop) .nil hruns hfinished
  have hagain := hdata.rebuilds []
  rw [List.append_nil, List.append_nil] at hagain
  have htame : ∀ c ∈ program, c.IsTame := fun c hc => .plain (hplain c hc)
  have hlength : (replayCode data).length ≤ n := by
    rw [length_replayCode hplain hruns]
    exact length_le_of_halts (.inr rfl) htame (List.forall_mem_nil _) hruns rfl
  refine ⟨replayCode data, reconstruct_halted data, by rw [After, hagain], fun budget hbudget => ?_⟩
  rw [reorder, reorder, run, run, runWithin_of_le hruns rfl hbudget,
    runWithin_of_le hagain rfl (hlength.trans hbudget)]
  simp only [reconstruct_halted, and_self]

/-- The theorem at `not 2 "a" "b" swap 1 +`. The word `not` is left on the empty data, and the sum
skips the exchanged texts; in the reconstruction `not 2 1 + "a" "b" swap` it has nothing to skip. -/
theorem reconstruction_canonical_skipped_exchange :
    let program : List Cell := [.symbol "not", .int 2, .text "a", .text "b", .symbol "swap", .int 1,
      .symbol "+"]
    let rebuilt : List Cell := [.symbol "not", .int 2, .int 1, .symbol "+", .text "a", .text "b",
      .symbol "swap"]
    reorder none [.quotation program] Mode.reorder.environment =
        (.ok [.quotation rebuilt], Mode.reorder.environment) ∧
      reorder none [.quotation rebuilt] Mode.reorder.environment =
        (.ok [.quotation rebuilt], Mode.reorder.environment) := by
  intro program rebuilt
  have hplain : ∀ c ∈ program, c.IsPlain := by
    simp only [program, List.forall_mem_cons]
    exact ⟨.word .not, .inert (.literal rfl), .inert (.literal rfl), .inert (.literal rfl),
      .word .swap, .inert (.literal rfl), .word .add, nofun⟩
  have hdrop : .symbol "drop" ∉ program := by
    simp [program]
  have hfinal : ∃ finished, After .reorder program 10 finished ∧ isHalted finished = true ∧
      reconstruct finished = [.quotation rebuilt] := ⟨_, rfl, rfl, rfl⟩
  obtain ⟨finished, hafter, hhalted, hrebuilt⟩ := hfinal
  obtain ⟨rebuilt', hreconstruct, -, hreorder⟩ :=
    reconstruction_canonical hplain hdrop hafter hhalted
  obtain rfl : rebuilt' = rebuilt := by
    rw [hreconstruct] at hrebuilt
    injection hrebuilt with hcell
    injection hcell
  exact hreorder none (by decide)

end Restack
