import Mathlib.Data.List.Induction
import Restack.Proofs.Typing
import Restack.Proofs.WordStep
import Restack.Reconstruction

/-!
# Records and the values they stand for

Recorded data mirrors plain values if its replay leaves these values, and if each cell
that counts as a value stands for one of them: it is the same cell, or it has the type of
the value. Mirrors can be put on top of each other. They can be taken apart where the
upper part stands alone, that is, where its replay needs nothing from beneath and leaves
a value for each of its cells that count as one.

A word that is recorded steps over records that leave nothing, and moves them beneath
its operands. The replay stays the same where every operand that they are moved past is a
dummy, which replays nothing, or where the records that pass it stand alone.

## Main definitions

* `replayCode` — the code that data stands for.
* `Stands`, `Mirrors` — when recorded data stands for values.
* `standsAlone`, `crossable` — when cells can be moved.

## Main results

* `Mirrors.append`, `Mirrors.split` — mirrors put together and taken apart.
* `strictRun_stepOver` — the replay with the valueless records moved beneath the
  operands.
* `stands_results` — the record of a word stands for its results.
* `Mirrors.record` — what a recorded word leaves mirrors what the strict word leaves.
-/

namespace Restack

variable {cells upper lower popped rest : List Cell} {values us ws : Stack}

/-! ### The code that data stands for -/

theorem Cell.flattenList_append (xs ys : List Cell) :
    Cell.flattenList (xs ++ ys) = Cell.flattenList xs ++ Cell.flattenList ys := by
  induction xs with
  | nil => rw [List.nil_append, Cell.flattenList, List.nil_append]
  | cons x xs ih => rw [List.cons_append, Cell.flattenList, Cell.flattenList, ih, List.append_assoc]

theorem Cell.flattenList_singleton (c : Cell) : Cell.flattenList [c] = c.flatten := by
  rw [Cell.flattenList, Cell.flattenList, List.append_nil]

theorem Cell.mem_flattenList {d : Cell} (h : d ∈ Cell.flattenList cells) :
    ∃ c ∈ cells, d ∈ c.flatten := by
  induction cells with
  | nil => rw [Cell.flattenList] at h; cases h
  | cons c cells ih =>
    rw [Cell.flattenList, List.mem_append] at h
    rcases h with h | h
    · exact ⟨c, List.mem_cons_self, h⟩
    · obtain ⟨e, he, hd⟩ := ih h
      exact ⟨e, List.mem_cons_of_mem c he, hd⟩

/-- A cell that stands in for no recorded computation is its own code. -/
theorem Cell.flatten_of_not_isDeferred {c : Cell} (h : c.isDeferred = false) :
    c.flatten = [c] := by
  cases c with
  | defer record result => cases h
  | dummy tag => cases h
  | _ => rw [Cell.flatten] <;> simp

/-- The code that replays data. -/
def replayCode (cells : List Cell) : List Cell := Cell.flattenList cells.reverse

@[simp] theorem replayCode_nil : replayCode [] = [] := by
  rw [replayCode, List.reverse_nil, Cell.flattenList]

theorem replayCode_cons (c : Cell) (cells : List Cell) :
    replayCode (c :: cells) = replayCode cells ++ c.flatten := by
  rw [replayCode, List.reverse_cons, Cell.flattenList_append, Cell.flattenList_singleton,
    replayCode]

/-- Data is replayed from the bottom up. -/
theorem replayCode_append (upper lower : List Cell) :
    replayCode (upper ++ lower) = replayCode lower ++ replayCode upper := by
  rw [replayCode, List.reverse_append, Cell.flattenList_append, replayCode, replayCode]

/-- Reconstruction moves the code that replays the data before the code. -/
theorem gather_eq (code : List Cell) (data : Stack) :
    gather code data = replayCode data ++ code := by
  induction data generalizing code with
  | nil => rw [gather, replayCode_nil, List.nil_append]
  | cons c data ih => rw [gather, ih, replayCode_cons, List.append_assoc]

/-! ### Settled cells -/

/-- A cell on the data of a recording run in which no word was left unapplied: a literal, a free
symbol, a dummy, or a record that is made of these and of words. -/
inductive Cell.IsSettled : Cell → Prop
  /-- A literal or a free symbol. -/
  | inert {c : Cell} (h : c.IsInert) : Cell.IsSettled c
  /-- A record that can be replayed. -/
  | defer {record : List Cell} (result : Option TypeTag)
    (h : ∀ d ∈ Cell.flattenList record, d.IsPlain) : Cell.IsSettled (.defer record result)
  /-- A dummy. -/
  | dummy (tag : TypeTag) : Cell.IsSettled (.dummy tag)

theorem Cell.IsInert.not_isDeferred {c : Cell} (h : c.IsInert) : c.isDeferred = false := by
  cases h with
  | literal h =>
    cases c with
    | defer record result => cases h
    | dummy tag => cases h
    | _ => rfl
  | free h => rfl

/-- A literal or a free symbol is its own code. -/
theorem Cell.IsInert.flatten {c : Cell} (h : c.IsInert) : c.flatten = [c] :=
  Cell.flatten_of_not_isDeferred h.not_isDeferred

theorem Cell.IsSettled.lookup {c : Cell} (h : c.IsSettled) (mode : Mode) :
    mode.environment.lookup c = none := by
  cases h with
  | inert h => exact h.lookup mode
  | defer result h => rfl
  | dummy tag => rfl

theorem Cell.IsSettled.plain_flatten {c : Cell} (h : c.IsSettled) : ∀ d ∈ c.flatten, d.IsPlain := by
  intro d hd
  cases h with
  | inert h =>
    rw [h.flatten] at hd
    rw [List.mem_singleton.mp hd]
    exact .inert h
  | defer result h => exact h d (by rwa [Cell.flatten] at hd)
  | dummy tag => rw [Cell.flatten] at hd; cases hd

/-- The code that replays settled cells is a program. -/
theorem plain_replayCode (h : ∀ c ∈ cells, c.IsSettled) : ∀ d ∈ replayCode cells, d.IsPlain := by
  intro d hd
  obtain ⟨c, hc, hd⟩ := Cell.mem_flattenList hd
  exact (h c (List.mem_reverse.mp hc)).plain_flatten d hd

/-! ### Cells that stand for values -/

/-- A cell on recorded data stands for a value. -/
inductive Stands : Cell → Cell → Prop
  /-- A literal or a free symbol stands for itself. -/
  | same {c : Cell} (h : c.IsInert) : Stands c c
  /-- A record or a dummy stands for a value of its type. -/
  | deferred {c v : Cell} {tag : TypeTag} (h : c.isDeferred = true)
    (hc : c.deferredType = some tag) (hv : v.valueType = some tag) : Stands c v

namespace Stands

variable {c v : Cell}

theorem deferredType_eq (h : Stands c v) : c.deferredType = v.valueType := by
  cases h with
  | same h =>
    have hnot := h.not_isDeferred
    cases c with
    | defer record result => cases hnot
    | dummy tag => cases hnot
    | _ => rfl
  | deferred h hc hv => rw [hc, hv]

/-- What a cell stands for is pushed by every mode. -/
theorem inert (h : Stands c v) : v.IsInert := by
  cases h with
  | same h => exact h
  | deferred h hc hv => exact .literal (by rw [hv]; rfl)

/-- A check that accepts records judges a cell as one that does not judges the value. -/
theorem meets_eq (h : Stands c v) (required : TypeTag) :
    v.meets false required = c.meets true required := by
  simp only [Cell.meets, Cell.judgedType, if_true, Bool.false_eq_true, if_false, h.deferredType_eq]

end Stands

/-- Values that stand for accepted operands are accepted. -/
theorem meets_of_stands {inputs : List TypeTag} {us : Stack} (hmeet : Meet true inputs popped)
    (hus : List.Forall₂ Stands (operandsOf true popped) us) :
    List.Forall₂ (fun required v => v.meets false required = true) inputs us :=
  forall₂_comp (fun required c v hc hcv => by rw [hcv.meets_eq required, hc]) hmeet hus

/-- Recorded data mirrors plain values, both listed top first. -/
structure Mirrors (cells : List Cell) (values : Stack) : Prop where
  /-- No cell of the data is run. -/
  settled : ∀ c ∈ cells, c.IsSettled
  /-- The replay of the data leaves the values. -/
  replays : strictRun (replayCode cells) [] = .ok values
  /-- The cells that count as values stand for them. -/
  stands : List.Forall₂ Stands (operandsOf true cells) values

/-- Whether the replay of cells needs nothing from beneath, and leaves a value for each of them that
counts as one. -/
def standsAlone (cells : List Cell) : Bool :=
  match strictRun (replayCode cells) [] with
  | .ok values => values.length == (operandsOf true cells).length
  | .error _ => false

theorem exists_of_standsAlone (h : standsAlone cells = true) :
    ∃ values, strictRun (replayCode cells) [] = .ok values ∧
      values.length = (operandsOf true cells).length := by
  rw [standsAlone] at h
  cases hr : strictRun (replayCode cells) [] with
  | error e => rw [hr] at h; cases h
  | ok values => exact ⟨values, rfl, by simpa [hr] using h⟩

/-- A replay that needs nothing from beneath can be made over any data. -/
theorem strictRun_replayCode_over (hsettled : ∀ c ∈ cells, c.IsSettled)
    (h : strictRun (replayCode cells) [] = .ok values) (beneath : Stack) :
    strictRun (replayCode cells) beneath = .ok (values ++ beneath) :=
  strictRun_frame (plain_replayCode hsettled) h beneath

namespace Mirrors

theorem nil : Mirrors [] [] := ⟨nofun, by rw [replayCode_nil]; rfl, .nil⟩

theorem inert {c : Cell} (h : c.IsInert) : Mirrors [c] [c] where
  settled := fun d hd => by rw [List.mem_singleton.mp hd]; exact .inert h
  replays := by
    rw [replayCode_cons, replayCode_nil, h.flatten, List.nil_append, strictRun_inert h]
    rfl
  stands := by
    have hover : c.steppedOver true = false := by
      have hnot := h.not_isDeferred
      cases c with
      | defer record result => cases hnot
      | _ => rfl
    rw [operandsOf_cons hover]
    exact .cons (.same h) .nil

/-- **Mirrors can be put on top of each other.** -/
theorem append (hu : Mirrors upper us) (hl : Mirrors lower ws) :
    Mirrors (upper ++ lower) (us ++ ws) where
  settled := fun c hc => (List.mem_append.mp hc).elim (hu.settled c) (hl.settled c)
  replays := by
    rw [replayCode_append, strictRun_append_ok hl.replays]
    exact strictRun_replayCode_over hu.settled hu.replays ws
  stands := by
    rw [operandsOf_append]
    exact forall₂_append hu.stands hl.stands

/-- **Mirrors can be taken apart where the upper part stands alone.** -/
theorem split (h : Mirrors (upper ++ lower) values) (halone : standsAlone upper = true) :
    ∃ us ws, values = us ++ ws ∧ Mirrors upper us ∧ Mirrors lower ws := by
  have hsu : ∀ c ∈ upper, c.IsSettled := fun c hc => h.settled c (List.mem_append_left _ hc)
  have hsl : ∀ c ∈ lower, c.IsSettled := fun c hc => h.settled c (List.mem_append_right _ hc)
  obtain ⟨us, hus, hlen⟩ := exists_of_standsAlone halone
  have hreplays := h.replays
  rw [replayCode_append, strictRun_append] at hreplays
  obtain ⟨ws, hws, hrest⟩ := bind_eq_ok_iff.mp hreplays
  rw [strictRun_replayCode_over hsu hus ws] at hrest
  cases hrest
  -- as many values as cells, so the values part where the cells do
  have hstands := h.stands
  rw [operandsOf_append] at hstands
  obtain ⟨vs, vs', hvs, hupper, hlower⟩ := forall₂_append_left hstands
  obtain ⟨rfl, rfl⟩ := List.append_inj hvs (by rw [hlen, hupper.length_eq])
  exact ⟨us, ws, rfl, ⟨hsu, hus, hupper⟩, ⟨hsl, hws, hlower⟩⟩

end Mirrors

/-! ### Stepping over records -/

/-- Whether records that leave nothing can be moved beneath all cells of a list: every cell that is
not a dummy is only passed by records that stand alone. `passing` lists the records met so far. -/
def crossable (passing : List Cell) : List Cell → Bool
  | [] => true
  | c :: cells =>
    if c.leavesNothing then crossable (passing ++ [c]) cells
    else (c.isDummy || standsAlone passing) && crossable passing cells

/-- The deepest cell of a list is passed by all records above it. -/
theorem crossable_concat (passing cells : List Cell) (x : Cell) :
    crossable passing (cells ++ [x]) =
      (crossable passing cells &&
        (x.leavesNothing || x.isDummy ||
          standsAlone (passing ++ cells.filter Cell.leavesNothing))) := by
  induction cells generalizing passing with
  | nil =>
    rw [List.nil_append, crossable, crossable, crossable, List.filter_nil, List.append_nil]
    cases x.leavesNothing <;> simp [crossable]
  | cons c cells ih =>
    rw [List.cons_append, crossable, crossable]
    cases hc : c.leavesNothing with
    | true => simp [ih, hc]
    | false => simp [ih, hc, Bool.and_assoc]

theorem operandsOf_filter_leavesNothing (cells : List Cell) :
    operandsOf true (cells.filter Cell.leavesNothing) = [] := by
  rw [operandsOf, List.filter_filter, List.filter_eq_nil_iff]
  intro c _
  cases h : c.leavesNothing <;> simp [Cell.steppedOver, h]

/-- Records that leave nothing and stand alone can be replayed over any data without a trace. -/
theorem strictRun_neutral (hsettled : ∀ c ∈ cells, c.IsSettled)
    (halone : standsAlone (cells.filter Cell.leavesNothing) = true) (beneath : Stack) :
    strictRun (replayCode (cells.filter Cell.leavesNothing)) beneath = .ok beneath := by
  obtain ⟨out, hout, hlen⟩ := exists_of_standsAlone halone
  rw [operandsOf_filter_leavesNothing] at hlen
  obtain rfl := List.length_eq_zero_iff.mp hlen
  exact strictRun_replayCode_over (fun c hc => hsettled c (List.mem_of_mem_filter hc)) hout beneath

/-- **The replay with the valueless records moved beneath the operands.** -/
theorem strictRun_stepOver (hsettled : ∀ c ∈ popped, c.IsSettled)
    (hcross : crossable [] popped = true) {data : Stack}
    (h : strictRun (replayCode popped) data = .ok values) :
    strictRun (replayCode (operandsOf true popped ++ popped.filter Cell.leavesNothing)) data =
      .ok values := by
  -- from the deepest cell up: it is replayed first, and the records above it come to pass it
  induction popped using List.reverseRecOn generalizing data with
  | nil => exact h
  | append_singleton cells x ih =>
    have hcells : ∀ c ∈ cells, c.IsSettled := fun c hc => hsettled c (List.mem_append_left _ hc)
    rw [crossable_concat, List.nil_append, Bool.and_eq_true] at hcross
    obtain ⟨hcross, hx⟩ := hcross
    have hreplay : replayCode (cells ++ [x]) = x.flatten ++ replayCode cells := by
      rw [replayCode_append, replayCode_cons, replayCode_nil, List.nil_append]
    rw [hreplay, strictRun_append] at h
    obtain ⟨mid, hmid, hrest⟩ := bind_eq_ok_iff.mp h
    -- what is above `x` is replayed with its records first, on what the replay of `x` has left
    have hih := ih hcells hcross hrest
    rw [replayCode_append, strictRun_append] at hih
    rw [operandsOf_append, List.filter_append, replayCode_append, replayCode_append,
      replayCode_append, List.append_assoc]
    cases hnothing : x.leavesNothing with
    | true =>
      have hops : operandsOf true [x] = [] :=
        operandsOf_cons_stepped (by rw [Cell.steppedOver, hnothing]; rfl) []
      have hrecs : [x].filter Cell.leavesNothing = [x] := List.filter_cons_of_pos hnothing
      rw [hops, hrecs, replayCode_cons, replayCode_nil, List.nil_append, List.nil_append,
        strictRun_append_ok hmid, strictRun_append]
      exact hih
    | false =>
      have hops : operandsOf true [x] = [x] :=
        operandsOf_cons (by rw [Cell.steppedOver, hnothing]; rfl) []
      have hrecs : [x].filter Cell.leavesNothing = [] := by
        rw [List.filter_cons_of_neg (by simp [hnothing]), List.filter_nil]
      rw [hops, hrecs, replayCode_cons, replayCode_nil, List.nil_append, List.nil_append]
      rw [hnothing, Bool.false_or, Bool.or_eq_true] at hx
      rcases hx with hdummy | halone
      · -- a dummy replays nothing
        have hflat : x.flatten = [] := by
          cases x with
          | dummy tag => rw [Cell.flatten]
          | _ => cases hdummy
        rw [hflat] at hmid ⊢
        cases hmid
        rw [List.nil_append, strictRun_append]
        exact hih
      -- the records above leave no trace, before `x` as little as after it
      · rw [strictRun_neutral hcells halone] at hih
        rw [strictRun_append_ok (strictRun_neutral hcells halone data), strictRun_append_ok hmid]
        exact hih

/-! ### Recording a word -/

theorem map_deferredType_of_stands (h : List.Forall₂ Stands cells values) :
    cells.map Cell.deferredType = values.map Cell.valueType := by
  rw [← List.forall₂_eq_eq_eq, List.forall₂_map_left_iff, List.forall₂_map_right_iff]
  exact h.imp fun _ _ hcv => hcv.deferredType_eq

/-- The type of an output depends on the types of the operands only. -/
theorem OutputType.resolve_congr {xs ys : List Cell}
    (h : xs.map Cell.deferredType = ys.map Cell.deferredType) (out : OutputType) :
    out.resolve xs = out.resolve ys := by
  cases out with
  | fixed tag => rfl
  | sameAs depth =>
    have hget : (xs.map Cell.deferredType)[depth]? = (ys.map Cell.deferredType)[depth]? := by
      rw [h]
    simp only [List.getElem?_map] at hget
    simp only [OutputType.resolve]
    cases hx : xs[depth]? with
    | none => cases hy : ys[depth]? <;> simp_all
    | some x => cases hy : ys[depth]? <;> simp_all
  | promote =>
    cases xs with
    | nil =>
      cases ys with
      | nil => rfl
      | cons y ys => cases h
    | cons x xs =>
      cases ys with
      | nil => cases h
      | cons y ys =>
        rw [List.map_cons, List.map_cons, List.cons.injEq] at h
        have hfold : ∀ (zs : List Cell) (acc : Option TypeTag),
            zs.foldl (fun acc d => acc.bind fun a => d.deferredType.bind a.promote) acc =
              (zs.map Cell.deferredType).foldl
                (fun acc t => acc.bind fun a => t.bind a.promote) acc := by
          intro zs acc
          rw [List.foldl_map]
        simp only [OutputType.resolve, hfold, h.1, h.2]

/-- Every result of a word has a type, if its operands have one. -/
theorem IsWord.results_isSome {name : String} {op : Primitive} (hw : IsWord name op)
    {results : Stack} (hus : ∀ u ∈ us, u.valueType.isSome = true)
    (hr : (op.action name).apply name us = .ok results) :
    ∀ v ∈ results, v.valueType.isSome = true := by
  intro v hv
  rcases hw.mem_results hr hv with hv | ⟨n, rfl⟩ | ⟨b, rfl⟩
  · exact hus v hv
  · rw [Number.valueType_toCell]
    rfl
  · rfl

/-- Dummies typed as the given values are stand for them. -/
theorem stands_dummies {results : List Cell}
    (hsome : ∀ v ∈ results, v.valueType.isSome = true) :
    List.Forall₂ Stands
      (operandsOf true ((results.map Cell.valueType).map fun type => .dummy (type.getD .any)))
      results := by
  induction results with
  | nil => exact .nil
  | cons v results ih =>
    obtain ⟨tag, htag⟩ := Option.isSome_iff_exists.mp (hsome v List.mem_cons_self)
    rw [List.map_cons, List.map_cons, operandsOf_cons rfl]
    refine .cons (.deferred rfl ?_ htag) (ih fun w hw => hsome w (List.mem_cons_of_mem v hw))
    rw [htag]
    rfl

/-- A record and its dummies, typed as the given values are, stand for them. -/
theorem stands_record {name : String} {operands results : List Cell} {outputs : List OutputType}
    (htypes : outputs.map (·.resolve operands) = results.map Cell.valueType)
    (hsome : ∀ v ∈ results, v.valueType.isSome = true) :
    List.Forall₂ Stands (operandsOf true (record name operands outputs)) results := by
  simp only [record, htypes]
  cases results with
  | nil => exact .nil
  | cons v results =>
    obtain ⟨tag, htag⟩ := Option.isSome_iff_exists.mp (hsome v List.mem_cons_self)
    have hhead : ((v :: results).map Cell.valueType).head?.bind id = some tag := htag
    rw [hhead, operandsOf_cons rfl, List.map_cons, List.tail_cons]
    -- the record itself stands for the first value, the dummies for the others
    refine .cons (.deferred rfl rfl htag) ?_
    exact stands_dummies fun u hu => hsome u (List.mem_cons_of_mem v hu)

/-- The replay of a record is the replay of its operands and the word. -/
theorem replayCode_record (name : String) (operands : List Cell) (outputs : List OutputType) :
    replayCode (record name operands outputs) = replayCode operands ++ [.symbol name] := by
  have hdummies : ∀ types : List (Option TypeTag),
      replayCode (types.map fun type => .dummy (type.getD .any)) = [] := by
    intro types
    induction types with
    | nil => exact replayCode_nil
    | cons type types ih => rw [List.map_cons, replayCode_cons, ih, Cell.flatten, List.nil_append]
  simp only [record, replayCode_cons, hdummies, List.nil_append, Cell.flatten,
    Cell.flattenList_append, Cell.flattenList_singleton]
  rfl

theorem settled_record {name : String} {op : Primitive} (hw : IsWord name op)
    {operands : List Cell} (hoperands : ∀ c ∈ operands, c.IsSettled) (outputs : List OutputType) :
    ∀ c ∈ record name operands outputs, c.IsSettled := by
  intro c hc
  rcases List.mem_cons.mp hc with rfl | hc
  · refine .defer _ fun d hd => ?_
    rw [Cell.flattenList_append, Cell.flattenList_singleton, List.mem_append] at hd
    rcases hd with hd | hd
    · exact plain_replayCode hoperands d hd
    · rw [Cell.flatten] at hd
      · rw [List.mem_singleton.mp hd]
        exact .word hw
      · exact fun _ _ => nofun
      · exact fun _ => nofun
  · obtain ⟨type, -, rfl⟩ := List.mem_map.mp hc
    exact .dummy _

/-- Values that stand for accepted operands have a type. -/
theorem valueType_of_stands {inputs : List TypeTag} (hmeet : Meet true inputs popped)
    (hus : List.Forall₂ Stands (operandsOf true popped) us) :
    ∀ u ∈ us, u.valueType.isSome = true := by
  intro u hu
  have hmem : u.valueType ∈ (operandsOf true popped).map Cell.deferredType := by
    rw [map_deferredType_of_stands hus]
    exact List.mem_map_of_mem hu
  obtain ⟨c, hc, hcu⟩ := List.mem_map.mp hmem
  obtain ⟨required, -, hmeets⟩ := meets_of_mem_operands hmeet hc
  rw [← hcu]
  exact deferredType_of_meets hmeets

/-- **The record of a word stands for its results**: the types of the record come from the operands,
those of the results from the values that the operands stand for. -/
theorem stands_results {name : String} {op : Primitive} (hw : IsWord name op)
    (hmeet : Meet true op.inputs popped) (hus : List.Forall₂ Stands (operandsOf true popped) us)
    {results : Stack} (hr : (op.action name).apply name us = .ok results) :
    List.Forall₂ Stands (operandsOf true (record name (operandsOf true popped) op.outputs))
      results := by
  have hlen : us.length = op.inputs.length := by rw [← hus.length_eq, length_operands hmeet]
  have hsome := valueType_of_stands hmeet hus
  refine stands_record ?_ (hw.results_isSome hsome hr)
  rw [hw.results_typed hlen hsome hr]
  refine List.map_congr_left fun out _ => OutputType.resolve_congr ?_ out
  rw [map_deferredType_of_stands hus]
  exact List.map_congr_left fun u hu => (Cell.deferredType_eq (hsome u hu)).symm

/-- **What a recorded word leaves mirrors what the strict word leaves.** -/
theorem Mirrors.record {name : String} {op : Primitive} (hw : IsWord name op)
    (h : Mirrors (popped ++ rest) (us ++ ws))
    (hus : List.Forall₂ Stands (operandsOf true popped) us)
    (hws : List.Forall₂ Stands (operandsOf true rest) ws)
    (hmeet : Meet true op.inputs popped) (hcross : crossable [] popped = true) {results : Stack}
    (hr : (op.action name).apply name us = .ok results) :
    Mirrors (record name (operandsOf true popped) op.outputs ++
      (popped.filter Cell.leavesNothing ++ rest)) (results ++ ws) := by
  have hpopped : ∀ c ∈ popped, c.IsSettled := fun c hc => h.settled c (List.mem_append_left _ hc)
  have hoperands : ∀ c ∈ operandsOf true popped, c.IsSettled :=
    fun c hc => hpopped c (List.mem_of_mem_filter hc)
  have hlen : us.length = op.inputs.length := by rw [← hus.length_eq, length_operands hmeet]
  refine ⟨?_, ?_, ?_⟩
  · intro c hc
    rcases List.mem_append.mp hc with hc | hc
    · exact settled_record hw hoperands _ c hc
    · rcases List.mem_append.mp hc with hc | hc
      · exact hpopped c (List.mem_of_mem_filter hc)
      · exact h.settled c (List.mem_append_right _ hc)
  -- what is beneath is replayed first, then the operands, then the word on their values
  · have hreplays := h.replays
    rw [replayCode_append, strictRun_append] at hreplays
    obtain ⟨data, hdata, hrest⟩ := bind_eq_ok_iff.mp hreplays
    have hmoved := strictRun_stepOver hpopped hcross hrest
    rw [replayCode_append] at hmoved
    rw [replayCode_append, replayCode_append, replayCode_record, List.append_assoc,
      strictRun_append_ok hdata, ← List.append_assoc, strictRun_append_ok hmoved, strictRun_cons,
      strictStep_word hw,
      Action.apply_append _ (by rw [hlen, hw.length_inputs_action]), hr]
    rfl
  · rw [operandsOf_append, operandsOf_append, operandsOf_filter_leavesNothing, List.nil_append]
    exact forall₂_append (stands_results hw hmeet hus hr) hws

end Restack
