import Mathlib.Data.List.DropRight
import Restack.Proofs.Check

/-!
# The cells that a check leaves

A check hands over to its instruction exactly when there are operands for it on the data. In
every other case it only moves cells: either all of them stay where they are and the name of the
instruction is put on top, or the cell at which the check stops goes back into the code, behind
the name, together with the dummies that belong to it. No cell is lost, copied or made, but for
the name.

## Main definitions

* `HasOperands` — the operands of a check lie on the data.
* `IsDummyBlock`, `IsLongestBlock` — the dummies that belong to a record.
* `Stop` — the data around the cell at which a check stops.

## Main results

* `exists_accepted_iff` — when a check hands over.
* `isLongestBlock_dummyGroup` — the group of a record is the longest block beneath it.
* `check_accounts_for_cells` — the data after a check.
-/

namespace Restack

variable {acceptDeferred : Bool} {inputs : List TypeTag} {data block popped rest : Stack}

/-! ### When a check hands over -/

/-- The operands of a check lie on the data: the first cells that count as operands meet the
requirements one by one. -/
def HasOperands (acceptDeferred : Bool) (inputs : List TypeTag) (data : Stack) : Prop :=
  ∃ operands, operands <+: operandsOf acceptDeferred data ∧
    List.Forall₂ (fun required c => c.meets acceptDeferred required = true) inputs operands

theorem hasOperands_of_meet (h : Meet acceptDeferred inputs popped) (rest : Stack) :
    HasOperands acceptDeferred inputs (popped ++ rest) := by
  refine ⟨operandsOf acceptDeferred popped, ?_, h⟩
  rw [operandsOf_append]
  exact List.prefix_append _ _

/-- Where the data runs out, operands are missing. -/
theorem Examination.Fits.not_hasOperands_of_exhausted
    (h : Examination.exhausted.Fits acceptDeferred inputs data) :
    ¬ HasOperands acceptDeferred inputs data := by
  rintro ⟨operands, hprefix, hoperands⟩
  obtain ⟨met, missing, rfl, hmissing, hmet⟩ := h
  have hlength := hprefix.length_le
  rw [← hoperands.length_eq, ← hmet.length_eq, List.length_append] at hlength
  have hpos := List.length_pos_iff.mpr hmissing
  omega

/-- Where a cell is rejected, the operand in its place is missing. -/
theorem Examination.Fits.not_hasOperands_of_rejected {cell : Cell} {required : TypeTag}
    (h : (Examination.rejected popped cell required rest).Fits acceptDeferred inputs data) :
    ¬ HasOperands acceptDeferred inputs data := by
  rintro ⟨operands, ⟨others, hprefix⟩, hoperands⟩
  obtain ⟨rfl, hover, hnot, met, missing, rfl, hmet⟩ := h
  -- the rejected cell stands where the operand for `required` would stand
  obtain ⟨first, later, rfl, hfirst, hlater⟩ := forall₂_append_left hoperands
  cases hlater with
  | @cons _ operand _ later hoperand _ =>
    rw [operandsOf_append, operandsOf_cons hover, List.append_assoc] at hprefix
    have hlength : first.length = (operandsOf acceptDeferred popped).length := by
      rw [← hfirst.length_eq, hmet.length_eq]
    obtain ⟨-, htail⟩ := List.append_inj hprefix hlength
    obtain rfl : operand = cell := (List.cons.inj htail).1
    rw [hnot] at hoperand
    cases hoperand

/-- **A check hands over exactly when its operands lie on the data.** -/
theorem exists_accepted_iff :
    (∃ popped rest, examine acceptDeferred inputs data = .accepted popped rest) ↔
      HasOperands acceptDeferred inputs data := by
  have hfits := examine_fits acceptDeferred inputs data
  constructor
  · rintro ⟨popped, rest, he⟩
    obtain ⟨rfl, hmeet⟩ := he ▸ hfits
    exact hasOperands_of_meet hmeet rest
  · intro h
    cases he : examine acceptDeferred inputs data with
    | accepted popped rest => exact ⟨popped, rest, rfl⟩
    | exhausted => exact absurd h (he ▸ hfits).not_hasOperands_of_exhausted
    | rejected popped cell required rest =>
      exact absurd h (he ▸ hfits).not_hasOperands_of_rejected

/-! ### The dummies that belong to a record -/

/-- Dummies and records that leave nothing, in any order, the deepest of them a dummy; or no cell at
all. -/
structure IsDummyBlock (cells : List Cell) : Prop where
  /-- Each cell is a dummy or a record that leaves nothing. -/
  members : ∀ c ∈ cells, c.isDummy = true ∨ c.leavesNothing = true
  /-- The deepest cell is a dummy. -/
  deepest : ∀ h : cells ≠ [], (cells.getLast h).isDummy = true

/-- A block on top of the data that no other block on top of the data reaches beyond. -/
structure IsLongestBlock (block data : List Cell) : Prop where
  /-- It lies on top of the data. -/
  onTop : block <+: data
  /-- It is a block. -/
  isBlock : IsDummyBlock block
  /-- Every other block is part of it. -/
  longest : ∀ other, other <+: data → IsDummyBlock other → other <+: block

theorem Cell.not_leavesNothing_of_isDummy {c : Cell} (h : c.isDummy = true) :
    ¬ c.leavesNothing = true := by
  cases c with
  | dummy tag => exact nofun
  | _ => cases h

/-- The group of a record, from the deepest cell in a row that is no dummy upwards. -/
theorem dummyGroup_eq (data : Stack) : dummyGroup data =
    (data.takeWhile fun c => c.isDummy || c.leavesNothing).rdropWhile Cell.leavesNothing := rfl

theorem isDummyBlock_dummyGroup (data : Stack) : IsDummyBlock (dummyGroup data) where
  members _ hc := mem_dummyGroup hc
  deepest h := by
    rcases mem_dummyGroup (List.getLast_mem h) with hdummy | hnothing
    · exact hdummy
    · exact absurd hnothing (List.rdropWhile_last_not _ _ h)

/-- A block is not shortened where it is followed by other cells. -/
theorem IsDummyBlock.isPrefix_rdropWhile (h : IsDummyBlock block) (cells : List Cell) :
    block <+: (block ++ cells).rdropWhile Cell.leavesNothing := by
  induction cells using List.reverseRecOn with
  | nil =>
    have hself : block.rdropWhile Cell.leavesNothing = block :=
      List.rdropWhile_eq_self_iff.mpr fun hne => Cell.not_leavesNothing_of_isDummy (h.deepest hne)
    exact ⟨[], by rw [List.append_nil, hself]⟩
  | append_singleton cells c ih =>
    rw [← List.append_assoc, List.rdropWhile_concat]
    split
    · exact ih
    · exact ⟨cells ++ [c], (List.append_assoc ..).symm⟩

/-- **The group of a record is the longest block beneath it.** -/
theorem isLongestBlock_dummyGroup (data : Stack) : IsLongestBlock (dummyGroup data) data where
  onTop := dummyGroup_isPrefix data
  isBlock := isDummyBlock_dummyGroup data
  longest := by
    rintro block ⟨others, rfl⟩ hblock
    have hcells : ∀ c ∈ block, (c.isDummy || c.leavesNothing) = true := fun c hc =>
      Bool.or_eq_true_iff.mpr (hblock.members c hc)
    rw [dummyGroup_eq, List.takeWhile_append_of_pos hcells]
    exact hblock.isPrefix_rdropWhile _

/-! ### Where a check stops -/

/-- Whether a cell is a record. -/
def Cell.isRecord : Cell → Bool
  | .defer _ _ => true
  | _ => false

theorem Cell.skippedDummies_eq (cell : Cell) (acceptDeferred : Bool) (rest : Stack) :
    skippedDummies acceptDeferred cell rest =
      if acceptDeferred && cell.isRecord then dummyGroup rest else [] := by
  cases cell <;> cases acceptDeferred <;> rfl

/-- The data around the cell at which a check stops, in four parts from the top down. -/
structure Stop (acceptDeferred : Bool) (inputs : List TypeTag) (data : Stack) where
  /-- The cells that were taken off before. -/
  above : List Cell
  /-- The cell that is rejected. -/
  cell : Cell
  /-- The cells that go along with it. -/
  group : List Cell
  /-- The cells that are not looked at. -/
  beneath : Stack
  /-- These are all cells of the data. -/
  data_eq : data = above ++ cell :: (group ++ beneath)
  /-- The rejected cell counts as an operand. -/
  counts : cell.steppedOver acceptDeferred = false
  /-- The operands above it meet the first requirements, and it does not meet the next one. -/
  unmet : ∃ met required missing, inputs = met ++ required :: missing ∧
    Meet acceptDeferred met above ∧ cell.meets acceptDeferred required = false
  /-- A record takes the longest block beneath it along, if records are accepted; any other cell
  goes alone. -/
  alongside : if acceptDeferred && cell.isRecord then IsLongestBlock group (group ++ beneath)
    else group = []

/-- The stop that a rejection makes. -/
def Examination.Fits.stop {cell : Cell} {required : TypeTag}
    (h : (Examination.rejected popped cell required rest).Fits acceptDeferred inputs data) :
    Stop acceptDeferred inputs data where
  above := popped
  cell := cell
  group := skippedDummies acceptDeferred cell rest
  beneath := rest.drop (skippedDummies acceptDeferred cell rest).length
  data_eq := by rw [skippedDummies_append_drop]; exact h.1
  counts := h.2.1
  unmet := by
    obtain ⟨-, -, hnot, met, missing, hinputs, hmet⟩ := h
    exact ⟨met, required, missing, hinputs, hmet, hnot⟩
  alongside := by
    rw [skippedDummies_append_drop, Cell.skippedDummies_eq]
    split
    · exact isLongestBlock_dummyGroup rest
    · rfl

/-- **The cells that a check leaves.** Where its operands lie on the data, a check hands over to its
instruction: with all of the data, or, if it accepts records, with the operands alone, over the
records that were stepped over. Everywhere else it leaves the environment alone and the data in one
of two forms. Where the data runs out, or a dummy would be parted from its record, all cells stay
and the name of the instruction is put on top. Otherwise the check stops at a cell and takes it out,
together with the cells that go along with it; the cells above come to lie on those beneath, and on
top is a request to run the name, then the cells that went along, from the deepest up, and then the
cell itself. -/
theorem check_accounts_for_cells (inputs : List TypeTag) (acceptDeferred : Bool)
    (inner : Instruction) (data : Stack) (env : Environment) :
    (HasOperands acceptDeferred inputs data →
      ∃ popped rest, data = popped ++ rest ∧ Meet acceptDeferred inputs popped ∧
        (Instruction.checked inputs acceptDeferred inner).apply data env =
          if acceptDeferred then
            restoreOver (popped.filter Cell.leavesNothing ++ rest)
              (inner.apply (operandsOf true popped) env)
          else inner.apply data env) ∧
    (¬ HasOperands acceptDeferred inputs data →
      ((Examination.exhausted.Fits acceptDeferred inputs data ∨
          ∃ stop : Stop acceptDeferred inputs data,
            partsDummy acceptDeferred inputs stop.cell stop.group = true) ∧
        (Instruction.checked inputs acceptDeferred inner).apply data env =
          (.ok (.symbol inner.name :: data), env)) ∨
      ∃ stop : Stop acceptDeferred inputs data,
        partsDummy acceptDeferred inputs stop.cell stop.group = false ∧
        (Instruction.checked inputs acceptDeferred inner).apply data env =
          (.ok (.continuation (.symbol inner.name :: (stop.group.reverse ++ [stop.cell])) ::
            (stop.above ++ stop.beneath)), env)) := by
  have hfits := examine_fits acceptDeferred inputs data
  simp only [Instruction.apply]
  cases he : examine acceptDeferred inputs data with
  | accepted popped rest =>
    have hhas := exists_accepted_iff.mp ⟨popped, rest, he⟩
    obtain ⟨hdata, hmeet⟩ := he ▸ hfits
    exact ⟨fun _ => ⟨popped, rest, hdata, hmeet, rfl⟩, fun hnot => absurd hhas hnot⟩
  | exhausted =>
    rw [he] at hfits
    exact ⟨fun hhas => absurd hhas hfits.not_hasOperands_of_exhausted,
      fun _ => .inl ⟨.inl hfits, rfl⟩⟩
  | rejected popped cell required rest =>
    rw [he] at hfits
    refine ⟨fun hhas => absurd hhas hfits.not_hasOperands_of_rejected, fun _ => ?_⟩
    simp only [retryBeneath]
    cases hparts : partsDummy acceptDeferred inputs cell
        (skippedDummies acceptDeferred cell rest) with
    | true => exact .inl ⟨.inr ⟨hfits.stop, hparts⟩, by rw [if_pos rfl, ← hfits.1]⟩
    | false => exact .inr ⟨hfits.stop, hparts, rfl⟩

/-- A recording sum over `1`, the record of an assignment, the record of an exchange with a dropped
text between its dummies, and `2`: the sum stops at the exchange, and what belongs to it goes back
into the code along with it. -/
theorem check_accounts_for_cells_split_exchange :
    let sum : Instruction := .checked [.num, .num] true (.recorder "+" 2 [.promote])
    let assignment : Cell := .defer [.int 5, .symbol "x", .symbol "!"] none
    let exchange : Cell := .defer [.text "a", .text "b", .symbol "swap"] (some .text)
    let dropped : Cell := .defer [.text "c", .symbol "drop"] none
    let data : Stack :=
      [.int 1, assignment, exchange, .dummy .text, dropped, .dummy .bool, assignment, .int 2]
    ¬ HasOperands true [.num, .num] data ∧
      ∃ stop : Stop true [.num, .num] data,
        stop.cell = exchange ∧ stop.group = [.dummy .text, dropped, .dummy .bool] ∧
        stop.above ++ stop.beneath = [.int 1, assignment, assignment, .int 2] ∧
        sum.apply data {} =
          (.ok [.continuation [.symbol "+", .dummy .bool, dropped, .dummy .text, exchange],
            .int 1, assignment, assignment, .int 2], {}) := by
  intro sum assignment exchange dropped data
  have hrejected : examine true [.num, .num] data = .rejected [.int 1, assignment] exchange .num
      [.dummy .text, dropped, .dummy .bool, assignment, .int 2] := rfl
  have happly : sum.apply data {} =
      (.ok [.continuation [.symbol "+", .dummy .bool, dropped, .dummy .text, exchange],
        .int 1, assignment, assignment, .int 2], {}) := rfl
  have hnot : ¬ HasOperands true [.num, .num] data := by
    rw [← exists_accepted_iff, hrejected]
    rintro ⟨popped, rest, h⟩
    cases h
  rcases (check_accounts_for_cells [.num, .num] true (.recorder "+" 2 [.promote]) data {}).2 hnot
    with ⟨-, hleft⟩ | ⟨stop, -, hskip⟩
  · cases happly.symm.trans hleft
  · obtain ⟨hcode, hdata⟩ := List.cons.inj (Except.ok.inj (congrArg Prod.fst
      (happly.symm.trans hskip)))
    have hcells : [.dummy .bool, dropped, .dummy .text] ++ [exchange] =
        stop.group.reverse ++ [stop.cell] := (List.cons.inj (Cell.continuation.inj hcode)).2
    obtain ⟨hgroup, hcell⟩ := List.append_inj' hcells rfl
    refine ⟨hnot, stop, (List.singleton_inj.mp hcell).symm, ?_, hdata.symm, happly⟩
    rw [← List.reverse_reverse stop.group, ← hgroup]
    rfl

end Restack
