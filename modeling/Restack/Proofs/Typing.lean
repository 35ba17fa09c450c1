import Restack.Proofs.Words

/-!
# The types of results

The record of a word says which types its results will have, given the types of its
operands, and the stack effect of a word relates the two sides by variables. Both tell
the truth about the strict operation: arithmetic promotes its operands, comparisons
leave truth values, and the rest only rearranges.

## Main definitions

* `Cell.IsTerm` — a cell of a stack effect, and `denotes`, the type that it stands for.

## Main results

* `IsWord.results_typed` — the results have the types that the record gives them.
* `IsWord.results_denoted` — the results have the types that the stack effect gives them.
* `IsWord.length_results` — there are as many of them as the stack effect says.
-/

namespace Restack

/-! ### Arithmetic promotes -/

/-- The type of two numbers of one kind. -/
def Number.Pair.typeTag : Number.Pair → TypeTag
  | ints _ _ => .int
  | floats _ _ => .float
  | doubles _ _ => .double

namespace Number

theorem promote_typeTag (x y : Number) :
    x.typeTag.promote y.typeTag = some (x.pair y).typeTag := by
  cases x <;> cases y <;> rfl

theorem typeTag_pair_comm (x y : Number) : (x.pair y).typeTag = (y.pair x).typeTag := by
  cases x <;> cases y <;> rfl

/-- A checked result is an integer. -/
theorem typeTag_checked {v : Int} {n : Number} (h : checked v = .ok n) : n.typeTag = .int := by
  rw [checked] at h
  split at h
  · cases h; rfl
  · cases h

/-- Arithmetic on two numbers of one kind stays in that kind. -/
theorem typeTag_of_pair {ints : Int64 → Int64 → Except Fault Number}
    {floats : Float32 → Float32 → Float32} {doubles : Float → Float → Float} {p : Pair}
    {n : Number} (hints : ∀ a b, ints a b = .ok n → n.typeTag = .int)
    (h : (match p with
      | .ints a b => ints a b
      | .floats a b => .ok (.float (floats a b))
      | .doubles a b => .ok (.double (doubles a b))) = .ok n) :
    n.typeTag = p.typeTag := by
  cases p with
  | ints a b => exact hints a b h
  | floats a b => cases h; rfl
  | doubles a b => cases h; rfl

theorem typeTag_add {x y n : Number} (h : x.add y = .ok n) : n.typeTag = (x.pair y).typeTag :=
  typeTag_of_pair (fun _ _ => typeTag_checked) h

theorem typeTag_sub {x y n : Number} (h : x.sub y = .ok n) : n.typeTag = (x.pair y).typeTag :=
  typeTag_of_pair (fun _ _ => typeTag_checked) h

theorem typeTag_mul {x y n : Number} (h : x.mul y = .ok n) : n.typeTag = (x.pair y).typeTag :=
  typeTag_of_pair (fun _ _ => typeTag_checked) h

theorem typeTag_div {x y n : Number} (h : x.div y = .ok n) : n.typeTag = (x.pair y).typeTag := by
  refine typeTag_of_pair (fun a b hab => ?_) h
  split at hab
  · cases hab
  · exact typeTag_checked hab

@[simp] theorem valueType_toCell (n : Number) : n.toCell.valueType = some n.typeTag := by
  cases n <;> rfl

end Number

/-- A number is the cell that holds it. -/
theorem Cell.eq_toCell {c : Cell} {n : Number} (h : c.number? = some n) : c = n.toCell := by
  cases c with
  | int v | float v | double v => cases h; rfl
  | _ => cases h

/-- The type of an ordinary value is its type once everything is replayed. -/
theorem Cell.deferredType_eq {c : Cell} (h : c.valueType.isSome = true) :
    c.deferredType = c.valueType := by
  cases c with
  | defer record result => cases h
  | dummy tag => cases h
  | _ => rfl

/-! ### The types that a record gives -/

/-- The promotion of two numbers, the second on top. -/
theorem resolve_promote (x y : Number) :
    OutputType.promote.resolve [y.toCell, x.toCell] = some (x.pair y).typeTag := by
  have hx : x.toCell.deferredType = some x.typeTag := by cases x <;> rfl
  have hy : y.toCell.deferredType = some y.typeTag := by cases y <;> rfl
  simp only [OutputType.resolve, List.foldl, hx, hy, Option.bind_some, Number.promote_typeTag]
  rw [Number.typeTag_pair_comm]

namespace IsWord

variable {name : String} {op : Primitive} {operands results : Stack}

/-- **The results of a word have the types that its record gives them.** -/
theorem results_typed (h : IsWord name op) (hlen : operands.length = op.inputs.length)
    (hoperands : ∀ v ∈ operands, v.valueType.isSome = true)
    (hr : (op.action name).apply name operands = .ok results) :
    results.map Cell.valueType = op.outputs.map (·.resolve operands) := by
  have hdeferred : ∀ v ∈ operands, v.deferredType = v.valueType :=
    fun v hv => Cell.deferredType_eq (hoperands v hv)
  cases h with
  | add | sub | mul | div | minus =>
    obtain ⟨b, a, rest, y, x, out, rfl, hy, hx, hout, rfl⟩ := Action.apply_binary_iff.mp hr
    obtain ⟨n, hn, rfl⟩ := numeric_eq_ok_iff.mp hout
    obtain rfl : rest = [] := List.length_eq_zero_iff.mp (Nat.succ.inj (Nat.succ.inj hlen))
    rw [Cell.eq_toCell hy, Cell.eq_toCell hx]
    -- the result has the wider of the two types, and `minus` takes its operands the other way
    have htag : n.typeTag = (x.pair y).typeTag := by
      first
        | exact Number.typeTag_add hn
        | exact Number.typeTag_sub hn
        | exact Number.typeTag_mul hn
        | exact Number.typeTag_div hn
        | exact (Number.typeTag_sub hn).trans (Number.typeTag_pair_comm _ _)
    simp only [List.append_nil, List.map_cons, List.map_nil, Primitive.outputs, resolve_promote,
      Number.valueType_toCell, htag]
  | less | greater | equal =>
    obtain ⟨b, a, rest, y, x, out, rfl, -, -, hout, rfl⟩ := Action.apply_binary_iff.mp hr
    obtain rfl : rest = [] := List.length_eq_zero_iff.mp (Nat.succ.inj (Nat.succ.inj hlen))
    cases hout
    rfl
  | not =>
    obtain ⟨a, rest, x, out, rfl, -, hout, rfl⟩ := Action.apply_unary_iff.mp hr
    obtain rfl : rest = [] := List.length_eq_zero_iff.mp (Nat.succ.inj hlen)
    cases hout
    rfl
  | dup | drop =>
    obtain ⟨a, rest, x, out, rfl, hx, hout, rfl⟩ := Action.apply_unary_iff.mp hr
    obtain rfl : rest = [] := List.length_eq_zero_iff.mp (Nat.succ.inj hlen)
    cases hx
    cases hout
    simp [Primitive.outputs, OutputType.resolve, hdeferred]
  | swap | pick =>
    obtain ⟨b, a, rest, y, x, out, rfl, hy, hx, hout, rfl⟩ := Action.apply_binary_iff.mp hr
    obtain rfl : rest = [] := List.length_eq_zero_iff.mp (Nat.succ.inj (Nat.succ.inj hlen))
    cases hy
    cases hx
    cases hout
    simp [Primitive.outputs, OutputType.resolve, hdeferred]
  | rot =>
    obtain ⟨c, b, a, rest, z, y, x, out, rfl, hz, hy, hx, hout, rfl⟩ :=
      Action.apply_trinary_iff.mp hr
    obtain rfl : rest = [] :=
      List.length_eq_zero_iff.mp (Nat.succ.inj (Nat.succ.inj (Nat.succ.inj hlen)))
    cases hz
    cases hy
    cases hx
    cases hout
    simp [Primitive.outputs, OutputType.resolve, hdeferred]

end IsWord

/-! ### The types that a stack effect gives -/

/-- A cell of a stack effect: a type or a variable. -/
inductive Cell.IsTerm : Cell → Prop
  /-- A concrete type. -/
  | type (tag : TypeTag) : Cell.IsTerm (.type tag)
  /-- An unknown type. -/
  | var (v : String) : Cell.IsTerm (.var v)

/-- The type that a cell of a stack effect stands for, given a type for each variable. -/
def denotes (types : String → TypeTag) : Cell → Option TypeTag
  | .type tag => some tag
  | .var v => some (types v)
  | _ => none

@[simp] theorem denotes_type (types : String → TypeTag) (tag : TypeTag) :
    denotes types (.type tag) = some tag := rfl

@[simp] theorem denotes_var (types : String → TypeTag) (v : String) :
    denotes types (.var v) = some (types v) := rfl

theorem Cell.IsTerm.denotes_isSome {c : Cell} (hc : c.IsTerm) (types : String → TypeTag) :
    (denotes types c).isSome = true := by
  cases hc <;> rfl

/-- The cells have the types that the stack effect gives them. -/
abbrev Denoted (types : String → TypeTag) (effect : List Cell) (cells : Stack) : Prop :=
  List.Forall₂ (fun r v => denotes types r = v.valueType) effect cells

theorem denoted_iff {types : String → TypeTag} {effect : List Cell} {cells : Stack} :
    Denoted types effect cells ↔ effect.map (denotes types) = cells.map Cell.valueType := by
  rw [← List.forall₂_eq_eq_eq, List.forall₂_map_left_iff, List.forall₂_map_right_iff]

/-- Two numbers of one type have that type in common. -/
theorem Number.typeTag_pair_of_eq {x y : Number} {tag : TypeTag} (hx : x.typeTag = tag)
    (hy : y.typeTag = tag) : (x.pair y).typeTag = tag := by
  have hpromote := promote_typeTag x y
  rw [hx, hy, TypeTag.promote] at hpromote
  cases hrank : tag.rank? with
  | none => simp [hrank] at hpromote
  | some m =>
    simp only [hrank, ge_iff_le, Nat.le_refl, if_true, Option.some.injEq] at hpromote
    exact hpromote.symm

namespace IsWord

variable {name : String} {op : Primitive} {operands results data data' : Stack}

/-- Stack effects are made of types and variables. -/
theorem isTerm_signature (h : IsWord name op) {r : Cell}
    (hr : r ∈ op.signature.consumes ++ op.signature.produces) : r.IsTerm := by
  cases h <;>
    simp only [Primitive.signature, List.cons_append, List.nil_append, List.append_nil,
      List.mem_cons, List.not_mem_nil, or_false, or_self] at hr <;>
    grind [Cell.IsTerm]

/-- **The results of a word have the types that its stack effect gives them.** -/
theorem results_denoted (h : IsWord name op) {types : String → TypeTag}
    (hoperands : Denoted types op.signature.consumes operands)
    (hr : (op.action name).apply name operands = .ok results) :
    Denoted types op.signature.produces results := by
  have hlen : operands.length = op.inputs.length := by
    rw [← hoperands.length_eq, h.length_consumes, h.length_inputs_action]
  rw [denoted_iff] at hoperands ⊢
  have hsome : ∀ v ∈ operands, v.valueType.isSome = true := by
    intro v hv
    have hmem : v.valueType ∈ op.signature.consumes.map (denotes types) := by
      rw [hoperands]
      exact List.mem_map_of_mem hv
    obtain ⟨r, hrmem, hrv⟩ := List.mem_map.mp hmem
    rw [← hrv]
    exact (h.isTerm_signature (List.mem_append_left _ hrmem)).denotes_isSome types
  have hdeferred : operands.map Cell.deferredType = operands.map Cell.valueType :=
    List.map_congr_left fun v hv => Cell.deferredType_eq (hsome v hv)
  -- the types that the record gives are known; what is left is that the stack effect names them
  rw [h.results_typed hlen hsome hr]
  cases h with
  | add | sub | mul | div | minus =>
    obtain ⟨b, a, rest, y, x, out, rfl, hy, hx, -, -⟩ := Action.apply_binary_iff.mp hr
    obtain rfl : rest = [] := List.length_eq_zero_iff.mp (Nat.succ.inj (Nat.succ.inj hlen))
    rw [Cell.eq_toCell hy, Cell.eq_toCell hx] at hoperands ⊢
    simp only [Primitive.signature, List.map_cons, List.map_nil, Number.valueType_toCell,
      denotes_var, List.cons.injEq, Option.some.injEq, and_true] at hoperands
    obtain ⟨htop, hdeep⟩ := hoperands
    simp only [Primitive.outputs, Primitive.signature, List.map_cons, List.map_nil,
      resolve_promote, denotes_var, Number.typeTag_pair_of_eq hdeep.symm htop.symm]
  | less | greater | equal | not => rfl
  | drop => rfl
  | dup =>
    obtain ⟨a, rfl⟩ := List.length_eq_one_iff.mp hlen
    simp only [Primitive.signature, List.map_cons, List.map_nil, List.cons.injEq, denotes_var,
      and_true] at hoperands hdeferred
    simp [Primitive.outputs, Primitive.signature, OutputType.resolve, hoperands, hdeferred]
  | swap | pick =>
    obtain ⟨b, a, rfl⟩ := List.length_eq_two.mp hlen
    simp only [Primitive.signature, List.map_cons, List.map_nil, List.cons.injEq, denotes_var,
      and_true] at hoperands hdeferred
    simp [Primitive.outputs, Primitive.signature, OutputType.resolve, hoperands, hdeferred]
  | rot =>
    obtain ⟨c, b, a, rfl⟩ := List.length_eq_three.mp hlen
    simp only [Primitive.signature, List.map_cons, List.map_nil, List.cons.injEq, denotes_var,
      and_true] at hoperands hdeferred
    simp [Primitive.outputs, Primitive.signature, OutputType.resolve, hoperands, hdeferred]

/-- A word takes its operands and leaves as many results as its stack effect says. -/
theorem length_results (h : IsWord name op) (hr : (op.action name).apply name data = .ok data') :
    op.signature.consumes.length ≤ data.length ∧
      data'.length + op.signature.consumes.length = data.length + op.signature.produces.length := by
  cases h with
  | add | sub | mul | div | minus =>
    obtain ⟨b, a, rest, y, x, out, rfl, -, -, hout, rfl⟩ := Action.apply_binary_iff.mp hr
    obtain ⟨n, -, rfl⟩ := numeric_eq_ok_iff.mp hout
    simp [Primitive.signature]
  | less | greater | equal | swap | pick =>
    obtain ⟨b, a, rest, y, x, out, rfl, -, -, hout, rfl⟩ := Action.apply_binary_iff.mp hr
    cases hout
    simp [Primitive.signature]
  | not | dup | drop =>
    obtain ⟨a, rest, x, out, rfl, -, hout, rfl⟩ := Action.apply_unary_iff.mp hr
    cases hout
    simp [Primitive.signature]
  | rot =>
    obtain ⟨c, b, a, rest, z, y, x, out, rfl, -, -, -, hout, rfl⟩ := Action.apply_trinary_iff.mp hr
    cases hout
    simp [Primitive.signature]

end IsWord

end Restack
