import Mathlib.Data.List.Forall2
import Restack.Machine
import Restack.Vocabulary

/-!
# The fourteen words

Arithmetic, comparison, logic and the rearrangement of the stack exist in all four
vocabularies. What a word is in each of them follows from the primitive it stands for:
the strict operation itself, a check in front of it, a recorder behind the same check,
or a stack effect.

## Main definitions

* `IsWord name op` — `name` is one of the fourteen words and stands for `op`.
* `IsFree name` — no vocabulary knows `name`.
* `Cell.IsInert`, `Cell.IsPlain` — the cells that programs are made of: literals and
  free symbols, and words besides.
* `Primitive.outputs`, `Primitive.signature` — what the recording and the declared form
  of a word know about its results.

## Main results

* `isFree_iff` — a name is free if the strict vocabulary does not know it.
* `IsWord.resolve_strict`, `resolve_lenient`, `resolve_recording`, `resolve_declared` —
  what a word stands for in each mode.
* `IsWord.inputs_eq_replicate` — every word asks the same of all its operands.
* `Action.apply_append`, `Action.apply_frame` — an operation reads and replaces its
  operands only.
* `IsWord.mem_results` — where the results of a word come from.
-/

namespace Restack

/-! ### Lists related cell by cell -/

/-- What is related to two lists in a row is two lists in a row. -/
theorem forall₂_append_left {α β : Type} {R : α → β → Prop} {xs xs' : List α} {ys : List β}
    (h : List.Forall₂ R (xs ++ xs') ys) :
    ∃ zs zs', ys = zs ++ zs' ∧ List.Forall₂ R xs zs ∧ List.Forall₂ R xs' zs' := by
  induction xs generalizing ys with
  | nil => exact ⟨[], ys, rfl, .nil, h⟩
  | cons x xs ih =>
    cases h with
    | cons hx h =>
      obtain ⟨zs, zs', rfl, hzs, hzs'⟩ := ih h
      exact ⟨_ :: zs, zs', rfl, .cons hx hzs, hzs'⟩

theorem forall₂_append {α β : Type} {R : α → β → Prop} {xs xs' : List α} {ys ys' : List β}
    (h : List.Forall₂ R xs ys) (h' : List.Forall₂ R xs' ys') :
    List.Forall₂ R (xs ++ xs') (ys ++ ys') :=
  List.rel_append h h'

/-- Two relations one after the other. -/
theorem forall₂_comp {α β γ : Type} {R : α → β → Prop} {S : β → γ → Prop} {T : α → γ → Prop}
    (hrst : ∀ a b c, R a b → S b c → T a c) {xs : List α} {ys : List β} {zs : List γ}
    (hr : List.Forall₂ R xs ys) (hs : List.Forall₂ S ys zs) : List.Forall₂ T xs zs := by
  induction hr generalizing zs with
  | nil =>
    cases hs
    exact .nil
  | cons hab _ ih =>
    cases hs with
    | cons hbc hs => exact .cons (hrst _ _ _ hab hbc) (ih hs)

/-- Whatever is related to a list is related to one of its members. -/
theorem exists_of_forall₂ {α β : Type} {R : α → β → Prop} {xs : List α} {ys : List β}
    (h : List.Forall₂ R xs ys) {y : β} (hy : y ∈ ys) : ∃ x ∈ xs, R x y := by
  induction h with
  | nil => cases hy
  | cons hxy _ ih =>
    rcases List.mem_cons.mp hy with rfl | hy
    · exact ⟨_, List.mem_cons_self, hxy⟩
    · obtain ⟨x, hx, hxy⟩ := ih hy
      exact ⟨x, List.mem_cons_of_mem _ hx, hxy⟩

/-! ### Words and free symbols -/

/-- The fourteen words, and the primitives they stand for. -/
inductive IsWord : String → Primitive → Prop
  /-- The sum. -/
  | add : IsWord "+" .add
  /-- The difference. -/
  | sub : IsWord "-" .sub
  /-- The product. -/
  | mul : IsWord "*" .mul
  /-- The quotient. -/
  | div : IsWord "/" .div
  /-- The difference the other way round. -/
  | minus : IsWord "minus" .minus
  /-- Whether one number is below another. -/
  | less : IsWord "<" .less
  /-- Whether one number is above another. -/
  | greater : IsWord ">" .greater
  /-- Whether two cells are equal. -/
  | equal : IsWord "=" .equal
  /-- The opposite truth value. -/
  | not : IsWord "not" .not
  /-- The top cell twice. -/
  | dup : IsWord "dup" .dup
  /-- The top cell removed. -/
  | drop : IsWord "drop" .drop
  /-- The two top cells exchanged. -/
  | swap : IsWord "swap" .swap
  /-- A copy of the second cell. -/
  | pick : IsWord "over" .pick
  /-- The third cell brought to the top. -/
  | rot : IsWord "rot" .rot

/-- The words are those of arithmetic and those that rearrange the stack. -/
theorem isWord_iff {name : String} {op : Primitive} :
    IsWord name op ↔ (name, op) ∈ Vocabulary.arithmeticWords ++ Vocabulary.stackWords := by
  constructor
  · intro h
    cases h <;> decide
  · intro h
    simp only [Vocabulary.arithmeticWords, Vocabulary.stackWords, List.cons_append,
      List.nil_append, List.mem_cons, Prod.mk.injEq, List.not_mem_nil, or_false] at h
    rcases h with ⟨rfl, rfl⟩ | ⟨rfl, rfl⟩ | ⟨rfl, rfl⟩ | ⟨rfl, rfl⟩ | ⟨rfl, rfl⟩ | ⟨rfl, rfl⟩ |
      ⟨rfl, rfl⟩ | ⟨rfl, rfl⟩ | ⟨rfl, rfl⟩ | ⟨rfl, rfl⟩ | ⟨rfl, rfl⟩ | ⟨rfl, rfl⟩ | ⟨rfl, rfl⟩ |
      ⟨rfl, rfl⟩ <;> constructor

/-- No table of any mode knows the name. -/
def IsFree (name : String) : Prop := ∀ mode : Mode, mode.environment.resolve? name = none

theorem Table.get?_eq_none_iff {table : Table} {name : String} :
    table.get? name = none ↔ name ∉ table.entries.map Prod.fst := by
  rw [Table.get?, List.lookup_eq_none_iff, List.mem_map]
  constructor
  · rintro h ⟨entry, hentry, rfl⟩
    simpa using h entry hentry
  · intro h entry hentry
    simpa using fun hname : name = entry.1 => h ⟨entry, hentry, hname.symm⟩

/-- The strict vocabulary knows every name that some vocabulary knows. -/
theorem isFree_iff {name : String} :
    IsFree name ↔ Mode.strict.environment.resolve? name = none := by
  refine ⟨fun h => h .strict, fun h mode => ?_⟩
  have hstrict : name ∉ Vocabulary.strict.entries.map Prod.fst :=
    Table.get?_eq_none_iff.mp (List.findSome?_eq_none_iff.mp h _ List.mem_cons_self)
  refine List.findSome?_eq_none_iff.mpr fun table htable => Table.get?_eq_none_iff.mpr ?_
  have hsubset : ∀ table ∈ mode.environment.tables,
      ∀ n ∈ table.entries.map Prod.fst, n ∈ Vocabulary.strict.entries.map Prod.fst := by
    cases mode <;> decide
  exact fun hname => hstrict (hsubset table htable name hname)

/-- A cell that every mode pushes as data: a literal, or a symbol that no table knows. -/
inductive Cell.IsInert : Cell → Prop
  /-- A literal. -/
  | literal {c : Cell} (h : c.valueType.isSome = true) : Cell.IsInert c
  /-- A symbol that no table knows. -/
  | free {name : String} (h : IsFree name) : Cell.IsInert (.symbol name)

/-- A cell of a program: a literal, a symbol that no table knows, or a word. -/
inductive Cell.IsPlain : Cell → Prop
  /-- A literal, or a symbol that no table knows. -/
  | inert {c : Cell} (h : c.IsInert) : Cell.IsPlain c
  /-- One of the fourteen words. -/
  | word {name : String} {op : Primitive} (h : IsWord name op) : Cell.IsPlain (.symbol name)

/-- Whether a cell is one of the words. -/
def Cell.isWord : Cell → Bool
  | .symbol name => (Vocabulary.arithmeticWords ++ Vocabulary.stackWords).any (·.1 == name)
  | _ => false

theorem Cell.isWord_eq_true_iff {c : Cell} :
    c.isWord = true ↔ ∃ name op, IsWord name op ∧ c = .symbol name := by
  constructor
  · intro h
    cases c with
    | symbol name =>
      obtain ⟨⟨name', op⟩, hmem, heq⟩ := List.any_eq_true.mp h
      obtain rfl : name' = name := by simpa using heq
      exact ⟨name', op, isWord_iff.mpr hmem, rfl⟩
    | _ => cases h
  · rintro ⟨name, op, hw, rfl⟩
    exact List.any_eq_true.mpr ⟨(name, op), isWord_iff.mp hw, by simp⟩

theorem IsWord.isWord {name : String} {op : Primitive} (h : IsWord name op) :
    (Cell.symbol name).isWord = true :=
  Cell.isWord_eq_true_iff.mpr ⟨name, op, h, rfl⟩

/-- A cell with a type is no word. -/
theorem Cell.isWord_of_deferredType {c : Cell} (h : c.deferredType.isSome = true) :
    c.isWord = false := by
  cases c with
  | symbol name => cases h
  | _ => rfl

/-- A literal is neither a symbol nor an instruction, so nothing is looked up. -/
theorem lookup_of_valueType (env : Environment) {c : Cell} (h : c.valueType.isSome = true) :
    env.lookup c = none := by
  cases c with
  | symbol name => cases h
  | instruction op => cases h
  | _ => rfl

theorem Cell.IsInert.lookup {c : Cell} (h : c.IsInert) (mode : Mode) :
    mode.environment.lookup c = none := by
  cases h with
  | literal h => exact lookup_of_valueType _ h
  | free h => exact h mode

/-! ### What a word stands for in each mode -/

/-- The types that the record of a word gives its results, top first. -/
def Primitive.outputs : Primitive → List OutputType
  | .add | .sub | .mul | .div | .minus => [.promote]
  | .less | .greater | .equal | .not => [.fixed .bool]
  | .dup => [.sameAs 0, .sameAs 0]
  | .swap => [.sameAs 1, .sameAs 0]
  | .pick => [.sameAs 1, .sameAs 0, .sameAs 1]
  | .rot => [.sameAs 2, .sameAs 0, .sameAs 1]
  | _ => []

/-- The stack effect of a word, both sides top first. -/
def Primitive.signature : Primitive → Signature
  | .add | .sub | .mul | .div | .minus => ⟨[.var "n", .var "n"], [.var "n"]⟩
  | .less | .greater | .equal => ⟨[.var "a", .var "a"], [.type .bool]⟩
  | .not => ⟨[.type .bool], [.type .bool]⟩
  | .dup => ⟨[.var "a"], [.var "a", .var "a"]⟩
  | .drop => ⟨[.var "a"], []⟩
  | .swap => ⟨[.var "a", .var "b"], [.var "b", .var "a"]⟩
  | .pick => ⟨[.var "a", .var "b"], [.var "b", .var "a", .var "b"]⟩
  | .rot => ⟨[.var "a", .var "b", .var "c"], [.var "c", .var "a", .var "b"]⟩
  | _ => ⟨[], []⟩

namespace IsWord

variable {name : String} {op : Primitive}

theorem resolve_strict (h : IsWord name op) :
    Mode.strict.environment.resolve? name = some (.strict name op) := by
  cases h <;> rfl

theorem resolve_lenient (h : IsWord name op) :
    Mode.nonStrict.environment.resolve? name =
      some (.checked op.inputs false (.strict name op)) := by
  cases h <;> rfl

theorem resolve_recording (h : IsWord name op) :
    Mode.reorder.environment.resolve? name = some (.recording name op.inputs op.outputs) := by
  cases h <;> rfl

theorem resolve_declared (h : IsWord name op) :
    Mode.infer.environment.resolve? name =
      some (.declared name op.signature.consumes op.signature.produces) := by
  cases h <;> rfl

/-- **A word asks the same of all its operands.** -/
theorem inputs_eq_replicate (h : IsWord name op) :
    ∃ required, op.inputs = List.replicate op.inputs.length required := by
  cases h with
  | add | sub | mul | div | minus | less | greater => exact ⟨.num, rfl⟩
  | equal | dup | drop | swap | pick | rot => exact ⟨.any, rfl⟩
  | not => exact ⟨.bool, rfl⟩

/-- Whatever a word asks of an operand, it asks of the topmost one. -/
theorem head?_inputs (h : IsWord name op) {required : TypeTag} (hr : required ∈ op.inputs) :
    op.inputs.head? = some required := by
  obtain ⟨tag, htag⟩ := h.inputs_eq_replicate
  rw [htag] at hr ⊢
  obtain rfl := List.eq_of_mem_replicate hr
  cases hlen : op.inputs.length with
  | zero => rw [hlen] at hr; cases hr
  | succ k => rfl

theorem length_inputs_action (h : IsWord name op) :
    (op.action name).inputs.length = op.inputs.length := by
  cases h <;> rfl

theorem length_consumes (h : IsWord name op) :
    op.signature.consumes.length = (op.action name).inputs.length := by
  cases h <;> rfl

end IsWord

/-! ### Strict operations on the data -/

/-- A computation in two parts succeeds exactly when both parts do. -/
theorem bind_eq_ok_iff {ε α β : Type} {x : Except ε α} {f : α → Except ε β} {b : β} :
    x >>= f = .ok b ↔ ∃ a, x = .ok a ∧ f a = .ok b := by
  cases x with
  | error e => exact ⟨nofun, fun ⟨_, h, _⟩ => nomatch h⟩
  | ok a => exact ⟨fun h => ⟨a, rfl, h⟩, fun ⟨_, ha, h⟩ => by cases ha; exact h⟩

theorem map_eq_ok_iff {ε α β : Type} {x : Except ε α} {f : α → β} {b : β} :
    x.map f = .ok b ↔ ∃ a, x = .ok a ∧ f a = b := by
  cases x with
  | error e => exact ⟨nofun, fun ⟨_, h, _⟩ => nomatch h⟩
  | ok a => exact ⟨fun h => ⟨a, rfl, Except.ok.inj h⟩, fun ⟨_, ha, h⟩ => by cases ha; rw [← h]; rfl⟩

/-- A computation in two parts that fails does so in one of them. -/
theorem bind_eq_error {ε α β : Type} {x : Except ε α} {f : α → Except ε β} {e : ε}
    (h : x >>= f = .error e) : x = .error e ∨ ∃ a, x = .ok a ∧ f a = .error e := by
  cases x with
  | error e' => cases h; exact .inl rfl
  | ok a => exact .inr ⟨a, rfl, h⟩

/-- An operand is taken exactly when it can be read. -/
theorem Kind.take_eq_ok_iff {k : Kind} {name : String} {c : Cell} {v : k.Value} :
    k.take name c = .ok v ↔ k.read? c = some v := by
  rw [Kind.take]
  cases k.read? c with
  | none => simp
  | some w => simp

/-- An operand that cannot be taken is reported as mistyped. -/
theorem Kind.take_eq_error {k : Kind} {name : String} {c : Cell} {e : EngineError}
    (h : k.take name c = .error e) : e = .typeMismatch name k.tag c := by
  rw [Kind.take] at h
  cases hread : k.read? c with
  | none => rw [hread] at h; exact (Except.error.inj h).symm
  | some v => rw [hread] at h; cases h

namespace Action

variable {name : String} {data data' : Stack}

theorem apply_unary_iff {x : Kind} {f : x.Value → Results} :
    (unary x f).apply name data = .ok data' ↔
      ∃ a rest u out, data = a :: rest ∧ x.read? a = some u ∧ f u = .ok out ∧
        data' = out ++ rest := by
  constructor
  · intro h
    match data, h with
    | a :: rest, h =>
      obtain ⟨u, hu, h⟩ := bind_eq_ok_iff.mp h
      obtain ⟨out, hout, h⟩ := bind_eq_ok_iff.mp h
      exact ⟨a, rest, u, out, rfl, Kind.take_eq_ok_iff.mp hu, hout, (Except.ok.inj h).symm⟩
  · rintro ⟨a, rest, u, out, rfl, hu, hout, rfl⟩
    exact bind_eq_ok_iff.mpr ⟨u, Kind.take_eq_ok_iff.mpr hu,
      bind_eq_ok_iff.mpr ⟨out, hout, rfl⟩⟩

theorem apply_binary_iff {x y : Kind} {f : x.Value → y.Value → Results} :
    (binary x y f).apply name data = .ok data' ↔
      ∃ b a rest v u out, data = b :: a :: rest ∧ y.read? b = some v ∧ x.read? a = some u ∧
        f u v = .ok out ∧ data' = out ++ rest := by
  constructor
  · intro h
    match data, h with
    | b :: a :: rest, h =>
      obtain ⟨v, hv, h⟩ := bind_eq_ok_iff.mp h
      obtain ⟨u, hu, h⟩ := bind_eq_ok_iff.mp h
      obtain ⟨out, hout, h⟩ := bind_eq_ok_iff.mp h
      exact ⟨b, a, rest, v, u, out, rfl, Kind.take_eq_ok_iff.mp hv, Kind.take_eq_ok_iff.mp hu,
        hout, (Except.ok.inj h).symm⟩
  · rintro ⟨b, a, rest, v, u, out, rfl, hv, hu, hout, rfl⟩
    exact bind_eq_ok_iff.mpr ⟨v, Kind.take_eq_ok_iff.mpr hv,
      bind_eq_ok_iff.mpr ⟨u, Kind.take_eq_ok_iff.mpr hu, bind_eq_ok_iff.mpr ⟨out, hout, rfl⟩⟩⟩

theorem apply_trinary_iff {x y z : Kind} {f : x.Value → y.Value → z.Value → Results} :
    (trinary x y z f).apply name data = .ok data' ↔
      ∃ c b a rest w v u out, data = c :: b :: a :: rest ∧ z.read? c = some w ∧
        y.read? b = some v ∧ x.read? a = some u ∧ f u v w = .ok out ∧ data' = out ++ rest := by
  constructor
  · intro h
    match data, h with
    | c :: b :: a :: rest, h =>
      obtain ⟨w, hw, h⟩ := bind_eq_ok_iff.mp h
      obtain ⟨v, hv, h⟩ := bind_eq_ok_iff.mp h
      obtain ⟨u, hu, h⟩ := bind_eq_ok_iff.mp h
      obtain ⟨out, hout, h⟩ := bind_eq_ok_iff.mp h
      exact ⟨c, b, a, rest, w, v, u, out, rfl, Kind.take_eq_ok_iff.mp hw,
        Kind.take_eq_ok_iff.mp hv, Kind.take_eq_ok_iff.mp hu, hout, (Except.ok.inj h).symm⟩
  · rintro ⟨c, b, a, rest, w, v, u, out, rfl, hw, hv, hu, hout, rfl⟩
    exact bind_eq_ok_iff.mpr ⟨w, Kind.take_eq_ok_iff.mpr hw, bind_eq_ok_iff.mpr ⟨v,
      Kind.take_eq_ok_iff.mpr hv, bind_eq_ok_iff.mpr ⟨u, Kind.take_eq_ok_iff.mpr hu,
        bind_eq_ok_iff.mpr ⟨out, hout, rfl⟩⟩⟩⟩

/-- With too few cells on the data, an operation reports how many there are. -/
theorem apply_eq_arity (action : Action) (h : data.length < action.inputs.length) :
    action.apply name data = .error (.arity name action.inputs.length data.length) := by
  cases action with
  | nullary r => exact absurd h (Nat.not_lt_zero _)
  | unary x f =>
    match data, h with
    | [], _ => rfl
  | binary x y f =>
    match data, h with
    | [], _ => rfl
    | [_], _ => rfl
  | trinary x y z f =>
    match data, h with
    | [], _ => rfl
    | [_], _ => rfl
    | [_, _], _ => rfl

/-- What the function of an operation gives for some operands. -/
def Yields : Action → Results → Prop
  | nullary results, r => results = r
  | unary _ f, r => ∃ u, f u = r
  | binary _ _ f, r => ∃ u v, f u v = r
  | trinary _ _ _ f, r => ∃ u v w, f u v w = r

/-- With enough cells on the data, an operation fails over a mistyped operand or as its function
does. -/
theorem error_cases (action : Action) (h : action.inputs.length ≤ data.length) {e : EngineError}
    (he : action.apply name data = .error e) :
    (∃ required c, e = .typeMismatch name required c) ∨ action.Yields (.error e) := by
  -- putting the results on the data does not fail
  have hresults : ∀ {r : Results} {rest : Stack},
      (r >>= fun out => pure (out ++ rest)) = .error e → r = .error e := by
    intro r rest hr
    rcases bind_eq_error hr with hr | ⟨out, -, hout⟩
    · exact hr
    · cases hout
  cases action with
  | nullary r => exact .inr (hresults he)
  | unary x f =>
    match data, h with
    | a :: rest, _ =>
      rcases bind_eq_error he with ha | ⟨u, -, he⟩
      · exact .inl ⟨_, _, Kind.take_eq_error ha⟩
      · exact .inr ⟨u, hresults he⟩
  | binary x y f =>
    match data, h with
    | b :: a :: rest, _ =>
      rcases bind_eq_error he with hb | ⟨v, -, he⟩
      · exact .inl ⟨_, _, Kind.take_eq_error hb⟩
      rcases bind_eq_error he with ha | ⟨u, -, he⟩
      · exact .inl ⟨_, _, Kind.take_eq_error ha⟩
      · exact .inr ⟨u, v, hresults he⟩
  | trinary x y z f =>
    match data, h with
    | c :: b :: a :: rest, _ =>
      rcases bind_eq_error he with hc | ⟨w, -, he⟩
      · exact .inl ⟨_, _, Kind.take_eq_error hc⟩
      rcases bind_eq_error he with hb | ⟨v, -, he⟩
      · exact .inl ⟨_, _, Kind.take_eq_error hb⟩
      rcases bind_eq_error he with ha | ⟨u, -, he⟩
      · exact .inl ⟨_, _, Kind.take_eq_error ha⟩
      · exact .inr ⟨u, v, w, hresults he⟩

/-- **An operation reads and replaces its operands, and leaves the data beneath them alone.** -/
theorem apply_append (action : Action) {operands : List Cell}
    (h : operands.length = action.inputs.length) (rest : Stack) :
    action.apply name (operands ++ rest) = (action.apply name operands).map (· ++ rest) := by
  -- whatever fails, fails in both; otherwise the results stand over nothing, or over `rest`
  have hresults : ∀ r : Results, (r >>= fun out => pure (out ++ rest)) =
      Except.map (· ++ rest) (r >>= fun out => pure (out ++ [])) := by
    intro r
    cases r with
    | error e => rfl
    | ok out => exact congrArg Except.ok (by rw [List.append_nil])
  cases action with
  | nullary r =>
    obtain rfl := List.length_eq_zero_iff.mp h
    exact hresults r
  | unary x f =>
    match operands, h with
    | [a], _ =>
      change (x.take name a >>= fun u => f u >>= fun out => pure (out ++ rest)) =
        Except.map (· ++ rest) (x.take name a >>= fun u => f u >>= fun out => pure (out ++ []))
      cases x.take name a with
      | error e => rfl
      | ok u => exact hresults (f u)
  | binary x y f =>
    match operands, h with
    | [b, a], _ =>
      change (y.take name b >>= fun v => x.take name a >>= fun u => f u v >>= fun out =>
          pure (out ++ rest)) =
        Except.map (· ++ rest) (y.take name b >>= fun v => x.take name a >>= fun u => f u v >>=
          fun out => pure (out ++ []))
      cases y.take name b with
      | error e => rfl
      | ok v =>
        cases x.take name a with
        | error e => rfl
        | ok u => exact hresults (f u v)
  | trinary x y z f =>
    match operands, h with
    | [c, b, a], _ =>
      change (z.take name c >>= fun w => y.take name b >>= fun v => x.take name a >>= fun u =>
          f u v w >>= fun out => pure (out ++ rest)) =
        Except.map (· ++ rest) (z.take name c >>= fun w => y.take name b >>= fun v =>
          x.take name a >>= fun u => f u v w >>= fun out => pure (out ++ []))
      cases z.take name c with
      | error e => rfl
      | ok w =>
        cases y.take name b with
        | error e => rfl
        | ok v =>
          cases x.take name a with
          | error e => rfl
          | ok u => exact hresults (f u v w)

/-- An operation that succeeds does the same with more data beneath. -/
theorem apply_frame (action : Action) (h : action.apply name data = .ok data') (beneath : Stack) :
    action.apply name (data ++ beneath) = .ok (data' ++ beneath) := by
  have hlen : action.inputs.length ≤ data.length := by
    by_contra hlt
    rw [apply_eq_arity action (Nat.lt_of_not_le hlt)] at h
    cases h
  have htake : (data.take action.inputs.length).length = action.inputs.length :=
    List.length_take_of_le hlen
  have hsplit : data = data.take action.inputs.length ++ data.drop action.inputs.length :=
    (List.take_append_drop _ _).symm
  rw [hsplit, apply_append action htake] at h
  rw [hsplit, List.append_assoc, apply_append action htake]
  cases hr : action.apply name (data.take action.inputs.length) with
  | error e => rw [hr] at h; cases h
  | ok out =>
    rw [hr] at h
    cases h
    exact congrArg Except.ok (List.append_assoc _ _ _).symm

end Action

/-! ### The results of a word -/

/-- The result of arithmetic is a number. -/
theorem numeric_eq_ok_iff {name : String} {r : Except Number.Fault Number} {out : List Cell} :
    numeric name r = .ok out ↔ ∃ n, r = .ok n ∧ out = [n.toCell] := by
  cases r with
  | error fault => exact ⟨nofun, fun ⟨_, h, _⟩ => nomatch h⟩
  | ok n =>
    constructor
    · intro h
      exact ⟨n, rfl, (Except.ok.inj h).symm⟩
    · rintro ⟨m, hm, rfl⟩
      cases hm
      rfl

theorem numeric_ne_arity {name instruction : String} {expected found : Nat}
    (r : Except Number.Fault Number) :
    numeric name r ≠ .error (.arity instruction expected found) := by
  cases r with
  | error fault => cases fault <;> exact nofun
  | ok n => exact nofun

namespace IsWord

variable {name : String} {op : Primitive} {data data' : Stack}

/-- **The cells after a word are cells from before it, numbers and truth values.** -/
theorem mem_results (h : IsWord name op) (hr : (op.action name).apply name data = .ok data')
    {c : Cell} (hc : c ∈ data') :
    c ∈ data ∨ (∃ n : Number, c = n.toCell) ∨ ∃ b, c = .bool b := by
  cases h with
  | add | sub | mul | div | minus =>
    obtain ⟨b, a, rest, v, u, out, rfl, -, -, hout, rfl⟩ := Action.apply_binary_iff.mp hr
    obtain ⟨n, -, rfl⟩ := numeric_eq_ok_iff.mp hout
    grind
  | less | greater | equal =>
    obtain ⟨b, a, rest, v, u, out, rfl, -, -, hout, rfl⟩ := Action.apply_binary_iff.mp hr
    cases hout
    grind
  | not =>
    obtain ⟨a, rest, u, out, rfl, -, hout, rfl⟩ := Action.apply_unary_iff.mp hr
    cases hout
    grind
  | dup | drop =>
    obtain ⟨a, rest, u, out, rfl, hu, hout, rfl⟩ := Action.apply_unary_iff.mp hr
    cases hu
    cases hout
    grind
  | swap | pick =>
    obtain ⟨b, a, rest, v, u, out, rfl, hv, hu, hout, rfl⟩ := Action.apply_binary_iff.mp hr
    cases hv
    cases hu
    cases hout
    grind
  | rot =>
    obtain ⟨c, b, a, rest, w, v, u, out, rfl, hw, hv, hu, hout, rfl⟩ :=
      Action.apply_trinary_iff.mp hr
    cases hw
    cases hv
    cases hu
    cases hout
    grind

/-- With enough cells on the data, a word does not complain about their number. -/
theorem apply_ne_arity (h : IsWord name op) (hlen : op.inputs.length ≤ data.length)
    (instruction : String) (expected found : Nat) :
    (op.action name).apply name data ≠ .error (.arity instruction expected found) := by
  intro he
  rw [← h.length_inputs_action] at hlen
  rcases (op.action name).error_cases hlen he with ⟨required, c, hmis⟩ | hy
  · cases hmis
  · cases h with
    | add | sub | mul | div | minus =>
      obtain ⟨u, v, huv⟩ := hy
      exact numeric_ne_arity _ huv
    | less | greater | equal | swap | pick =>
      obtain ⟨u, v, huv⟩ := hy
      cases huv
    | not | dup | drop =>
      obtain ⟨u, hu⟩ := hy
      cases hu
    | rot =>
      obtain ⟨u, v, w, huvw⟩ := hy
      cases huvw

end IsWord

end Restack
