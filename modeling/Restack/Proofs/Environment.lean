import Restack.Proofs.Words

/-!
# Environments in which names were bound

A program binds names in the first table, which is asked first. So an environment answers
with the latest binding of a name, and with what it answered at the beginning for every
other name.

## Main definitions

* `Environment.GrownFrom` — an environment after a program has bound names in it.

## Main results

* `Environment.resolve?_define` — what a name stands for once a name was bound.
* `Environment.GrownFrom.lookup_cases` — what a code cell stands for after many bindings.
* `mem_of_get?_ofList`, `strict_cases`, `recording_cases`, `lenient_cases` — where the instructions
  of a vocabulary come from.
-/

namespace Restack

variable {name other : String} {op : Instruction}

/-! ### Tables -/

/-- The first entry of a list answers for its name. -/
theorem lookup_cons_eq (name other : String) (op : Instruction)
    (entries : List (String × Instruction)) :
    ((name, op) :: entries).lookup other =
      if other = name then some op else entries.lookup other := by
  rw [List.lookup_cons]
  by_cases h : other = name
  · rw [if_pos h, beq_iff_eq.mpr h]
  · rw [if_neg h, beq_eq_false_iff_ne.mpr h]

theorem Table.lookup_insertEntry (name other : String) (op : Instruction)
    (entries : List (String × Instruction)) :
    (Table.insertEntry name op entries).lookup other =
      if other = name then some op else entries.lookup other := by
  induction entries with
  | nil => exact lookup_cons_eq name other op []
  | cons entry entries ih =>
    obtain ⟨n, o⟩ := entry
    rw [Table.insertEntry, lookup_cons_eq n]
    by_cases hn : n = name
    · subst hn
      rw [if_pos rfl, lookup_cons_eq]
      split <;> rfl
    · rw [if_neg hn, lookup_cons_eq, ih]
      by_cases h : other = n
      · subst h
        rw [if_pos rfl, if_neg hn, if_pos rfl]
      · rw [if_neg h, if_neg h]

/-- A table answers with the latest entry for a name. -/
theorem Table.get?_insert (table : Table) (name other : String) (op : Instruction) :
    (table.insert name op).get? other = if other = name then some op else table.get? other :=
  Table.lookup_insertEntry name other op table.entries

/-- Every answer of a table is one of the instructions it was made of, asked for by its name. -/
theorem mem_of_get?_ofList {ops : List Instruction} (h : (Table.ofList ops).get? name = some op) :
    op ∈ ops ∧ op.name = name := by
  -- either an instruction was added, or the table knew the answer before
  have hadd : ∀ (ops : List Instruction) (table : Table),
      (ops.foldl Table.add table).get? name = some op →
        (op ∈ ops ∧ op.name = name) ∨ table.get? name = some op := by
    intro ops
    induction ops with
    | nil => exact fun table h => .inr h
    | cons o ops ih =>
      intro table h
      rcases ih _ h with ⟨hmem, hname⟩ | h
      · exact .inl ⟨List.mem_cons_of_mem o hmem, hname⟩
      · rw [Table.add, Table.get?_insert] at h
        split at h
        · cases h
          exact .inl ⟨List.mem_cons_self, Eq.symm ‹_›⟩
        · exact .inr h
  rcases hadd ops {} h with hop | h
  · exact hop
  · cases h

/-! ### The vocabularies -/

/-- A strict instruction is a word or steers the run. -/
theorem strict_cases (h : Vocabulary.strict.get? name = some op) :
    (∃ prim, IsWord name prim ∧ op = .strict name prim) ∨ op ∈ Vocabulary.controlOps := by
  obtain ⟨hmem, rfl⟩ := mem_of_get?_ofList h
  rcases List.mem_append.mp hmem with hmem | hmem
  · obtain ⟨⟨word, prim⟩, hword, rfl⟩ := List.mem_map.mp hmem
    exact .inl ⟨prim, isWord_iff.mpr hword, rfl⟩
  · exact .inr hmem

/-- A lenient instruction is a word behind a check. -/
theorem lenient_cases (h : Vocabulary.lenient.get? name = some op) :
    ∃ prim, IsWord name prim ∧ op = .checked prim.inputs false (.strict name prim) := by
  obtain ⟨hmem, rfl⟩ := mem_of_get?_ofList h
  obtain ⟨⟨word, prim⟩, hword, rfl⟩ := List.mem_map.mp hmem
  exact ⟨prim, isWord_iff.mpr hword, rfl⟩

/-- A recording instruction is a recorder behind a check, or records an assignment. -/
theorem recording_cases (h : Vocabulary.recording.get? name = some op) :
    (∃ word inputs outputs, op = .recording word inputs outputs) ∨
      op = .control .assignRecorded := by
  obtain ⟨hmem, -⟩ := mem_of_get?_ofList h
  rcases List.mem_append.mp hmem with hmem | hmem
  · left
    simp only [Vocabulary.recordingArithmeticOps, Vocabulary.recordingStackOps, List.mem_append,
      List.mem_map, List.mem_cons, List.not_mem_nil, or_false] at hmem
    rcases hmem with ((⟨word, -, rfl⟩ | ⟨word, -, rfl⟩) | rfl | rfl) | rfl | rfl | rfl | rfl | rfl
    all_goals exact ⟨_, _, _, rfl⟩
  · exact .inr (List.mem_singleton.mp hmem)

/-! ### Environments -/

namespace Environment

/-- **A name stands for what it was bound to last.** -/
theorem resolve?_define (env : Environment) (name other : String) (op : Instruction) :
    (env.define name op).resolve? other = if other = name then some op else env.resolve? other := by
  obtain ⟨tables, names, supplied⟩ := env
  cases tables with
  | nil =>
    have hempty : ({} : Table).get? other = none := rfl
    rw [define, resolve?, resolve?, List.findSome?_cons, Table.get?_insert, hempty]
    by_cases h : other = name <;> simp [h]
  | cons first rest =>
    rw [define, resolve?, resolve?, List.findSome?_cons, List.findSome?_cons, Table.get?_insert]
    by_cases h : other = name <;> simp [h]

/-- An environment after a program has bound names in it, to cells with some property. -/
inductive GrownFrom (P : Cell → Prop) (base : Environment) : Environment → Prop
  /-- No name was bound. -/
  | base : GrownFrom P base base
  /-- One more name was bound. -/
  | define {env : Environment} (h : GrownFrom P base env) (name : String) {value : Cell}
    (hvalue : P value) : GrownFrom P base (env.define name (.defined name value))

variable {P : Cell → Prop} {base env : Environment}

/-- A name stands for what it stood for at the beginning, or was bound since. -/
theorem GrownFrom.resolve_cases (h : GrownFrom P base env) (hop : env.resolve? name = some op) :
    base.resolve? name = some op ∨ ∃ value, P value ∧ op = .defined name value := by
  induction h with
  | base => exact .inl hop
  | @define env h bound value hvalue ih =>
    rw [resolve?_define] at hop
    split at hop
    · subst name
      cases hop
      exact .inr ⟨value, hvalue, rfl⟩
    · exact ih hop

/-- A code cell stands for what it stood for at the beginning, or its name was bound since. -/
theorem GrownFrom.lookup_cases (h : GrownFrom P base env) {c : Cell}
    (hop : env.lookup c = some op) :
    base.lookup c = some op ∨ ∃ name value, P value ∧ op = .defined name value := by
  cases c with
  | symbol name =>
    rcases h.resolve_cases hop with hop | ⟨value, hvalue, rfl⟩
    · exact .inl hop
    · exact .inr ⟨name, value, hvalue, rfl⟩
  | instruction op' => exact .inl hop
  | _ => cases hop

end Environment

end Restack
