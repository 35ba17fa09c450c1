import Mathlib.Logic.Function.Basic
import Restack.FreshNames

/-!
# Fresh names do not repeat

A fresh name is a base, an underscore and a number. The base is arbitrary: it may have underscores
and digits of its own, and it may be a fresh name itself. Still the whole can be taken apart again,
because a number has no underscore in it: the last underscore ends the base, and the digits behind
it are those of one number only. So a fresh name tells both what it was made of and when it was
drawn, and a source that counts on has no way to give the same name twice.

Numbers have no bound here. A counter with one gives the same names for as long as it is not
exceeded, and `NameSource.freshAll_eq_mapIdx` says what it has to hold.

## Main definitions

* `NameSource.freshAll` — the names drawn for one base after another.

## Main results

* `NameSource.fresh_eq_iff` — when two fresh names are the same.
* `NameSource.freshAll_eq_mapIdx` — every name of a sequence, and the source after it.
* `NameSource.fresh_names_never_repeat` — the names of a sequence differ.
-/

namespace Restack

namespace NameSource

variable {m n : NameSource} {v w : String}

/-! ### One fresh name -/

theorem length_lt_fresh (names : NameSource) (base : String) :
    base.length < (names.fresh base).1.length := by
  simp only [fresh, String.length_append, show "_".length = 1 from rfl]
  omega

theorem toList_fresh (names : NameSource) (base : String) :
    (names.fresh base).1.toList = base.toList ++ '_' :: Nat.toDigits 10 names.next := by
  simp only [fresh, Nat.toString_eq_ofList_toDigits, String.toList_append, String.toList_ofList,
    List.append_assoc]
  rfl

/-- A number has no underscore in it, so the last one in a fresh name ends the old name. -/
theorem underscore_notMem_toDigits (n : Nat) : '_' ∉ Nat.toDigits 10 n := fun h =>
  absurd (Nat.isDigit_of_mem_toDigits (by decide) (by decide) h) (by decide)

/-- Different numbers have different digits. -/
theorem toDigits_injective : Function.Injective (Nat.toDigits 10) :=
  Function.LeftInverse.injective fun _ => Nat.ofDigitChars_toDigits (by decide) (by decide)

/-- There is one way only to take characters apart at their last underscore. -/
theorem append_underscore_inj {as bs ds es : List Char} (hds : '_' ∉ ds) (hes : '_' ∉ es)
    (h : as ++ '_' :: ds = bs ++ '_' :: es) : as = bs ∧ ds = es := by
  -- one of the two beginnings is the longer one, and what it has more is empty
  rcases List.append_eq_append_iff.mp h with ⟨rest, rfl, hrest⟩ | ⟨rest, rfl, hrest⟩
  · rcases List.cons_eq_append_iff.mp hrest with ⟨rfl, hsame⟩ | ⟨rest, rfl, rfl⟩
    · exact ⟨(List.append_nil as).symm, (List.cons.inj hsame).2.symm⟩
    · exact absurd (List.mem_append_right rest List.mem_cons_self) hds
  · rcases List.cons_eq_append_iff.mp hrest with ⟨rfl, hsame⟩ | ⟨rest, rfl, rfl⟩
    · exact ⟨List.append_nil bs, (List.cons.inj hsame).2⟩
    · exact absurd (List.mem_append_right rest List.mem_cons_self) hes

/-- **A fresh name tells what it was made of and when it was drawn.** Two are the same exactly when
both were derived from one base, with one number. -/
theorem fresh_eq_iff : (m.fresh v).1 = (n.fresh w).1 ↔ m = n ∧ v = w := by
  constructor
  · intro h
    have hchars := congrArg String.toList h
    rw [toList_fresh, toList_fresh] at hchars
    obtain ⟨hbase, hdigits⟩ := append_underscore_inj (underscore_notMem_toDigits m.next)
      (underscore_notMem_toDigits n.next) hchars
    have hnext : m.next = n.next := toDigits_injective hdigits
    exact ⟨congrArg NameSource.mk hnext, String.toList_inj.mp hbase⟩
  · rintro ⟨rfl, rfl⟩
    rfl

/-! ### One fresh name after another -/

/-- Draws a name for each of the bases in turn. -/
def freshAll (names : NameSource) : List String → List String × NameSource
  | [] => ([], names)
  | base :: bases =>
    let (name, later) := names.fresh base
    let (drawn, last) := later.freshAll bases
    (name :: drawn, last)

@[simp] theorem freshAll_nil (names : NameSource) : names.freshAll [] = ([], names) := rfl

@[simp] theorem freshAll_cons (names : NameSource) (base : String) (bases : List String) :
    names.freshAll (base :: bases) =
      ((names.fresh base).1 :: ((names.fresh base).2.freshAll bases).1,
        ((names.fresh base).2.freshAll bases).2) := rfl

/-- **The names that are drawn one after another**: each has the number that the source starts at
and one more for every name drawn before it, whatever the bases are. The source goes on with the
number behind the last one. -/
theorem freshAll_eq_mapIdx (names : NameSource) (bases : List String) :
    names.freshAll bases =
      (bases.mapIdx fun i base => (NameSource.fresh ⟨names.next + i⟩ base).1,
        ⟨names.next + bases.length⟩) := by
  induction bases generalizing names with
  | nil => rfl
  | cons base bases ih =>
    have hnumber : ∀ i, names.next + 1 + i = names.next + (i + 1) := fun i => by omega
    rw [freshAll_cons, ih, List.mapIdx_cons, List.length_cons]
    simp only [fresh, Nat.add_zero, hnumber]

/-- **Fresh names never repeat.** Whatever number a source starts at, and whatever the bases are,
the names that it gives one after another are pairwise different. -/
theorem fresh_names_never_repeat (names : NameSource) (bases : List String) :
    (names.freshAll bases).1.Nodup := by
  rw [freshAll_eq_mapIdx, List.Nodup, List.pairwise_iff_getElem]
  intro i j hi hj hij hsame
  rw [List.getElem_mapIdx, List.getElem_mapIdx, fresh_eq_iff, mk.injEq] at hsame
  omega

/-- A base that was given as a name before, and one that looks like such a name. -/
example : freshAll ⟨9⟩ ["a", "a_9", "a_9_1", "a"] = (["a_9", "a_9_10", "a_9_1_11", "a_12"], ⟨13⟩) :=
  rfl

end NameSource

end Restack
