import Mathlib.Data.List.Forall2
import Restack.Cell.Equality

/-!
# Laws of cell equality

Equality of cells is symmetric and transitive, and it is reflexive on cells in which no
float is a NaN. All three rest on the same laws of floats, and those on a comparison of
sign, exponent and mantissa.

## Main definitions

* `Cell.noNaN`, `Cell.noNaNList`, `Cell.noNaNBindings` — no float in sight of
  equality is a NaN. Instructions are compared by name, so nothing inside them is in
  sight.

## Main results

* `Cell.beq_symm`, `Cell.beq_trans` — equality is symmetric and transitive.
* `Cell.beq_self` — equality is reflexive where there is no NaN.
-/

namespace Restack

open Float.Model

/-! ### Floats -/

/-- Two finite floats are equal exactly when their parts are. -/
theorem finite_beq_finite {s t : UnpackedFloat.Sign} {m n : Nat} {e f : Int} {hm : 0 < m}
    {hn : 0 < n} :
    (UnpackedFloat.finite s m e hm).beq (.finite t n f hn) = true ↔ s = t ∧ e = f ∧ m = n := by
  have hparts : (compare e f).then (compare m n) = .eq ↔ e = f ∧ m = n := by
    rw [Ordering.then_eq_eq, Int.compare_eq_eq, Nat.compare_eq_eq]
  cases s with
  | positive =>
    cases t with
    | positive =>
      change (some ((compare e f).then (compare m n)) == some .eq) = true ↔ _
      simp [hparts]
    | negative => exact ⟨nofun, fun h => nomatch h.1⟩
  | negative =>
    cases t with
    | positive => exact ⟨nofun, fun h => nomatch h.1⟩
    | negative =>
      change (some ((compare e f).then (compare m n)).swap == some .eq) = true ↔ _
      simp [hparts]

theorem unpacked_beq_self {a : UnpackedFloat} (h : a.isNaN = false) : a.beq a = true := by
  cases a with
  | infinity s => cases s <;> rfl
  | notANumber => exact absurd h (by decide)
  | zero s => rfl
  | finite s m e hm => exact finite_beq_finite.mpr ⟨rfl, rfl, rfl⟩

theorem unpacked_beq_comm (a b : UnpackedFloat) : a.beq b = b.beq a := by
  cases a with
  | infinity s =>
    cases b with
    | infinity t => cases s <;> cases t <;> rfl
    | notANumber => cases s <;> rfl
    | zero t => cases s <;> rfl
    | finite t n f hn => cases s <;> cases t <;> rfl
  | notANumber =>
    cases b with
    | infinity t => cases t <;> rfl
    | notANumber => rfl
    | zero t => rfl
    | finite t n f hn => rfl
  | zero s =>
    cases b with
    | infinity t => cases t <;> rfl
    | notANumber => rfl
    | zero t => rfl
    | finite t n f hn => cases t <;> rfl
  | finite s m e hm =>
    cases b with
    | infinity t => cases s <;> cases t <;> rfl
    | notANumber => rfl
    | zero t => cases s <;> rfl
    | finite t n f hn =>
      rw [Bool.eq_iff_iff, finite_beq_finite, finite_beq_finite]
      constructor
      · rintro ⟨hs, he, hm⟩; exact ⟨hs.symm, he.symm, hm.symm⟩
      · rintro ⟨hs, he, hm⟩; exact ⟨hs.symm, he.symm, hm.symm⟩

theorem unpacked_beq_trans {a b c : UnpackedFloat} (hab : a.beq b = true)
    (hbc : b.beq c = true) : a.beq c = true := by
  cases b with
  | infinity t =>
    cases a with
    | infinity s =>
      obtain rfl : s = t := by cases s <;> cases t <;> trivial
      exact hbc
    | notANumber => cases t <;> cases hab
    | zero s => cases t <;> cases hab
    | finite s m e hm => cases s <;> cases t <;> cases hab
  | notANumber => rw [unpacked_beq_comm] at hab; cases a <;> cases hab
  | zero t =>
    -- the two zeros are equal, whatever their signs
    cases a with
    | infinity s => cases s <;> cases hab
    | notANumber => cases hab
    | zero s =>
      cases c with
      | infinity u => cases u <;> cases hbc
      | notANumber => cases hbc
      | zero u => rfl
      | finite u p g hp => cases u <;> cases hbc
    | finite s m e hm => cases s <;> cases hab
  | finite t n f hn =>
    cases a with
    | infinity s => cases s <;> cases t <;> cases hab
    | notANumber => cases hab
    | zero s => cases t <;> cases hab
    | finite s m e hm =>
      obtain ⟨rfl, rfl, rfl⟩ := finite_beq_finite.mp hab
      exact hbc

/-- A double that is not a NaN equals itself. -/
theorem double_beq_self {a : Float} (h : a.isNaN = false) : (a == a) = true :=
  unpacked_beq_self h

/-- A single-precision float that is not a NaN equals itself. -/
theorem single_beq_self {a : Float32} (h : a.isNaN = false) : (a == a) = true :=
  unpacked_beq_self h

theorem double_beq_comm (a b : Float) : (a == b) = (b == a) := unpacked_beq_comm _ _

theorem single_beq_comm (a b : Float32) : (a == b) = (b == a) := unpacked_beq_comm _ _

theorem double_beq_trans {a b c : Float} (hab : (a == b) = true) (hbc : (b == c) = true) :
    (a == c) = true := unpacked_beq_trans hab hbc

theorem single_beq_trans {a b c : Float32} (hab : (a == b) = true) (hbc : (b == c) = true) :
    (a == c) = true := unpacked_beq_trans hab hbc

/-! ### Cells without a NaN -/

mutual

/-- Whether no float in sight of equality is a NaN. -/
def Cell.noNaN : Cell → Bool
  | .float v => !v.isNaN
  | .double v => !v.isNaN
  | .quotation code => Cell.noNaNList code
  | .continuation code => Cell.noNaNList code
  | .defer record _ => Cell.noNaNList record
  | .bindings entries => Cell.noNaNBindings entries
  | .residual needs => Cell.noNaNList needs
  | _ => true

/-- Whether no float in sight of equality is a NaN in any of the cells. -/
def Cell.noNaNList : List Cell → Bool
  | [] => true
  | c :: cs => c.noNaN && Cell.noNaNList cs

/-- Whether no float in sight of equality is a NaN in any of the bound cells. -/
def Cell.noNaNBindings : List (String × Cell) → Bool
  | [] => true
  | (_, c) :: entries => c.noNaN && Cell.noNaNBindings entries

end

theorem Cell.noNaNList_iff {cs : List Cell} :
    Cell.noNaNList cs = true ↔ ∀ c ∈ cs, c.noNaN = true := by
  induction cs with
  | nil => simp [Cell.noNaNList]
  | cons c cs ih => simp [Cell.noNaNList, ih]

/-! ### Reflexivity and symmetry -/

mutual

theorem Cell.beq_self_of_noNaN : ∀ c : Cell, c.noNaN = true → c.beq c = true
  | .float v, h => by
    rw [Cell.beq]
    exact single_beq_self (by simpa [Cell.noNaN] using h)
  | .double v, h => by
    rw [Cell.beq]
    exact double_beq_self (by simpa [Cell.noNaN] using h)
  | .quotation code, h => by
    rw [Cell.beq]
    exact Cell.beqList_self_of_noNaN code (by simpa [Cell.noNaN] using h)
  | .continuation code, h => by
    rw [Cell.beq]
    exact Cell.beqList_self_of_noNaN code (by simpa [Cell.noNaN] using h)
  | .defer record result, h => by
    rw [Cell.beq, Bool.and_eq_true]
    exact ⟨Cell.beqList_self_of_noNaN record (by simpa [Cell.noNaN] using h), beq_self_eq_true _⟩
  | .bindings entries, h => by
    rw [Cell.beq]
    exact Cell.beqBindings_self_of_noNaN entries (by simpa [Cell.noNaN] using h)
  | .residual needs, h => by
    rw [Cell.beq]
    exact Cell.beqList_self_of_noNaN needs (by simpa [Cell.noNaN] using h)
  | .int _, _ => by simp [Cell.beq]
  | .bool _, _ => by simp [Cell.beq]
  | .text _, _ => by simp [Cell.beq]
  | .symbol _, _ => by simp [Cell.beq]
  | .instruction _, _ => by simp [Cell.beq]
  | .dummy _, _ => by simp [Cell.beq]
  | .type _, _ => by simp [Cell.beq]
  | .var _, _ => by simp [Cell.beq]

theorem Cell.beqList_self_of_noNaN :
    ∀ cs : List Cell, Cell.noNaNList cs = true → Cell.beqList cs cs = true
  | [], _ => rfl
  | c :: cs, h => by
    rw [Cell.noNaNList, Bool.and_eq_true] at h
    rw [Cell.beqList, Bool.and_eq_true]
    exact ⟨Cell.beq_self_of_noNaN c h.1, Cell.beqList_self_of_noNaN cs h.2⟩

theorem Cell.beqBindings_self_of_noNaN :
    ∀ es : List (String × Cell), Cell.noNaNBindings es = true → Cell.beqBindings es es = true
  | [], _ => rfl
  | (v, c) :: es, h => by
    rw [Cell.noNaNBindings, Bool.and_eq_true] at h
    rw [Cell.beqBindings, Bool.and_eq_true, Bool.and_eq_true]
    exact ⟨⟨beq_self_eq_true v, Cell.beq_self_of_noNaN c h.1⟩,
      Cell.beqBindings_self_of_noNaN es h.2⟩

end

/-- **Equality is reflexive where there is no NaN.** -/
theorem Cell.beq_self {c : Cell} (h : c.noNaN = true) : (c == c) = true :=
  Cell.beq_self_of_noNaN c h

mutual

theorem Cell.beq_comm : ∀ a b : Cell, a.beq b = b.beq a
  | .float a, b => by
    cases b with
    | float b => rw [Cell.beq, Cell.beq, single_beq_comm]
    | _ => simp only [Cell.beq]
  | .double a, b => by
    cases b with
    | double b => rw [Cell.beq, Cell.beq, double_beq_comm]
    | _ => simp only [Cell.beq]
  | .quotation a, b => by
    cases b with
    | quotation b => rw [Cell.beq, Cell.beq, Cell.beqList_comm]
    | _ => simp only [Cell.beq]
  | .continuation a, b => by
    cases b with
    | continuation b => rw [Cell.beq, Cell.beq, Cell.beqList_comm]
    | _ => simp only [Cell.beq]
  | .defer a s, b => by
    cases b with
    | defer b t => rw [Cell.beq, Cell.beq, Cell.beqList_comm, Bool.beq_comm]
    | _ => simp only [Cell.beq]
  | .bindings a, b => by
    cases b with
    | bindings b => rw [Cell.beq, Cell.beq, Cell.beqBindings_comm]
    | _ => simp only [Cell.beq]
  | .residual a, b => by
    cases b with
    | residual b => rw [Cell.beq, Cell.beq, Cell.beqList_comm]
    | _ => simp only [Cell.beq]
  | .int a, b => by cases b <;> simp only [Cell.beq, Bool.beq_comm]
  | .bool a, b => by cases b <;> simp only [Cell.beq, Bool.beq_comm]
  | .text a, b => by cases b <;> simp only [Cell.beq, Bool.beq_comm]
  | .symbol a, b => by cases b <;> simp only [Cell.beq, Bool.beq_comm]
  | .instruction a, b => by cases b <;> simp only [Cell.beq, Bool.beq_comm]
  | .dummy a, b => by cases b <;> simp only [Cell.beq, Bool.beq_comm]
  | .type a, b => by cases b <;> simp only [Cell.beq, Bool.beq_comm]
  | .var a, b => by cases b <;> simp only [Cell.beq, Bool.beq_comm]

theorem Cell.beqList_comm : ∀ as bs : List Cell, Cell.beqList as bs = Cell.beqList bs as
  | [], [] => rfl
  | [], _ :: _ => rfl
  | _ :: _, [] => rfl
  | a :: as, b :: bs => by
    rw [Cell.beqList, Cell.beqList, Cell.beq_comm a b, Cell.beqList_comm as bs]

theorem Cell.beqBindings_comm :
    ∀ as bs : List (String × Cell), Cell.beqBindings as bs = Cell.beqBindings bs as
  | [], [] => rfl
  | [], _ :: _ => rfl
  | _ :: _, [] => rfl
  | (v, a) :: as, (w, b) :: bs => by
    rw [Cell.beqBindings, Cell.beqBindings, Cell.beq_comm a b, Cell.beqBindings_comm as bs,
      Bool.beq_comm]

end

/-- **Equality is symmetric.** -/
theorem Cell.beq_symm {a b : Cell} (h : (a == b) = true) : (b == a) = true := by
  rw [← h]
  exact Cell.beq_comm b a

/-! ### Transitivity -/

mutual

theorem Cell.beq_trans_of : ∀ a b c : Cell, a.beq b = true → b.beq c = true → a.beq c = true
  | .float a, b, c, hab, hbc => by
    cases b with
    | float b =>
      cases c with
      | float c => rw [Cell.beq] at hab hbc ⊢; exact single_beq_trans hab hbc
      | _ => cases hbc
    | _ => cases hab
  | .double a, b, c, hab, hbc => by
    cases b with
    | double b =>
      cases c with
      | double c => rw [Cell.beq] at hab hbc ⊢; exact double_beq_trans hab hbc
      | _ => cases hbc
    | _ => cases hab
  | .quotation a, b, c, hab, hbc => by
    cases b with
    | quotation b =>
      cases c with
      | quotation c => rw [Cell.beq] at hab hbc ⊢; exact Cell.beqList_trans_of a b c hab hbc
      | _ => cases hbc
    | _ => cases hab
  | .continuation a, b, c, hab, hbc => by
    cases b with
    | continuation b =>
      cases c with
      | continuation c => rw [Cell.beq] at hab hbc ⊢; exact Cell.beqList_trans_of a b c hab hbc
      | _ => cases hbc
    | _ => cases hab
  | .defer a s, b, c, hab, hbc => by
    cases b with
    | defer b t =>
      cases c with
      | defer c u =>
        rw [Cell.beq, Bool.and_eq_true, beq_iff_eq] at hab hbc ⊢
        exact ⟨Cell.beqList_trans_of a b c hab.1 hbc.1, hab.2.trans hbc.2⟩
      | _ => cases hbc
    | _ => cases hab
  | .bindings a, b, c, hab, hbc => by
    cases b with
    | bindings b =>
      cases c with
      | bindings c => rw [Cell.beq] at hab hbc ⊢; exact Cell.beqBindings_trans_of a b c hab hbc
      | _ => cases hbc
    | _ => cases hab
  | .residual a, b, c, hab, hbc => by
    cases b with
    | residual b =>
      cases c with
      | residual c => rw [Cell.beq] at hab hbc ⊢; exact Cell.beqList_trans_of a b c hab hbc
      | _ => cases hbc
    | _ => cases hab
  | .int _, b, c, hab, hbc => by
    cases b with
    | int _ => rw [Cell.beq, beq_iff_eq] at hab; rwa [hab]
    | _ => cases hab
  | .bool _, b, c, hab, hbc => by
    cases b with
    | bool _ => rw [Cell.beq, beq_iff_eq] at hab; rwa [hab]
    | _ => cases hab
  | .text _, b, c, hab, hbc => by
    cases b with
    | text _ => rw [Cell.beq, beq_iff_eq] at hab; rwa [hab]
    | _ => cases hab
  | .symbol _, b, c, hab, hbc => by
    cases b with
    | symbol _ => rw [Cell.beq, beq_iff_eq] at hab; rwa [hab]
    | _ => cases hab
  | .instruction _, b, c, hab, hbc => by
    cases b with
    | instruction b =>
      cases c with
      | instruction c =>
        rw [Cell.beq, beq_iff_eq] at hab hbc ⊢
        exact hab.trans hbc
      | _ => cases hbc
    | _ => cases hab
  | .dummy _, b, c, hab, hbc => by
    cases b with
    | dummy _ => rw [Cell.beq, beq_iff_eq] at hab; rwa [hab]
    | _ => cases hab
  | .type _, b, c, hab, hbc => by
    cases b with
    | type _ => rw [Cell.beq, beq_iff_eq] at hab; rwa [hab]
    | _ => cases hab
  | .var _, b, c, hab, hbc => by
    cases b with
    | var _ => rw [Cell.beq, beq_iff_eq] at hab; rwa [hab]
    | _ => cases hab

theorem Cell.beqList_trans_of : ∀ as bs cs : List Cell,
    Cell.beqList as bs = true → Cell.beqList bs cs = true → Cell.beqList as cs = true
  | [], [], _, _, h => h
  | [], _ :: _, _, h, _ => nomatch h
  | _ :: _, [], _, h, _ => nomatch h
  | _ :: _, _ :: _, [], _, h => nomatch h
  | a :: as, b :: bs, c :: cs, hab, hbc => by
    rw [Cell.beqList, Bool.and_eq_true] at hab hbc ⊢
    exact ⟨Cell.beq_trans_of a b c hab.1 hbc.1, Cell.beqList_trans_of as bs cs hab.2 hbc.2⟩

theorem Cell.beqBindings_trans_of : ∀ as bs cs : List (String × Cell),
    Cell.beqBindings as bs = true → Cell.beqBindings bs cs = true → Cell.beqBindings as cs = true
  | [], [], _, _, h => h
  | [], _ :: _, _, h, _ => nomatch h
  | _ :: _, [], _, h, _ => nomatch h
  | _ :: _, _ :: _, [], _, h => nomatch h
  | (u, a) :: as, (v, b) :: bs, (w, c) :: cs, hab, hbc => by
    rw [Cell.beqBindings, Bool.and_eq_true, Bool.and_eq_true, beq_iff_eq] at hab hbc ⊢
    exact ⟨⟨hab.1.1.trans hbc.1.1, Cell.beq_trans_of a b c hab.1.2 hbc.1.2⟩,
      Cell.beqBindings_trans_of as bs cs hab.2 hbc.2⟩

end

/-- **Equality is transitive.** -/
theorem Cell.beq_trans {a b c : Cell} (hab : (a == b) = true) (hbc : (b == c) = true) :
    (a == c) = true :=
  Cell.beq_trans_of a b c hab hbc

/-- Quotations are equal exactly when their cells are, one by one. -/
theorem Cell.quotation_beq_iff {as bs : List Cell} :
    (Cell.quotation as == Cell.quotation bs) = true ↔
      List.Forall₂ (fun a b => (a == b) = true) as bs := by
  change Cell.beq (.quotation as) (.quotation bs) = true ↔ _
  rw [Cell.beq]
  induction as generalizing bs with
  | nil => cases bs <;> simp [Cell.beqList]
  | cons a as ih =>
    cases bs with
    | nil => simp [Cell.beqList]
    | cons b bs =>
      rw [Cell.beqList, Bool.and_eq_true, ih, List.forall₂_cons]
      rfl

end Restack
