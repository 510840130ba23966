import Mathlib

/-! # The order of binary64 numbers

Comparisons with what is not a number all fail. Among the others they are those of a linear order,
in which the two zeros are one. -/
namespace CodeChunks.Binary64

open Float.Model (UnpackedFloat)

/-- Where a number stands: its sign and whether it is finite, its exponent and its mantissa. -/
abbrev Standing := ℤ ×ₗ ℤ ×ₗ ℤ

def unpackedStanding : UnpackedFloat → Standing
  | .notANumber => toLex (0, toLex (0, 0))
  | .infinity .negative => toLex (-2, toLex (0, 0))
  | .finite .negative m e _ => toLex (-1, toLex (-e, -m))
  | .zero _ => toLex (0, toLex (0, 0))
  | .finite .positive m e _ => toLex (1, toLex (e, m))
  | .infinity .positive => toLex (2, toLex (0, 0))

theorem compare_natCast (m n : ℕ) : compare (m : ℤ) n = compare m n := by
  rw [Int.compare_eq_ite_lt, Nat.compare_eq_ite_lt]
  simp only [Int.ofNat_lt]

theorem compare_neg (a b : ℤ) : compare (-a) (-b) = (compare a b).swap := by
  rw [Int.compare_swap, Int.compare_eq_ite_lt, Int.compare_eq_ite_lt]
  simp only [Int.neg_lt_neg_iff]

theorem compare_eq {f g : UnpackedFloat} (hf : f.isNaN = false) (hg : g.isNaN = false) :
    f.compare g = some (compare (unpackedStanding f) (unpackedStanding g)) := by
  cases f with
  | notANumber => cases hf
  | infinity s => cases g with
    | notANumber => cases hg
    | infinity t => cases s <;> cases t <;> rfl
    | zero t => cases s <;> rfl
    | finite t m e h => cases s <;> cases t <;> rfl
  | zero s => cases g with
    | notANumber => cases hg
    | infinity t => cases t <;> rfl
    | zero t => rfl
    | finite t m e h => cases t <;> rfl
  | finite s m e h => cases g with
    | notANumber => cases hg
    | infinity t => cases s <;> cases t <;> rfl
    | zero t => cases s <;> rfl
    | finite t n d h' => cases s with
      | positive => cases t with
        | positive =>
          have hparts : compare (toLex (1, toLex (e, ↑m)) : Standing) (toLex (1, toLex (d, ↑n))) =
              (compare e d).then (compare (m : ℤ) n) := rfl
          rw [unpackedStanding, unpackedStanding, hparts, compare_natCast]
          rfl
        | negative => rfl
      | negative => cases t with
        | positive => rfl
        | negative =>
          have hparts :
              compare (toLex (-1, toLex (-e, -↑m)) : Standing) (toLex (-1, toLex (-d, -↑n))) =
                (compare (-e) (-d)).then (compare (-(m : ℤ)) (-n)) := rfl
          rw [unpackedStanding, unpackedStanding, hparts, compare_neg, compare_neg, compare_natCast,
            ← Ordering.swap_then]
          rfl

def standing (x : Float) : Standing := unpackedStanding x.toModel.unpack

variable {x y : Float}

theorem lt_iff (hx : x.isNaN = false) (hy : y.isNaN = false) :
    x < y ↔ standing x < standing y := by
  have hlt : x < y ↔ x.toModel.unpack.lt y.toModel.unpack := decide_eq_true_iff
  rw [hlt, UnpackedFloat.lt, compare_eq hx hy, beq_iff_eq, Option.some_inj, compare_lt_iff_lt]
  rfl

theorem le_iff (hx : x.isNaN = false) (hy : y.isNaN = false) :
    x ≤ y ↔ standing x ≤ standing y := by
  have hle : x ≤ y ↔ x.toModel.unpack.le y.toModel.unpack := decide_eq_true_iff
  rw [hle, UnpackedFloat.le, compare_eq hx hy, Option.any_some, Ordering.isLE_iff_ne_gt,
    compare_gt_iff_gt, not_lt]
  rfl

/-- What is not a number is equal to nothing. -/
theorem beq_eq_false_of_isNaN (hy : y.isNaN) : (x == y) = false := by
  have hbeq : (x == y) = x.toModel.unpack.beq y.toModel.unpack := rfl
  have hunpack : y.toModel.unpack = .notANumber := by
    have hnan : y.toModel.unpack.isNaN := hy
    generalize y.toModel.unpack = f at hnan
    cases f with
    | notANumber => rfl
    | _ => cases hnan
  rw [hbeq, hunpack, UnpackedFloat.beq]
  cases x.toModel.unpack <;> rfl

theorem beq_iff (hx : x.isNaN = false) (hy : y.isNaN = false) :
    x == y ↔ standing x = standing y := by
  have hbeq : (x == y) = x.toModel.unpack.beq y.toModel.unpack := rfl
  rw [hbeq, UnpackedFloat.beq, compare_eq hx hy, beq_iff_eq, Option.some_inj, compare_eq_iff_eq]
  rfl

end CodeChunks.Binary64
