import CodeChunks.Proofs.Number.Packing
import CodeChunks.Vector.Search

/-! # Cosines do not divide by zero

The product of two norms is rounded to binary32 before the division, and might be so small that it
becomes zero. It does not: a norm is the root of a number of binary32, and the product of two such
roots is more than half of the least number of binary32. In which order the products of the entries
are added makes no difference to that. -/
namespace CodeChunks

open Float.Model (UnpackedFloat)
open Rounding

variable {n n' : ℕ} {k j : ℤ}

theorem beyond_sqrt {x : Float32} (h : Beyond (n * n) (2 * k) x.toModel.unpack) (hn : n ≤ 2 ^ 24)
    (hpos : 0 < n) (hk : -149 ≤ k) : Beyond n k x.sqrt.toModel.unpack := by
  have hroot : Beyond n k (UnpackedFloat.sqrt .binary32 x.toModel.unpack) := h.sqrt hn hpos hk
  exact hroot.pack sqrt_canonical

theorem beyond_widen {x : Float32} (h : Beyond n k x.toModel.unpack) (hn : n ≤ 2 ^ 53)
    (hpos : 0 < n) (hk : -1074 ≤ k) : Beyond n k (Binary32.widen x).toModel.unpack := by
  have hfit : Beyond n k (Binary32.fit .binary64 x.toModel.unpack) := h.fit hn hpos hk
  exact hfit.pack (fit_canonical ..)

theorem beyond_mul {x y : Float} (hx : Beyond n k x.toModel.unpack)
    (hy : Beyond n' j y.toModel.unpack) (hn : n * n' ≤ 2 ^ 53) (hpos : 0 < n * n')
    (hk : -1074 ≤ k + j) : Beyond (n * n') (k + j) (x * y).toModel.unpack := by
  have hproduct : Beyond (n * n') (k + j)
      (UnpackedFloat.mul .binary64 x.toModel.unpack y.toModel.unpack) := hx.mul hy hn hpos hk
  exact hproduct.pack (mul_canonical (unpack_canonical _) (unpack_canonical _))

theorem beyond_narrow {x : Float} (h : Beyond n k x.toModel.unpack)
    (hn : (2 : ℚ) ^ (-149 : ℤ) < 2 * (n * 2 ^ k)) :
    Beyond 1 (-149) (Binary32.narrow x).toModel.unpack := by
  have hfit : Beyond 1 (-149) (Binary32.fit .binary32 x.toModel.unpack) := h.fit_ne_zero hn
  exact hfit.pack (fit_canonical ..)

theorem ne_zero_of_beyond {x : Float32} (h : Beyond n k x.toModel.unpack) : (x == 0) = false := by
  have hbeq : (x == 0) = x.toModel.unpack.beq (.zero .positive) := rfl
  rw [hbeq]
  cases hx : x.toModel.unpack with
  | zero s =>
    rw [hx] at h
    exact h.elim
  | finite s m e hm => cases s <;> rfl
  | infinity s => cases s <;> rfl
  | notANumber => rfl

variable (product : Embedding → Embedding → Float32) {v w : Embedding}

/-- Norms other than zero are at least the root of the least number of binary32, whatever the
product of a vector with itself is. -/
theorem norm_beyond (h : (norm product v == 0) = false) :
    Beyond 5 (-77) (norm product v).toModel.unpack := by
  have hsquare : Beyond (5 * 5) (2 * (-77)) (product v v).toModel.unpack := by
    cases hv : (product v v).toModel.unpack with
    | zero s =>
      have hbeq : (norm product v == 0) =
          (norm product v).toModel.unpack.beq (.zero .positive) := rfl
      have hnorm : (norm product v).toModel.unpack =
          (Float.Model.pack (Binary32.fit .binary64 (Float32.Model.pack
            (UnpackedFloat.sqrt .binary32 (product v v).toModel.unpack)).unpack)).unpack := rfl
      rw [hbeq, hnorm, hv] at h
      cases s <;> cases h
    | finite s m e hm =>
      have hcanonical : IsCanonical .binary32 (product v v).toModel.unpack := unpack_canonical _
      rw [hv] at hcanonical
      have hleast : (-149 : ℤ) ≤ e := hcanonical.2.1
      calc ((5 * 5 : ℕ) : ℚ) * 2 ^ (2 * (-77) : ℤ) ≤ 1 * 2 ^ (-149 : ℤ) := by norm_num
        _ ≤ m * 2 ^ e := by
          gcongr
          · exact_mod_cast hm
          · norm_num
    | _ => trivial
  exact beyond_widen (beyond_sqrt hsquare (by decide) (by decide) (by decide)) (by decide)
    (by decide) (by decide)

/-- The divisor of two vectors with norms other than zero is not zero. -/
theorem divisor_ne_zero (hv : (norm product v == 0) = false) (hw : (norm product w == 0) = false) :
    (Binary32.narrow (norm product v * norm product w) == 0) = false := by
  have hdivisor : Beyond 25 (-154) (norm product v * norm product w).toModel.unpack :=
    beyond_mul (norm_beyond product hv) (norm_beyond product hw) (by decide) (by decide) (by decide)
  exact ne_zero_of_beyond (beyond_narrow hdivisor (by norm_num))

/-- A cosine is zero because a norm is, or a quotient by what is not zero. -/
theorem cosine_cases (v w : Embedding) :
    ((norm product v == 0 || norm product w == 0) ∧ cosine product v w = 0) ∨
      (Binary32.narrow (norm product v * norm product w) == 0) = false ∧
        cosine product v w =
          Binary32.widen (product v w / Binary32.narrow (norm product v * norm product w)) := by
  cases h : norm product v == 0 || norm product w == 0 with
  | true => exact .inl ⟨rfl, by rw [cosine, h]; rfl⟩
  | false =>
    obtain ⟨hv, hw⟩ := Bool.or_eq_false_iff.mp h
    exact .inr ⟨divisor_ne_zero product hv hw, by rw [cosine, h]; rfl⟩

end CodeChunks
