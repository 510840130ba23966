import CodeChunks.Number.Arithmetic
import Mathlib

/-! # Rounding keeps a distance from zero

What is rounded to a format stays beyond every number of the format that it is beyond, and is packed
without loss. -/
namespace CodeChunks.Rounding

open Float.Model (Format UnpackedFloat totalExponent)
open Float.Model.UnpackedFloat

variable {spec : Format} {m n : ℕ} {e k : ℤ} {a : Accuracy} {s : Sign}

/-- A mantissa and an exponent as a format has them: the mantissa is full unless the exponent is the
least. -/
def Canonical (spec : Format) (m : ℕ) (e : ℤ) : Prop :=
  m < 2 ^ spec.mantissaBits ∧ spec.minExponent ≤ e ∧
    (2 ^ spec.mantissaBitsWithoutImplicit ≤ m ∨ e = spec.minExponent)

/-- The exponent is not above the one that the format wants. -/
def Low (spec : Format) (m : ℕ) (e : ℤ) : Prop := e ≤ spec.targetExponent (totalExponent m e)

/-- How far a mantissa is shifted to get the exponent that the format wants. -/
def shiftAmount (spec : Format) (m : ℕ) (e : ℤ) : ℕ :=
  (spec.targetExponent (totalExponent m e) - e).toNat

theorem mantissa_shiftRight (em : ExtendedMantissa) (j : ℕ) :
    (em >>> j).mantissa = em.mantissa / 2 ^ j := by
  induction j with
  | zero => rw [pow_zero, Nat.div_one]; rfl
  | succ j ih =>
    have hstep : (em >>> (j + 1)).mantissa = (em >>> j).mantissa / 2 := rfl
    rw [hstep, ih, Nat.div_div_eq_div_mul, pow_succ]

theorem mantissa_shift (spec : Format) (m : ℕ) (e : ℤ) (a : Accuracy) :
    (shiftToTargetExponent spec m e a).1.mantissa = m / 2 ^ shiftAmount spec m e := by
  rw [shiftToTargetExponent, shiftToExponent, mantissa_shiftRight, shiftAmount]
  congr 1
  cases a with
  | exact => rfl
  | inexact o => cases o <;> rfl

theorem exponent_shift (spec : Format) (m : ℕ) (e : ℤ) (a : Accuracy) :
    (shiftToTargetExponent spec m e a).2 = e + shiftAmount spec m e := rfl

theorem le_roundedMantissa (em : ExtendedMantissa) : em.mantissa ≤ em.roundedMantissa := by
  obtain ⟨m, r, t⟩ := em
  cases r <;> cases t <;>
    simp [ExtendedMantissa.roundedMantissa, ExtendedMantissa.accuracy, Accuracy.roundToNearestEven]

/-- Two numbers compared on the grid of the second. -/
theorem scaled_le_iff {i j : ℤ} (h : j ≤ i) :
    (m : ℚ) * 2 ^ i ≤ n * 2 ^ j ↔ m * 2 ^ (i - j).toNat ≤ n := by
  obtain ⟨d, rfl⟩ : ∃ d : ℕ, i = j + d := ⟨(i - j).toNat, by omega⟩
  have hpow : (2 : ℚ) ^ (j + d : ℤ) = 2 ^ d * 2 ^ j := by
    rw [zpow_add₀ two_ne_zero, zpow_natCast, mul_comm]
  rw [hpow, ← mul_assoc, mul_le_mul_iff_left₀ (by positivity), add_sub_cancel_left,
    Int.toNat_natCast]
  exact_mod_cast Iff.rfl

theorem mantissaBits_eq (spec : Format) :
    spec.mantissaBits = 1 + spec.mantissaBitsWithoutImplicit := rfl

theorem minExponent_eq (spec : Format) :
    spec.minExponent = 1 - (spec.exponentBias : ℤ) - spec.mantissaBitsWithoutImplicit := by
  have hpos : 1 ≤ 2 ^ (spec.exponentBits - 1) := Nat.one_le_two_pow
  rw [Format.minExponent, Format.exponentBias, Format.mantissaBits, Nat.cast_sub hpos]
  push_cast
  ring

/-- A full mantissa has no place to spare, so that its exponent cannot be lowered. -/
theorem low_of_full (h : 2 ^ spec.mantissaBitsWithoutImplicit ≤ m) : Low spec m e := by
  have hlog := (Nat.le_log2 ((Nat.two_pow_pos _).trans_le h).ne').mpr h
  have hbits := mantissaBits_eq spec
  rw [Low, Format.targetExponent, totalExponent]
  omega

theorem low_of_le (h : e ≤ spec.minExponent) : Low spec m e := h.trans (le_max_right _ _)

/-- A mantissa that is shifted to an exponent above the least is full. -/
theorem full_of_shift (hm : m ≠ 0) {j : ℕ}
    (hj : e + j = spec.targetExponent (totalExponent m e)) (hleast : spec.minExponent < e + j) :
    2 ^ spec.mantissaBitsWithoutImplicit ≤ m / 2 ^ j := by
  have hbits := mantissaBits_eq spec
  rw [Format.targetExponent, totalExponent] at hj
  rw [Nat.le_div_iff_mul_le (by positivity), ← pow_add]
  exact (Nat.pow_le_pow_right two_pos (by omega)).trans (Nat.log2_self_le hm)

theorem shift_canonical (h : Low spec m e) :
    Canonical spec (m / 2 ^ shiftAmount spec m e) (e + shiftAmount spec m e) := by
  have hamount : e + shiftAmount spec m e = spec.targetExponent (totalExponent m e) := by
    rw [Low] at h
    rw [shiftAmount]
    omega
  generalize shiftAmount spec m e = j at hamount ⊢
  have hle : spec.minExponent ≤ e + j := hamount ▸ le_max_right _ _
  have hbits := mantissaBits_eq spec
  refine ⟨?_, hle, ?_⟩
  · rw [Format.targetExponent, totalExponent] at hamount
    rw [Nat.div_lt_iff_lt_mul (by positivity), ← pow_add]
    exact Nat.lt_log2_self.trans_le (Nat.pow_le_pow_right two_pos (by omega))
  · rcases hle.eq_or_lt with hleast | hleast
    · exact .inr hleast.symm
    · refine .inl (full_of_shift ?_ hamount hleast)
      rintro rfl
      have hwidth := spec.hm
      rw [Format.targetExponent, totalExponent, Nat.log2_zero] at hamount
      omega

/-- A full mantissa on a grid passes every number of the format below the grid. -/
theorem le_full {j : ℤ} (hn : n ≤ 2 ^ spec.mantissaBits) (hj : k < j)
    (hm : 2 ^ spec.mantissaBitsWithoutImplicit ≤ m) : (n : ℚ) * 2 ^ k ≤ m * 2 ^ j := by
  have hbits := mantissaBits_eq spec
  calc (n : ℚ) * 2 ^ k ≤ (2 ^ spec.mantissaBits : ℕ) * 2 ^ (j - 1) := by
        gcongr
        · norm_num
        · omega
    _ = (2 ^ spec.mantissaBitsWithoutImplicit : ℕ) * 2 ^ j := by
        rw [hbits, zpow_sub₀ two_ne_zero]
        push_cast
        ring
    _ ≤ m * 2 ^ j := by gcongr

/-- A number of the format is not passed when the exponent is raised to the one that the format
wants. -/
theorem le_shift (hn : n ≤ 2 ^ spec.mantissaBits) (hpos : 0 < n) (hk : spec.minExponent ≤ k)
    (h : (n : ℚ) * 2 ^ k ≤ m * 2 ^ e) :
    (n : ℚ) * 2 ^ k ≤ (m / 2 ^ shiftAmount spec m e : ℕ) * 2 ^ (e + shiftAmount spec m e) := by
  have hm : m ≠ 0 := by
    rintro rfl
    rw [Nat.cast_zero, zero_mul] at h
    exact absurd h (not_le.mpr (by positivity))
  rcases Nat.eq_zero_or_pos (shiftAmount spec m e) with hzero | hshift
  · simpa [hzero] using h
  have hamount : e + shiftAmount spec m e = spec.targetExponent (totalExponent m e) := by
    rw [shiftAmount] at hshift ⊢
    omega
  generalize shiftAmount spec m e = j at hamount hshift ⊢
  by_cases hgrid : e + j ≤ k
  · rw [scaled_le_iff hgrid, Nat.le_div_iff_mul_le (by positivity), mul_assoc, ← pow_add]
    rw [scaled_le_iff (by omega)] at h
    exact (Nat.mul_le_mul_left n (Nat.pow_le_pow_right two_pos (by omega))).trans h
  · exact le_full hn (by omega) (full_of_shift hm hamount (by omega))

/-- A number in the form of a format, if it is finite. -/
def IsCanonical (spec : Format) : UnpackedFloat → Prop
  | .finite _ m e _ => Canonical spec m e
  | _ => True

/-- What is not a finite number nearer to zero than `n · 2 ^ k`. -/
def Beyond (n : ℕ) (k : ℤ) : UnpackedFloat → Prop
  | .zero _ => False
  | .finite _ m e _ => (n : ℚ) * 2 ^ k ≤ m * 2 ^ e
  | _ => True

/-- The mantissa as rounded, before a carry is shifted out of it. -/
def rounded (spec : Format) (m : ℕ) (e : ℤ) (a : Accuracy) : ℕ :=
  (shiftToTargetExponent spec m e a).1.roundedMantissa

theorem le_rounded (spec : Format) (m : ℕ) (e : ℤ) (a : Accuracy) :
    m / 2 ^ shiftAmount spec m e ≤ rounded spec m e a := by
  rw [← mantissa_shift spec m e a]
  exact le_roundedMantissa _

theorem rounded_low (h : Low spec m e) (a : Accuracy) :
    Low spec (rounded spec m e a) (e + shiftAmount spec m e) :=
  (shift_canonical h).2.2.elim (fun hfull => low_of_full (hfull.trans (le_rounded spec m e a)))
    fun hleast => low_of_le hleast.le

theorem roundWithAccuracy_eq (spec : Format) (s : Sign) (m : ℕ) (e : ℤ) (a : Accuracy) :
    let r := rounded spec m e a
    let e' := e + shiftAmount spec m e
    let j := shiftAmount spec r e'
    roundWithAccuracy spec s m e a =
      if h : r / 2 ^ j = 0 then .zero s
      else .finite s (r / 2 ^ j) (e' + j) (Nat.pos_of_ne_zero h) := by
  intro r e' j
  rw [roundWithAccuracy]
  simp only [mantissa_shift, exponent_shift]
  rfl

theorem roundWithAccuracy_canonical (h : Low spec m e) :
    IsCanonical spec (roundWithAccuracy spec s m e a) := by
  rw [roundWithAccuracy_eq]
  split
  · trivial
  · exact shift_canonical (rounded_low h a)

theorem beyond_of_rounded (hn : n ≤ 2 ^ spec.mantissaBits) (hpos : 0 < n)
    (hk : spec.minExponent ≤ k)
    (h : (n : ℚ) * 2 ^ k ≤ rounded spec m e a * 2 ^ (e + shiftAmount spec m e)) :
    Beyond n k (roundWithAccuracy spec s m e a) := by
  have hshift := le_shift hn hpos hk h
  rw [roundWithAccuracy_eq, dif_neg]
  · exact hshift
  · intro hzero
    rw [hzero, Nat.cast_zero, zero_mul] at hshift
    exact absurd hshift (not_le.mpr (by positivity))

/-- What a mantissa and its two bits say of a number in units of the last place of the mantissa. -/
def Marks (v : ℚ) : ExtendedMantissa → Prop
  | ⟨q, false, false⟩ => v = q
  | ⟨q, false, true⟩ => q < v ∧ v < q + 1 / 2
  | ⟨q, true, false⟩ => v = q + 1 / 2
  | ⟨q, true, true⟩ => q + 1 / 2 < v ∧ v < q + 1

variable {v : ℚ} {em : ExtendedMantissa}

theorem marks_exact (m : ℕ) : Marks m (.ofMantissaAndAccuracy m .exact) := rfl

theorem Marks.shiftRightOne (h : Marks v em) : Marks (v / 2) em.shiftRightOne := by
  obtain ⟨q, r, t⟩ := em
  rcases Nat.even_or_odd' q with ⟨p, rfl | rfl⟩
  · have hstep : (⟨2 * p, r, t⟩ : ExtendedMantissa).shiftRightOne = ⟨p, false, r || t⟩ := by
      simp [ExtendedMantissa.shiftRightOne]
    rw [hstep]
    cases r <;> cases t <;> simp only [Marks, Bool.or_true, Bool.or_false] at h ⊢ <;>
      push_cast at h
    · linarith
    · constructor <;> linarith
    · constructor <;> linarith
    · constructor <;> linarith
  · have hstep : (⟨2 * p + 1, r, t⟩ : ExtendedMantissa).shiftRightOne = ⟨p, true, r || t⟩ := by
      simp [ExtendedMantissa.shiftRightOne, Nat.mul_add_div]
    rw [hstep]
    cases r <;> cases t <;> simp only [Marks, Bool.or_true, Bool.or_false] at h ⊢ <;>
      push_cast at h
    · linarith
    · constructor <;> linarith
    · constructor <;> linarith
    · constructor <;> linarith

theorem Marks.shiftRight (h : Marks v em) (j : ℕ) : Marks (v / 2 ^ j) (em >>> j) := by
  induction j with
  | zero =>
    rw [pow_zero, div_one]
    exact h
  | succ j ih =>
    rw [pow_succ, ← div_div]
    exact ih.shiftRightOne

/-- Rounding goes at most half a place away. -/
theorem Marks.abs_rounded_sub_le (h : Marks v em) : |(em.roundedMantissa : ℚ) - v| ≤ 1 / 2 := by
  obtain ⟨q, r, t⟩ := em
  rw [abs_le]
  cases r with
  | false =>
    have hself : (⟨q, false, t⟩ : ExtendedMantissa).roundedMantissa = q := by cases t <;> rfl
    rw [hself]
    cases t <;> simp only [Marks] at h <;> constructor <;> linarith
  | true => cases t with
    | false =>
      have hup : (⟨q, true, false⟩ : ExtendedMantissa).roundedMantissa = q + q % 2 := rfl
      have hparity : ((q % 2 : ℕ) : ℚ) = 0 ∨ ((q % 2 : ℕ) : ℚ) = 1 := by
        exact_mod_cast Nat.mod_two_eq_zero_or_one q
      rw [hup, h, Nat.cast_add]
      rcases hparity with hp | hp <;> rw [hp] <;> constructor <;> linarith
    | true =>
      have hup : (⟨q, true, true⟩ : ExtendedMantissa).roundedMantissa = q + 1 := rfl
      simp only [Marks] at h
      rw [hup]
      push_cast
      constructor <;> linarith

theorem abs_rounded_sub_le (spec : Format) (e : ℤ) (h : Marks v (.ofMantissaAndAccuracy m a)) :
    |(rounded spec m e a : ℚ) - v / 2 ^ shiftAmount spec m e| ≤ 1 / 2 :=
  (h.shiftRight (shiftAmount spec m e)).abs_rounded_sub_le

theorem roundWithAccuracy_beyond (hn : n ≤ 2 ^ spec.mantissaBits) (hpos : 0 < n)
    (hk : spec.minExponent ≤ k) (h : (n : ℚ) * 2 ^ k ≤ m * 2 ^ e) :
    Beyond n k (roundWithAccuracy spec s m e a) := by
  refine beyond_of_rounded hn hpos hk ((le_shift hn hpos hk h).trans ?_)
  have hle := le_rounded spec m e a
  gcongr

theorem roundWithAccuracy_ne_zero (hm : Low spec m e)
    (h : (2 : ℚ) ^ spec.minExponent < 2 * (m * 2 ^ e)) :
    Beyond 1 spec.minExponent (roundWithAccuracy spec s m e .exact) := by
  have hnear := abs_rounded_sub_le spec e (marks_exact m)
  have hle := le_rounded spec m e .exact
  obtain ⟨-, hleast, hfull⟩ := shift_canonical hm
  refine beyond_of_rounded Nat.one_le_two_pow one_pos le_rfl ?_
  have hpos : 0 < rounded spec m e .exact := by
    by_contra hzero
    obtain hzero : rounded spec m e .exact = 0 := by omega
    rw [hzero, Nat.cast_zero, zero_sub, abs_neg, abs_of_nonneg (by positivity),
      div_le_iff₀ (by positivity)] at hnear
    rw [hzero, Nat.le_zero] at hle
    rw [hle] at hfull
    obtain hleast : e + shiftAmount spec m e = spec.minExponent :=
      hfull.resolve_left (by simp)
    have hnear' : (2 * (m * 2 ^ e) : ℚ) ≤ 2 ^ spec.minExponent := by
      rw [← hleast, add_comm, zpow_add₀ two_ne_zero, zpow_natCast, ← mul_assoc]
      gcongr
      linarith
    exact absurd h (not_lt.mpr hnear')
  calc ((1 : ℕ) : ℚ) * 2 ^ spec.minExponent ≤ rounded spec m e .exact * 2 ^ spec.minExponent := by
        gcongr
        exact hpos
    _ ≤ _ := by gcongr; norm_num

theorem log2_mul_two_pow (hm : 0 < m) (j : ℕ) : (m * 2 ^ j).log2 = m.log2 + j := by
  induction j with
  | zero => rw [pow_zero, mul_one, Nat.add_zero]
  | succ j ih =>
    have hstep : m * 2 ^ (j + 1) = 2 * (m * 2 ^ j) := by ring
    rw [hstep, Nat.log2_two_mul (by positivity), ih]
    rfl

/-- Before rounding the exponent is lowered, which leaves the number as it is. -/
theorem round_eq (spec : Format) (s : Sign) (hm : 0 < m) (e : ℤ) :
    ∃ m' e', Low spec m' e' ∧ (m' : ℚ) * 2 ^ e' = m * 2 ^ e ∧
      round spec s m e = roundWithAccuracy spec s m' e' .exact := by
  refine ⟨m <<< _, e - _, ?_, ?_, rfl⟩
  · rw [Low, Format.targetExponent, Format.targetExponent, totalExponent, totalExponent,
      Nat.shiftLeft_eq, log2_mul_two_pow hm]
    omega
  · rw [Nat.shiftLeft_eq, Nat.cast_mul, Nat.cast_pow, Nat.cast_two, mul_assoc, ← zpow_natCast,
      ← zpow_add₀ two_ne_zero, add_sub_cancel]

theorem round_canonical (hm : 0 < m) : IsCanonical spec (round spec s m e) := by
  obtain ⟨m', e', hlow, -, hround⟩ := round_eq spec s hm e
  rw [hround]
  exact roundWithAccuracy_canonical hlow

theorem round_beyond (hm : 0 < m) (hn : n ≤ 2 ^ spec.mantissaBits) (hpos : 0 < n)
    (hk : spec.minExponent ≤ k) (h : (n : ℚ) * 2 ^ k ≤ m * 2 ^ e) :
    Beyond n k (round spec s m e) := by
  obtain ⟨m', e', -, hvalue, hround⟩ := round_eq spec s hm e
  rw [hround]
  exact roundWithAccuracy_beyond hn hpos hk (hvalue ▸ h)

/-- More than half of the least number of a format is not rounded to zero. -/
theorem round_ne_zero (hm : 0 < m) (h : (2 : ℚ) ^ spec.minExponent < 2 * (m * 2 ^ e)) :
    Beyond 1 spec.minExponent (round spec s m e) := by
  obtain ⟨m', e', hlow, hvalue, hround⟩ := round_eq spec s hm e
  rw [hround]
  exact roundWithAccuracy_ne_zero hlow (hvalue ▸ h)

/-- A root has a full mantissa, or the least exponent, and is beyond each number of the format whose
square is not passed. -/
theorem sqrtCore_spec (spec : Format) (hm : 0 < m) (e : ℤ) :
    let r := sqrtCore spec m e
    Low spec r.1 r.2.1 ∧
      ∀ (n : ℕ) (k : ℤ), n ≤ 2 ^ spec.mantissaBits → spec.minExponent ≤ k →
        ((n * n : ℕ) : ℚ) * 2 ^ (2 * k) ≤ m * 2 ^ e → (n : ℚ) * 2 ^ k ≤ r.1 * 2 ^ r.2.1 := by
  intro r
  obtain ⟨t, ht⟩ : ∃ t, t = r.2.1 := ⟨_, rfl⟩
  obtain ⟨d, hd⟩ : ∃ d : ℕ, d = (e - 2 * t).toNat := ⟨_, rfl⟩
  have hroot : r.1 = Nat.sqrt (m * 2 ^ d) := by
    rw [← Nat.shiftLeft_eq, hd, ht]
    rfl
  rw [hroot, ← ht]
  have htarget : t = min (e.ediv 2) (spec.targetExponent ((totalExponent m e + 1).ediv 2)) := ht
  have hbits := mantissaBits_eq spec
  have hhalf : 2 * t ≤ e := by
    have hdiv : e.ediv 2 = e / 2 := rfl
    omega
  -- either the root has all its bits, or its exponent is the least
  have hfull : 2 ^ spec.mantissaBitsWithoutImplicit ≤ Nat.sqrt (m * 2 ^ d) ∨
      t ≤ spec.minExponent := by
    by_cases hleast : t ≤ spec.minExponent
    · exact .inr hleast
    · left
      rw [Nat.le_sqrt, ← pow_add]
      refine (Nat.pow_le_pow_right two_pos ?_).trans (Nat.log2_self_le (by positivity))
      rw [log2_mul_two_pow hm]
      have hdiv : (totalExponent m e + 1).ediv 2 = (totalExponent m e + 1) / 2 := rfl
      rw [hdiv, Format.targetExponent, totalExponent] at htarget
      omega
  constructor
  · exact hfull.elim low_of_full low_of_le
  · intro n k hn hk h
    by_cases hgrid : t ≤ k
    · rw [scaled_le_iff hgrid, Nat.le_sqrt]
      have hvalue : (m : ℚ) * 2 ^ e = (m * 2 ^ d : ℕ) * 2 ^ (2 * t) := by
        rw [Nat.cast_mul, Nat.cast_pow, Nat.cast_two, mul_assoc, ← zpow_natCast,
          ← zpow_add₀ two_ne_zero]
        congr 2
        omega
      rw [hvalue, scaled_le_iff (by omega)] at h
      calc n * 2 ^ (k - t).toNat * (n * 2 ^ (k - t).toNat)
          = n * n * 2 ^ ((k - t).toNat + (k - t).toNat) := by rw [pow_add]; ring
        _ = n * n * 2 ^ (2 * k - 2 * t).toNat := by congr 2; omega
        _ ≤ m * 2 ^ d := h
    · have hfull := hfull.resolve_right (by omega)
      exact le_full hn (by omega) hfull

theorem Canonical.mul_low {e' : ℤ} (h : Canonical spec m e) (h' : Canonical spec n e') (hm : 0 < m)
    (hn : 0 < n) : Low spec (m * n) (e + e') := by
  rcases h.2.2 with hfull | hleast
  · exact low_of_full (hfull.trans (Nat.le_mul_of_pos_right m hn))
  · rcases h'.2.2 with hfull | hleast'
    · exact low_of_full (hfull.trans (Nat.le_mul_of_pos_left n hm))
    · have hneg := minExponent_eq spec
      have hwidth := spec.hm
      exact low_of_le (by omega)

variable {f g : UnpackedFloat}

theorem mul_canonical (hf : IsCanonical spec f) (hg : IsCanonical spec g) :
    IsCanonical spec (mul spec f g) := by
  cases f with
  | finite s m e hm => cases g with
    | finite t n e' hn => exact roundWithAccuracy_canonical (Canonical.mul_low hf hg hm hn)
    | _ => trivial
  | _ => cases g <;> trivial

theorem Beyond.mul {j : ℤ} {n' : ℕ} (hf : Beyond n k f) (hg : Beyond n' j g)
    (hn : n * n' ≤ 2 ^ spec.mantissaBits) (hpos : 0 < n * n') (hk : spec.minExponent ≤ k + j) :
    Beyond (n * n') (k + j) (mul spec f g) := by
  cases f with
  | zero s => exact hf.elim
  | finite s m e hm => cases g with
    | zero t => exact hg.elim
    | finite t m' e' hm' =>
      refine roundWithAccuracy_beyond hn hpos hk ?_
      have hprod := mul_le_mul hf hg (by positivity) (by positivity)
      rw [zpow_add₀ two_ne_zero, zpow_add₀ two_ne_zero]
      push_cast
      linarith
    | _ => trivial
  | _ => cases g with
    | zero t => exact hg.elim
    | _ => trivial

theorem sqrt_canonical : IsCanonical spec (sqrt spec f) := by
  cases f with
  | infinity s => cases s <;> trivial
  | finite s m e hm => cases s with
    | negative => trivial
    | positive => exact roundWithAccuracy_canonical (sqrtCore_spec spec hm e).1
  | _ => trivial

theorem Beyond.sqrt (hf : Beyond (n * n) (2 * k) f) (hn : n ≤ 2 ^ spec.mantissaBits) (hpos : 0 < n)
    (hk : spec.minExponent ≤ k) : Beyond n k (sqrt spec f) := by
  cases f with
  | infinity s => cases s <;> trivial
  | zero s => exact hf.elim
  | finite s m e hm => cases s with
    | negative => trivial
    | positive =>
      exact roundWithAccuracy_beyond hn hpos hk ((sqrtCore_spec spec hm e).2 n k hn hk hf)
  | notANumber => trivial

theorem fit_canonical (spec : Format) (f : UnpackedFloat) :
    IsCanonical spec (Binary32.fit spec f) := by
  cases f with
  | finite s m e hm => exact round_canonical hm
  | _ => trivial

theorem Beyond.fit (hf : Beyond n k f) (hn : n ≤ 2 ^ spec.mantissaBits) (hpos : 0 < n)
    (hk : spec.minExponent ≤ k) : Beyond n k (Binary32.fit spec f) := by
  cases f with
  | zero s => exact hf.elim
  | finite s m e hm => exact round_beyond hm hn hpos hk hf
  | _ => trivial

/-- What is farther from zero than half of the least number of a format does not become zero in the
format. -/
theorem Beyond.fit_ne_zero (hf : Beyond n k f)
    (hn : (2 : ℚ) ^ spec.minExponent < 2 * (n * 2 ^ k)) :
    Beyond 1 spec.minExponent (Binary32.fit spec f) := by
  cases f with
  | zero s => exact hf.elim
  | finite s m e hm =>
    exact round_ne_zero hm (hn.trans_le (mul_le_mul_of_nonneg_left hf two_pos.le))
  | _ => trivial

end CodeChunks.Rounding
