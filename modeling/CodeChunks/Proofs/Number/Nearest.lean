import CodeChunks.Proofs.Number.Order
import CodeChunks.Proofs.Number.Packing

/-! # Rounded results are near the exact ones

A result with a full mantissa is off by half a place at most, and so by a part of itself that is the
same for all results of the format. -/
namespace CodeChunks

open Float.Model (Format UnpackedFloat totalExponent)
open Float.Model.UnpackedFloat

namespace Rounding

variable {spec : Format} {m n : ℕ} {e k : ℤ} {a : Accuracy} {s : Sign} {v : ℚ}

/-- The number that is meant. Infinities and what is not a number count as zero. -/
def value : UnpackedFloat → ℚ
  | .finite s m e _ => s.apply 1 * (m * 2 ^ e)
  | _ => 0

@[simp]
theorem value_zero (s : Sign) : value (.zero s) = 0 := rfl

@[simp]
theorem value_finite (s : Sign) (m : ℕ) (e : ℤ) (hm : 0 < m) :
    value (.finite s m e hm) = s.apply 1 * (m * 2 ^ e) := rfl

theorem abs_apply_mul (s : Sign) (v : ℚ) : |(s.apply 1 : ℚ) * v| = |v| := by
  cases s <;> simp [Sign.apply]

theorem Marks.le {em : ExtendedMantissa} (h : Marks v em) : em.mantissa ≤ v := by
  obtain ⟨q, r, t⟩ := em
  cases r <;> cases t <;> simp only [Marks] at h <;> linarith

theorem Marks.lt {em : ExtendedMantissa} (h : Marks v em) : v < em.mantissa + 1 := by
  obtain ⟨q, r, t⟩ := em
  cases r <;> cases t <;> simp only [Marks] at h <;> linarith

theorem roundedMantissa_le (em : ExtendedMantissa) : em.roundedMantissa ≤ em.mantissa + 1 := by
  obtain ⟨m, r, t⟩ := em
  cases r <;> cases t <;>
    simp [ExtendedMantissa.roundedMantissa, ExtendedMantissa.accuracy, Accuracy.roundToNearestEven]
  omega

theorem rounded_le (h : Low spec m e) (a : Accuracy) :
    rounded spec m e a ≤ 2 ^ spec.mantissaBits := by
  have hlt := (shift_canonical h).1
  rw [← mantissa_shift spec m e a] at hlt
  exact (roundedMantissa_le _).trans hlt

/-- Only a carry into one more bit is shifted out, and it leaves zeros. -/
theorem two_pow_dvd_rounded (h : Low spec m e) (a : Accuracy) :
    2 ^ shiftAmount spec (rounded spec m e a) (e + shiftAmount spec m e) ∣
      rounded spec m e a := by
  have hle := rounded_le h a
  have hleast := (shift_canonical h).2.1
  have hbits := mantissaBits_eq spec
  generalize rounded spec m e a = r at hle ⊢
  generalize e + shiftAmount spec m e = k at hleast ⊢
  rw [shiftAmount, Format.targetExponent, totalExponent]
  rcases hle.lt_or_eq with hlt | rfl
  · have hlog : r.log2 < spec.mantissaBits := by
      rcases Nat.eq_zero_or_pos r with rfl | hr
      · rw [Nat.log2_zero]
        omega
      · exact (Nat.log2_lt hr.ne').mpr hlt
    have hnone :
        (max ((r.log2 : ℤ) + 1 + k - spec.mantissaBits) spec.minExponent - k).toNat = 0 := by
      omega
    rw [hnone]
    exact one_dvd r
  · refine Nat.pow_dvd_pow 2 ?_
    rw [Nat.log2_two_pow]
    omega

theorem value_roundWithAccuracy (h : Low spec m e) (s : Sign) (a : Accuracy) :
    value (roundWithAccuracy spec s m e a) =
      s.apply 1 * (rounded spec m e a * 2 ^ (e + shiftAmount spec m e)) := by
  obtain ⟨q, hq⟩ := two_pow_dvd_rounded h a
  rw [roundWithAccuracy_eq]
  generalize shiftAmount spec (rounded spec m e a) (e + shiftAmount spec m e) = j at hq ⊢
  have hdiv : rounded spec m e a / 2 ^ j = q := by
    rw [hq, Nat.mul_div_cancel_left q (Nat.two_pow_pos j)]
  have hvalue : (rounded spec m e a : ℚ) * 2 ^ (e + shiftAmount spec m e) =
      q * 2 ^ (e + shiftAmount spec m e + j) := by
    rw [hq, zpow_add₀ two_ne_zero _ (j : ℤ), zpow_natCast]
    push_cast
    ring
  rw [hvalue]
  by_cases hzero : rounded spec m e a / 2 ^ j = 0
  · rw [dif_pos hzero, value_zero, ← hdiv, hzero, Nat.cast_zero, zero_mul, mul_zero]
  · rw [dif_neg hzero, value_finite, hdiv]

/-- Above the numbers with a short mantissa, rounding changes a number by a fixed part of it. -/
theorem roundWithAccuracy_near (h : Low spec m e) (hv : Marks v (.ofMantissaAndAccuracy m a))
    (hfull : 2 ^ (spec.minExponent + spec.mantissaBitsWithoutImplicit) ≤ v * 2 ^ e) (s : Sign) :
    |value (roundWithAccuracy spec s m e a) - s.apply 1 * (v * 2 ^ e)| ≤
      v * 2 ^ e / 2 ^ spec.mantissaBits := by
  obtain ⟨-, -, hcanonical⟩ := shift_canonical h
  have hround := abs_rounded_sub_le spec e hv
  have hshifted := hv.shiftRight (shiftAmount spec m e)
  have hmantissa := mantissa_shift spec m e a
  have hle : ((m / 2 ^ shiftAmount spec m e : ℕ) : ℚ) ≤ v / 2 ^ shiftAmount spec m e :=
    hmantissa ▸ hshifted.le
  have hlt : v / 2 ^ shiftAmount spec m e < (m / 2 ^ shiftAmount spec m e : ℕ) + 1 :=
    hmantissa ▸ hshifted.lt
  have hvalue : v * 2 ^ e =
      v / 2 ^ shiftAmount spec m e * 2 ^ (e + shiftAmount spec m e : ℤ) := by
    rw [zpow_add₀ two_ne_zero, zpow_natCast]
    field_simp
  rw [value_roundWithAccuracy h, hvalue, ← mul_sub, abs_apply_mul, ← sub_mul, abs_mul,
    abs_of_pos (a := (2 : ℚ) ^ (_ : ℤ)) (by positivity)]
  rw [hvalue] at hfull
  generalize m / 2 ^ shiftAmount spec m e = q at hcanonical hle hlt
  generalize v / 2 ^ shiftAmount spec m e = w at hround hle hlt hfull ⊢
  generalize e + shiftAmount spec m e = k at hcanonical hfull ⊢
  -- a mantissa that is not full has the least exponent, and the number is above those
  have hq : 2 ^ spec.mantissaBitsWithoutImplicit ≤ q := by
    by_contra hshort
    obtain rfl := hcanonical.resolve_left hshort
    have hsucc : ((q + 1 : ℕ) : ℚ) ≤ 2 ^ spec.mantissaBitsWithoutImplicit := by
      exact_mod_cast Nat.succ_le_of_lt (not_le.mp hshort)
    have hbelow : w * 2 ^ spec.minExponent <
        2 ^ (spec.minExponent + spec.mantissaBitsWithoutImplicit : ℤ) := by
      rw [add_comm, zpow_add₀ two_ne_zero, zpow_natCast]
      gcongr
      push_cast at hsucc
      linarith
    exact absurd hfull (not_le.mpr hbelow)
  have hw : (2 : ℚ) ^ spec.mantissaBitsWithoutImplicit ≤ w := le_trans (by exact_mod_cast hq) hle
  have hpart : (1 / 2 : ℚ) ≤ w / 2 ^ spec.mantissaBits := by
    rw [mantissaBits_eq, pow_add, pow_one, div_le_div_iff₀ two_pos (by positivity)]
    linarith
  calc |(rounded spec m e a : ℚ) - w| * 2 ^ k ≤ w / 2 ^ spec.mantissaBits * 2 ^ k := by
        gcongr
        exact hround.trans hpart
    _ = w * 2 ^ k / 2 ^ spec.mantissaBits := by ring

theorem round_near (hm : 0 < m)
    (hfull : 2 ^ (spec.minExponent + spec.mantissaBitsWithoutImplicit) ≤ (m : ℚ) * 2 ^ e)
    (s : Sign) :
    |value (round spec s m e) - s.apply 1 * (m * 2 ^ e)| ≤ m * 2 ^ e / 2 ^ spec.mantissaBits := by
  obtain ⟨m', e', hlow, hvalue, hround⟩ := round_eq spec s hm e
  rw [hround, ← hvalue]
  exact roundWithAccuracy_near hlow (marks_exact m') (hvalue ▸ hfull) s

theorem marks_quotient (hn : 0 < n) (m : ℕ) :
    Marks (m / n) (.ofMantissaAndAccuracy (m / n) (accuracyOfFraction (m % n) n)) := by
  have hn' : (0 : ℚ) < n := by exact_mod_cast hn
  have hquotient : (m : ℚ) / n = (m / n : ℕ) + (m % n : ℕ) / n := by
    rw [add_div' _ _ _ hn'.ne', ← Nat.cast_mul, ← Nat.cast_add, Nat.div_add_mod']
  have hrest := Nat.mod_lt m hn
  rw [hquotient]
  generalize m / n = q
  generalize m % n = r at hrest
  rw [accuracyOfFraction]
  by_cases hzero : r = 0
  · rw [if_pos hzero, hzero, Nat.cast_zero, zero_div, add_zero]
    exact marks_exact q
  · rw [if_neg hzero]
    have hr : (0 : ℚ) < r / n := by
      have : (0 : ℚ) < r := by exact_mod_cast Nat.pos_of_ne_zero hzero
      positivity
    have hlt : (r : ℚ) / n < 1 := by
      rw [div_lt_one hn']
      exact_mod_cast hrest
    cases hhalf : compare (2 * r) n with
    | lt =>
      have hbelow : (r : ℚ) / n < 1 / 2 := by
        rw [div_lt_div_iff₀ hn' two_pos]
        have : 2 * r < n := Nat.compare_eq_lt.mp hhalf
        exact_mod_cast (by omega : r * 2 < 1 * n)
      exact ⟨by linarith, by linarith⟩
    | eq =>
      have hequal : (r : ℚ) / n = 1 / 2 := by
        rw [div_eq_div_iff hn'.ne' two_ne_zero]
        have : 2 * r = n := Nat.compare_eq_eq.mp hhalf
        exact_mod_cast (by omega : r * 2 = 1 * n)
      exact congrArg _ hequal
    | gt =>
      have habove : 1 / 2 < (r : ℚ) / n := by
        rw [div_lt_div_iff₀ two_pos hn']
        have : n < 2 * r := Nat.compare_eq_gt.mp hhalf
        exact_mod_cast (by omega : 1 * n < r * 2)
      exact ⟨by linarith, by linarith⟩

/-- A quotient has a full mantissa, or the least exponent. -/
theorem divCore_low (hm : 0 < m) (hn : 0 < n) (e k : ℤ) :
    Low spec (divCore spec m e n k).1 (divCore spec m e n k).2.1 := by
  obtain ⟨t, ht⟩ : ∃ t, t = (divCore spec m e n k).2.1 := ⟨_, rfl⟩
  obtain ⟨d, hd⟩ : ∃ d : ℕ, d = (e - k - t).toNat := ⟨_, rfl⟩
  have hquotient : (divCore spec m e n k).1 = m * 2 ^ d / n := by
    rw [← Nat.shiftLeft_eq, hd, ht]
    rfl
  rw [hquotient, ← ht]
  have htarget : t = min (e - k) (spec.targetExponent (totalExponent m e - totalExponent n k)) := ht
  by_cases hleast : t ≤ spec.minExponent
  · exact low_of_le hleast
  · apply low_of_full
    have hbits := mantissaBits_eq spec
    rw [Format.targetExponent, totalExponent, totalExponent] at htarget
    rw [Nat.le_div_iff_mul_le hn]
    calc 2 ^ spec.mantissaBitsWithoutImplicit * n
        ≤ 2 ^ spec.mantissaBitsWithoutImplicit * 2 ^ (n.log2 + 1) :=
          Nat.mul_le_mul_left _ Nat.lt_log2_self.le
      _ = 2 ^ (spec.mantissaBitsWithoutImplicit + (n.log2 + 1)) := (pow_add ..).symm
      _ ≤ 2 ^ (m.log2 + d) := Nat.pow_le_pow_right two_pos (by omega)
      _ = 2 ^ m.log2 * 2 ^ d := pow_add ..
      _ ≤ m * 2 ^ d := Nat.mul_le_mul_right _ (Nat.log2_self_le hm.ne')

/-- What a quotient is before it is rounded. -/
theorem divCore_marks (spec : Format) (m : ℕ) (hn : 0 < n) (e k : ℤ) :
    ∃ v, Marks v (.ofMantissaAndAccuracy (divCore spec m e n k).1 (divCore spec m e n k).2.2) ∧
      v * 2 ^ (divCore spec m e n k).2.1 = m * 2 ^ e / (n * 2 ^ k) := by
  obtain ⟨t, ht⟩ : ∃ t, t = (divCore spec m e n k).2.1 := ⟨_, rfl⟩
  obtain ⟨d, hd⟩ : ∃ d : ℕ, d = (e - k - t).toNat := ⟨_, rfl⟩
  have hcore : divCore spec m e n k =
      (m * 2 ^ d / n, t, accuracyOfFraction (m * 2 ^ d % n) n) := by
    rw [← Nat.shiftLeft_eq, hd, ht]
    rfl
  have htarget : t = min (e - k) (spec.targetExponent (totalExponent m e - totalExponent n k)) := ht
  have hsplit : e = d + t + k := by omega
  rw [hcore]
  refine ⟨_, marks_quotient hn (m * 2 ^ d), ?_⟩
  have hn' : (n : ℚ) ≠ 0 := by exact_mod_cast hn.ne'
  rw [hsplit, zpow_add₀ two_ne_zero, zpow_add₀ two_ne_zero, zpow_natCast]
  push_cast
  field_simp

theorem div_eq (hm : 0 < m) (hn : 0 < n) (e k : ℤ) :
    div spec (.finite .positive m e hm) (.finite .positive n k hn) =
      roundWithAccuracy spec .positive (divCore spec m e n k).1 (divCore spec m e n k).2.1
        (divCore spec m e n k).2.2 := rfl

theorem div_near (spec : Format) (hm : 0 < m) (hn : 0 < n) (e k : ℤ)
    (hfull : 2 ^ (spec.minExponent + spec.mantissaBitsWithoutImplicit) ≤
      (m * 2 ^ e / (n * 2 ^ k) : ℚ)) :
    |value (div spec (.finite .positive m e hm) (.finite .positive n k hn)) -
        m * 2 ^ e / (n * 2 ^ k)| ≤ m * 2 ^ e / (n * 2 ^ k) / 2 ^ spec.mantissaBits := by
  obtain ⟨v, hmarks, hv⟩ := divCore_marks spec m hn e k
  rw [← hv] at hfull ⊢
  have hnear := roundWithAccuracy_near (divCore_low hm hn e k) hmarks hfull .positive
  rw [div_eq]
  simpa [Sign.apply] using hnear

theorem roundWithAccuracy_cases (spec : Format) (s : Sign) (m : ℕ) (e : ℤ) (a : Accuracy) :
    roundWithAccuracy spec s m e a = .zero s ∨
      ∃ m' e' hm, roundWithAccuracy spec s m e a = .finite s m' e' hm := by
  rw [roundWithAccuracy_eq]
  by_cases hzero : rounded spec m e a /
      2 ^ shiftAmount spec (rounded spec m e a) (e + shiftAmount spec m e) = 0
  · exact .inl (dif_pos hzero)
  · exact .inr ⟨_, _, Nat.pos_of_ne_zero hzero, dif_neg hzero⟩

theorem isFinite_roundWithAccuracy (spec : Format) (s : Sign) (m : ℕ) (e : ℤ) (a : Accuracy) :
    (roundWithAccuracy spec s m e a).isFinite := by
  rcases roundWithAccuracy_cases spec s m e a with h | ⟨m', e', hm, h⟩ <;> rw [h] <;> rfl

theorem div_canonical (spec : Format) (hm : 0 < m) (hn : 0 < n) (e k : ℤ) :
    IsCanonical spec (div spec (.finite .positive m e hm) (.finite .positive n k hn)) :=
  roundWithAccuracy_canonical (divCore_low hm hn e k)

theorem unpack_pack_zero (spec : Format) (s : Sign) :
    unpack spec (pack spec (.zero s)) = .zero s := by
  rw [UnpackedFloat.pack, packedZero, unpack, unpackSign_packComponents, ofBitVec_toBitVec]
  simp [spec.he.ne']

/-- A mantissa that is shifted beyond another one is the mantissa of a larger number. -/
theorem Canonical.le_iff (h : Canonical spec m e) (h' : Canonical spec n k) :
    (m : ℚ) * 2 ^ e ≤ n * 2 ^ k ↔ e < k ∨ e = k ∧ m ≤ n := by
  rcases lt_trichotomy e k with hlt | rfl | hlt
  · have hfull := h'.2.2.resolve_right (hlt.trans_le' h.2.1).ne'
    exact iff_of_true (le_full h.1.le hlt hfull) (.inl hlt)
  · rw [mul_le_mul_iff_left₀ (by positivity), Nat.cast_le]
    simp
  · have hfull := h.2.2.resolve_right (hlt.trans_le' h'.2.1).ne'
    have hpass := le_full (n := n + 1) h'.1 hlt hfull
    have hstrict : (n : ℚ) * 2 ^ k < (n + 1 : ℕ) * 2 ^ k := by
      gcongr
      exact Nat.lt_succ_self n
    exact iff_of_false (not_le.mpr (hstrict.trans_le hpass)) (by omega)

end Rounding

namespace Binary64

open Rounding

/-- The number that is meant. Infinities and what is not a number count as zero. -/
def toRat (x : Float) : ℚ := Rounding.value x.toModel.unpack

/-- A number of the format that is not too large for it is packed without loss. -/
theorem unpack_ofModel_pack {f : UnpackedFloat} (hf : IsCanonical .binary64 f)
    (hfinite : f.isFinite) (hsmall : |value f| < 2 ^ 1024) :
    (Float.ofModel (.pack f)).toModel.unpack = f := by
  cases f with
  | notANumber => cases hfinite
  | infinity s => cases hfinite
  | zero s => exact unpack_pack_zero .binary64 s
  | finite s m e hm =>
    obtain ⟨hlt, hleast, hfull⟩ : Canonical .binary64 m e := hf
    refine unpack_pack_finite ⟨hlt, hleast, hfull⟩ hm ?_
    have he : e < 972 := by
      rcases hfull with hfull | hleast
      · rw [value_finite, abs_apply_mul, abs_of_nonneg (by positivity)] at hsmall
        have hfull' : ((2 ^ 52 : ℕ) : ℚ) ≤ m := by exact_mod_cast hfull
        have hpow : (2 : ℚ) ^ (52 + e) < 2 ^ (1024 : ℤ) := by
          calc (2 : ℚ) ^ (52 + e) = (2 ^ 52 : ℕ) * 2 ^ e := by
                rw [zpow_add₀ two_ne_zero]
                norm_num
            _ ≤ m * 2 ^ e := by gcongr
            _ < 2 ^ (1024 : ℤ) := by exact_mod_cast hsmall
        have := (zpow_lt_zpow_iff_right₀ (by norm_num : (1 : ℚ) < 2)).mp hpow
        omega
      · have hmin : Format.binary64.minExponent = -1074 := rfl
        omega
    have hbias : (e + Format.binary64.exponentBias + Format.binary64.mantissaBitsWithoutImplicit) =
        e + 1023 + 52 := rfl
    rw [hbias]
    norm_num
    omega

theorem whole_of_pos {n : ℕ} (hn : 0 < n) : whole n = .finite .positive n 0 hn :=
  dif_neg hn.ne'

theorem cast_le_two_pow {n j : ℕ} (h : n ≤ 2 ^ j) : (n : ℚ) ≤ 2 ^ j := by exact_mod_cast h

theorem two_zpow_neg_le_div {n d j : ℕ} (hn : 0 < n) (hd : 0 < d) (h : d ≤ 2 ^ j) :
    (2 : ℚ) ^ (-j : ℤ) ≤ n / d := by
  have hn₁ : (1 : ℚ) ≤ n := by exact_mod_cast hn
  have hd₀ : (0 : ℚ) < d := by exact_mod_cast hd
  rw [zpow_neg, zpow_natCast, inv_le_comm₀ (by positivity) (by positivity), inv_div]
  exact (div_le_self hd₀.le hn₁).trans (cast_le_two_pow h)

theorem div_le_two_pow {n d j : ℕ} (hd : 0 < d) (h : n ≤ 2 ^ j) : (n / d : ℚ) ≤ 2 ^ j := by
  have hd₁ : (1 : ℚ) ≤ d := by exact_mod_cast hd
  exact (div_le_self (Nat.cast_nonneg n) hd₁).trans (cast_le_two_pow h)

theorem abs_le_of_near {w q b : ℚ} (h : |w - q| ≤ q / 2 ^ 53) (hq : 0 ≤ q) (hb : q ≤ b) :
    |w| ≤ 2 * b := by
  have hle : q / 2 ^ 53 ≤ q := div_le_self hq (by norm_num)
  calc |w| = |w - q + q| := by rw [sub_add_cancel]
    _ ≤ |w - q| + |q| := abs_add_le _ _
    _ ≤ 2 * b := by rw [abs_of_nonneg hq]; linarith

/-- Quotients of integers are off by at most one part in `2 ^ 53`. -/
theorem ratio_near {n d : ℕ} (hn : n ≤ 2 ^ 1022) (hd : 0 < d) (hd' : d ≤ 2 ^ 1022) :
    |toRat (ratio n d) - n / d| ≤ n / d / 2 ^ 53 := by
  rcases Nat.eq_zero_or_pos n with rfl | hpos
  · have hunpack := unpack_ofModel_pack (f := .zero .positive) trivial rfl (by simp)
    have hquotient : div .binary64 (whole 0) (.finite .positive d 0 hd) = .zero .positive := rfl
    rw [toRat, ratio, whole_of_pos hd, hquotient, hunpack]
    simp
  · have hnear := div_near .binary64 hpos hd 0 0
    rw [zpow_zero, mul_one, mul_one] at hnear
    have hnear := hnear (two_zpow_neg_le_div hpos hd hd')
    have hsmall := abs_le_of_near hnear (div_nonneg (Nat.cast_nonneg n) (Nat.cast_nonneg d))
      (div_le_two_pow hd hn)
    rw [← pow_succ'] at hsmall
    have hunpack := unpack_ofModel_pack (div_canonical _ hpos hd 0 0)
      (isFinite_roundWithAccuracy ..)
      (hsmall.trans_lt (pow_lt_pow_right₀ one_lt_two (by decide)))
    rw [toRat, ratio, whole_of_pos hpos, whole_of_pos hd, hunpack]
    exact hnear

variable {x : Float} {m : ℕ} {e : ℤ} {hm : 0 < m}

theorem canonical_of_unpack (hx : x.toModel.unpack = .finite .positive m e hm) :
    Canonical .binary64 m e := by
  have hcanonical : IsCanonical .binary64 x.toModel.unpack := unpack_canonical _
  rwa [hx] at hcanonical

end Binary64

end CodeChunks
