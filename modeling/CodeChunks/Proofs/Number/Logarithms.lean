import CodeChunks.Proofs.Number.Nearest

/-! # Logarithms are near the exact ones

The series is cut off and its terms are cut to integers, which loses some units of a place far below
the last one of the result. The logarithm of a number of the format other than one is large enough
for that to be less than the rounding of the result. -/
namespace CodeChunks.Logarithm

open Finset (range)
open Float.Model (Format UnpackedFloat)
open Float.Model.UnpackedFloat
open Rounding (value)

variable {x n d : ℕ}

theorem sub_one_lt_cast_div (m : ℕ) (hn : 0 < n) : (m / n : ℝ) - 1 < (m / n : ℕ) := by
  have hn' : (0 : ℝ) < n := by exact_mod_cast hn
  have hlt : (m : ℝ) < n * ((m / n : ℕ) + 1) := by exact_mod_cast Nat.lt_mul_div_succ m hn
  rw [sub_lt_iff_lt_add, div_lt_iff₀ hn', mul_comm]
  exact hlt

/-- The terms that are added up, in units of the last place. -/
noncomputable def exactSeries (x terms k : ℕ) : ℝ :=
  ∑ i ∈ range terms, (x / 2 ^ places) ^ (k + i) / (k + i : ℕ) * 2 ^ places

theorem exactSeries_succ (x terms k : ℕ) :
    exactSeries x (terms + 1) k =
      (x / 2 ^ places) ^ k / k * 2 ^ places + exactSeries x terms (k + 1) := by
  rw [exactSeries, Finset.sum_range_succ', add_comm, exactSeries]
  congr 1
  refine Finset.sum_congr rfl fun i _ => ?_
  rw [add_comm i 1, ← add_assoc]

/-- Each term loses at most three units: one when it is divided by its exponent, and two that its
power has lost. -/
theorem series_bounds (hx : (x : ℝ) / 2 ^ places ≤ 1 / 2) (terms : ℕ) {k : ℕ} (power : ℕ)
    (hk : 0 < k)
    (hlow : (x / 2 ^ places : ℝ) ^ k * 2 ^ places - 2 ≤ power)
    (hhigh : (power : ℝ) ≤ (x / 2 ^ places) ^ k * 2 ^ places) :
    exactSeries x terms k - 3 * terms ≤ series x terms k power ∧
      (series x terms k power : ℝ) ≤ exactSeries x terms k := by
  induction terms generalizing k power with
  | zero => simp [exactSeries, series]
  | succ terms ih =>
    have hk₁ : (1 : ℝ) ≤ k := by exact_mod_cast hk
    have hk₀ : (0 : ℝ) < k := by linarith
    have hx₀ : 0 ≤ (x : ℝ) / 2 ^ places := by positivity
    have hpower : (power : ℝ) * (x / 2 ^ places) = (power * x : ℕ) / (2 ^ places : ℕ) := by
      push_cast
      ring
    have hnext_low := sub_one_lt_cast_div (power * x) (Nat.two_pow_pos places)
    have hnext_high : ((power * x / 2 ^ places : ℕ) : ℝ) ≤ (power * x : ℕ) / (2 ^ places : ℕ) :=
      Nat.cast_div_le
    rw [← hpower] at hnext_low hnext_high
    have hterm_low := sub_one_lt_cast_div power hk
    have hterm_high : ((power / k : ℕ) : ℝ) ≤ power / k := Nat.cast_div_le
    have hsucc : (x / 2 ^ places : ℝ) ^ (k + 1) * 2 ^ places =
        (x / 2 ^ places) ^ k * 2 ^ places * (x / 2 ^ places) := by ring
    obtain ⟨hrest_low, hrest_high⟩ := ih (power * x / 2 ^ places)
      (Nat.succ_pos k) (by rw [hsucc]; nlinarith) (by rw [hsucc]; nlinarith)
    have hdiv_low : ((x / 2 ^ places : ℝ) ^ k * 2 ^ places - 2) / k ≤ power / k := by gcongr
    have hdiv_high : (power : ℝ) / k ≤ (x / 2 ^ places) ^ k * 2 ^ places / k := by gcongr
    have htwo : (2 : ℝ) / k ≤ 2 := div_le_self zero_le_two hk₁
    rw [sub_div] at hdiv_low
    rw [exactSeries_succ, series, Nat.shiftRight_eq_div_pow, div_mul_eq_mul_div]
    push_cast
    constructor <;> linarith

/-- All the terms together make a logarithm, and those behind the first ones are small. -/
theorem exactSeries_bounds (hx : (x : ℝ) / 2 ^ places ≤ 1 / 2) :
    -Real.log (1 - x / 2 ^ places) * 2 ^ places - 1 ≤ exactSeries x places 1 ∧
      exactSeries x places 1 ≤ -Real.log (1 - x / 2 ^ places) * 2 ^ places := by
  have hx₀ : 0 ≤ (x : ℝ) / 2 ^ places := by positivity
  have hsum : exactSeries x places 1 =
      (∑ i ∈ range places, (x / 2 ^ places : ℝ) ^ (i + 1) / (i + 1)) * 2 ^ places := by
    rw [exactSeries, Finset.sum_mul]
    refine Finset.sum_congr rfl fun i _ => ?_
    rw [add_comm 1 i, Nat.cast_add, Nat.cast_one]
  rw [hsum]
  generalize (x : ℝ) / 2 ^ places = y at hx hx₀
  have habs : |y| < 1 := by
    rw [abs_of_nonneg hx₀]
    linarith
  have hrest := Real.abs_log_sub_add_sum_range_le habs places
  have hsmall : |y| ^ (places + 1) / (1 - |y|) ≤ 1 / 2 ^ places := by
    rw [abs_of_nonneg hx₀, div_le_iff₀ (by linarith)]
    calc y ^ (places + 1) ≤ (1 / 2) ^ (places + 1) := by gcongr
      _ = 1 / 2 ^ places * (1 / 2) := by rw [pow_succ, one_div_pow]
      _ ≤ 1 / 2 ^ places * (1 - y) := by gcongr; linarith
  have hall : ∑ i ∈ range places, y ^ (i + 1) / (i + 1) ≤ -Real.log (1 - y) :=
    sum_le_hasSum _ (fun i _ => by positivity) (Real.hasSum_pow_div_log_of_abs_lt_one habs)
  have hlow := (abs_le.mp (hrest.trans hsmall)).1
  constructor
  · calc -Real.log (1 - y) * 2 ^ places - 1 =
          (-Real.log (1 - y) - 1 / 2 ^ places) * 2 ^ places := by field_simp
      _ ≤ _ := by gcongr; linarith
  · gcongr

/-- An argument that is cut off to a place changes the logarithm by two units. -/
theorem log_cut {y r : ℝ} (hr : 1 / 2 ≤ r) (hlow : r ≤ 1 - y)
    (hhigh : (1 - y - r) * 2 ^ places ≤ 1) :
    -Real.log r * 2 ^ places - 2 ≤ -Real.log (1 - y) * 2 ^ places ∧
      -Real.log (1 - y) * 2 ^ places ≤ -Real.log r * 2 ^ places := by
  have hr₀ : 0 < r := by linarith
  have hy₀ : 0 < 1 - y := by linarith
  have hunit : (0 : ℝ) < 2 ^ places := by positivity
  have hratio : Real.log (1 - y) - Real.log r ≤ 2 * (1 - y - r) := by
    rw [← Real.log_div hy₀.ne' hr₀.ne']
    calc Real.log ((1 - y) / r) ≤ (1 - y) / r - 1 := Real.log_le_sub_one_of_pos (by positivity)
      _ = (1 - y - r) / r := by field_simp
      _ ≤ 2 * (1 - y - r) := by
        rw [div_le_iff₀ hr₀]
        nlinarith
  constructor
  · nlinarith
  · have hlog := Real.log_le_log hr₀ hlow
    gcongr

theorem ofRatio_bounds (hd : 0 < d) (hle : d ≤ n) (hn : n ≤ 2 * d) :
    Real.log (n / d) * 2 ^ places - 387 ≤ ofRatio n d ∧
      (ofRatio n d : ℝ) ≤ Real.log (n / d) * 2 ^ places := by
  have hd₀ : (0 : ℝ) < d := by exact_mod_cast hd
  have hn₀ : (0 : ℝ) < n := by exact_mod_cast hd.trans_le hle
  have hunit : (0 : ℝ) < 2 ^ places := by positivity
  obtain ⟨x, hx⟩ : ∃ x, x = (n - d) * 2 ^ places / n := ⟨_, rfl⟩
  have hcast : (((n - d) * 2 ^ places : ℕ) : ℝ) / n = (1 - d / n) * 2 ^ places := by
    rw [Nat.cast_mul, Nat.cast_sub hle]
    push_cast
    field_simp
  have hx_high : (x : ℝ) ≤ (1 - d / n) * 2 ^ places := by
    rw [← hcast, hx]
    exact Nat.cast_div_le
  have hx_low : (1 - d / n) * 2 ^ places - 1 < (x : ℝ) := by
    rw [← hcast, hx]
    exact sub_one_lt_cast_div _ (hd.trans_le hle)
  have hhalf : (1 / 2 : ℝ) ≤ d / n := by
    rw [div_le_div_iff₀ two_pos hn₀]
    exact_mod_cast (by omega : 1 * n ≤ d * 2)
  have hy : (x : ℝ) / 2 ^ places * 2 ^ places = x := div_mul_cancel₀ _ hunit.ne'
  have hy_high : (x : ℝ) / 2 ^ places ≤ 1 - d / n := (div_le_iff₀ hunit).mpr hx_high
  have hy_half : (x : ℝ) / 2 ^ places ≤ 1 / 2 := by linarith
  have hseries := series_bounds hy_half places x one_pos
    (by rw [pow_one, hy]; linarith) (by rw [pow_one, hy])
  have hexact := exactSeries_bounds hy_half
  have hcut := log_cut hhalf (y := x / 2 ^ places) (by linarith) (by linarith)
  have hinverse : -Real.log (d / n) = Real.log (n / d) := by rw [← Real.log_inv, inv_div]
  have hresult : ofRatio n d = series x places 1 x := by
    rw [ofRatio, Nat.shiftLeft_eq, hx]
  have hterms : (3 * (places : ℕ) : ℝ) = 384 := by norm_num [places]
  rw [hinverse] at hcut
  rw [hresult]
  constructor <;> linarith [hseries.1, hseries.2, hexact.1, hexact.2, hcut.1, hcut.2]

/-- The powers of two are taken out of a fraction, and the logarithm of two is added for each. -/
theorem scaled_bounds (hd : 0 < d) (hle : d ≤ n) :
    Real.log (n / d) * 2 ^ places - 387 * ((n / d).log2 + 1) ≤ scaled n d ∧
      (scaled n d : ℝ) ≤ Real.log (n / d) * 2 ^ places ∧
      (n / d).log2 ≤ 2 * Real.log (n / d) := by
  have hone : n / d ≠ 0 := (Nat.div_pos hle hd).ne'
  have hlow : 2 ^ (n / d).log2 * d ≤ n :=
    (Nat.le_div_iff_mul_le hd).mp (Nat.log2_self_le hone)
  have hhigh : n ≤ 2 * (2 ^ (n / d).log2 * d) := by
    have hlt := (Nat.div_lt_iff_lt_mul hd).mp (Nat.lt_log2_self (n := n / d))
    rw [pow_succ'] at hlt
    linarith
  obtain ⟨t, ht⟩ : ∃ t, t = (n / d).log2 := ⟨_, rfl⟩
  rw [← ht] at hlow hhigh ⊢
  have hpos : 0 < 2 ^ t * d := by positivity
  have hd₀ : (0 : ℝ) < d := by exact_mod_cast hd
  have hn₀ : (0 : ℝ) < n := by exact_mod_cast hd.trans_le hle
  have hsplit : Real.log (n / d) = t * Real.log 2 + Real.log (n / (2 ^ t * d : ℕ)) := by
    have hproduct : (n / d : ℝ) = 2 ^ t * (n / (2 ^ t * d : ℕ)) := by
      push_cast
      field_simp
    rw [hproduct, Real.log_mul (by positivity) (div_pos hn₀ (by positivity)).ne', Real.log_pow]
  have hrest_nonneg : 0 ≤ Real.log (n / (2 ^ t * d : ℕ)) := by
    apply Real.log_nonneg
    rw [one_le_div (by exact_mod_cast hpos)]
    exact_mod_cast hlow
  have htwo := ofRatio_bounds (n := 2) (d := 1) one_pos one_le_two le_rfl
  rw [Nat.cast_ofNat, Nat.cast_one, div_one] at htwo
  have hrest := ofRatio_bounds hpos hlow hhigh
  have hhalf : (1 / 2 : ℝ) ≤ Real.log 2 := by linarith [Real.log_two_gt_d9]
  have ht₀ : (0 : ℝ) ≤ t := Nat.cast_nonneg t
  have htwos_low := mul_le_mul_of_nonneg_left htwo.1 ht₀
  have htwos_high := mul_le_mul_of_nonneg_left htwo.2 ht₀
  have htwos := mul_le_mul_of_nonneg_left hhalf ht₀
  have hresult : scaled n d = t * ofRatio 2 1 + ofRatio n (2 ^ t * d) := by
    rw [ht, scaled, Nat.shiftLeft_eq, mul_comm d]
  rw [hsplit, hresult]
  push_cast at hrest ⊢
  refine ⟨?_, ?_, ?_⟩
  · linarith [hrest.1]
  · linarith [hrest.2]
  · push_cast at hrest_nonneg
    linarith

/-- What is lost is little against the logarithm itself: other than one, a fraction of numbers of
which one has few bits is not too near to one. -/
theorem scaled_near (hd : 0 < d) (hle : d ≤ n) (hbits : d ≤ 2 ^ 53) :
    |scaled n d / 2 ^ places - Real.log (n / d)| ≤ Real.log (n / d) / 2 ^ 64 := by
  obtain ⟨hlow, hhigh, htwos⟩ := scaled_bounds hd hle
  have hunit : (0 : ℝ) < 2 ^ places := by positivity
  have hd₀ : (0 : ℝ) < d := by exact_mod_cast hd
  rw [div_sub' hunit.ne', abs_div, abs_of_pos hunit, div_le_iff₀ hunit, abs_sub_comm,
    abs_of_nonneg (by linarith)]
  rcases hle.eq_or_lt with rfl | hlt
  · rw [div_self hd₀.ne', Real.log_one, mul_zero, zero_div, zero_mul, zero_sub]
    exact neg_nonpos_of_nonneg (Nat.cast_nonneg _)
  have hn₀ : (0 : ℝ) < n := hd₀.trans (by exact_mod_cast hlt)
  have hfar : 1 ≤ 2 ^ 54 * Real.log (n / d) := by
    have hlog := Real.one_sub_inv_le_log_of_pos (div_pos hn₀ hd₀)
    have hgap : (1 : ℝ) ≤ 2 ^ 54 * (1 - (n / d : ℝ)⁻¹) := by
      have hsucc : (d : ℝ) + 1 ≤ n := by exact_mod_cast hlt
      have hd₁ : (d : ℝ) ≤ 2 ^ 53 := by exact_mod_cast hbits
      rw [inv_div, one_sub_div hn₀.ne', mul_div_assoc', le_div_iff₀ hn₀]
      linarith
    linarith
  have hplaces : (2 : ℝ) ^ places = 2 ^ 64 * 2 ^ 64 := by norm_num [places]
  rw [hplaces] at hlow ⊢
  linarith

/-- Two relative errors add up to less than one part in `2 ^ 52`. -/
theorem abs_sub_le_of_near {w c l : ℝ} (hw : |w - c| ≤ c / 2 ^ 53) (hc : |c - l| ≤ l / 2 ^ 64) :
    |w - l| ≤ l / 2 ^ 52 := by
  have htriangle := abs_sub_le w c l
  have hupper := (abs_le.mp hc).2
  have hlower := abs_nonneg (c - l)
  linarith

theorem round_zero (s : Sign) : round .binary64 s 0 (-places) = .zero s := by cases s <;> rfl

theorem round_near (hd : 0 < d) (hle : d ≤ n) (hbits : d ≤ 2 ^ 53) (s : Sign) :
    |s.apply 1 * (value (round .binary64 s (scaled n d) (-places)) : ℝ) - Real.log (n / d)| ≤
      Real.log (n / d) / 2 ^ 52 := by
  refine abs_sub_le_of_near ?_ (scaled_near hd hle hbits)
  rcases Nat.eq_zero_or_pos (scaled n d) with hzero | hpos
  · rw [hzero, round_zero, Rounding.value_zero]
    simp
  · have hone : (1 : ℚ) ≤ scaled n d := by exact_mod_cast hpos
    have hleast : Format.binary64.minExponent + Format.binary64.mantissaBitsWithoutImplicit ≤
        -(places : ℤ) := by decide
    have hnear := Rounding.round_near hpos ((zpow_le_zpow_right₀ one_le_two hleast).trans
      (le_mul_of_one_le_left (by positivity) hone)) s
    generalize round .binary64 s (scaled n d) (-places) = f at hnear ⊢
    generalize scaled n d = c at hnear ⊢
    have hmantissa : Format.binary64.mantissaBits = 53 := rfl
    rw [zpow_neg, zpow_natCast, ← div_eq_mul_inv, hmantissa] at hnear
    have hnear' : |(s.apply 1 : ℚ) * value f - c / 2 ^ places| ≤ c / 2 ^ places / 2 ^ 53 := by
      cases s with
      | positive => simpa [Sign.apply] using hnear
      | negative =>
        rw [← abs_neg]
        simpa [Sign.apply, add_comm] using hnear
    have hcast := (Rat.cast_le (K := ℝ)).mpr hnear'
    push_cast at hcast
    exact hcast

/-- The two numbers of a fraction that a finite number is. One of them is short. -/
theorem scaled_eq {m : ℕ} (hm : 0 < m) (e : ℤ) :
    let q := Binary64.scaled 2 m e
    0 < q.num ∧ 0 < q.den ∧ (q.num / q.den : ℚ) = m * 2 ^ e ∧
      (m < 2 ^ 53 → (q.den ≤ q.num → q.den ≤ 2 ^ 53) ∧ (q.num < q.den → q.num ≤ 2 ^ 53)) := by
  intro q
  by_cases he : 0 ≤ e
  · obtain ⟨j, rfl⟩ := Int.eq_ofNat_of_zero_le he
    have hq : q = ⟨m * 2 ^ j, 1⟩ := by
      rw [show q = Binary64.scaled 2 m j from rfl, Binary64.scaled, if_pos he]
      rfl
    rw [hq]
    refine ⟨by positivity, one_pos, by push_cast; rw [div_one, zpow_natCast], fun h => ⟨?_, ?_⟩⟩
    · exact fun _ => by norm_num
    · intro hlt
      have : 0 < m * 2 ^ j := by positivity
      dsimp only at hlt
      omega
  · obtain ⟨j, hj⟩ : ∃ j : ℕ, e = -j := ⟨(-e).toNat, by omega⟩
    have hq : q = ⟨m, 2 ^ j⟩ := by
      rw [show q = Binary64.scaled 2 m e from rfl, Binary64.scaled, if_neg he, hj, neg_neg]
      rfl
    rw [hq, hj]
    refine ⟨hm, by positivity, by push_cast; rw [zpow_neg, zpow_natCast, div_eq_mul_inv],
      fun h => ⟨fun hle => hle.trans h.le, fun _ => h.le⟩⟩

/-- The logarithm of a finite number is found with its sign. -/
theorem ofFraction_near (q : Binary64.Fraction) (hnum : 0 < q.num) (hden : 0 < q.den)
    (habove : q.den ≤ q.num → q.den ≤ 2 ^ 53) (hbelow : q.num < q.den → q.num ≤ 2 ^ 53) :
    |value (ofFraction q) - Real.log (q.num / q.den)| ≤ |Real.log (q.num / q.den)| / 2 ^ 52 := by
  rw [ofFraction]
  by_cases hle : q.den ≤ q.num
  · have hnear := round_near hden hle (habove hle) .positive
    have hlog : 0 ≤ Real.log (q.num / q.den) := by
      apply Real.log_nonneg
      rw [one_le_div (by exact_mod_cast hden)]
      exact_mod_cast hle
    rw [if_pos hle, abs_of_nonneg hlog]
    simpa [Sign.apply] using hnear
  · have hlt := not_le.mp hle
    have hnear := round_near hnum hlt.le (hbelow hlt) .negative
    have hinverse : Real.log (q.num / q.den) = -Real.log (q.den / q.num) := by
      rw [← Real.log_inv, inv_div]
    have hlog : 0 ≤ Real.log (q.den / q.num) := by
      apply Real.log_nonneg
      rw [one_le_div (by exact_mod_cast hnum)]
      exact_mod_cast hlt.le
    rw [if_neg hle, hinverse, abs_neg, abs_of_nonneg hlog, ← abs_neg]
    simpa [Sign.apply, sub_eq_add_neg, add_comm] using hnear

theorem round_canonical (s : Sign) (c : ℕ) :
    Rounding.IsCanonical .binary64 (round .binary64 s c (-places)) ∧
      (round .binary64 s c (-places)).isFinite := by
  rcases Nat.eq_zero_or_pos c with rfl | hpos
  · rw [round_zero]
    exact ⟨trivial, rfl⟩
  · exact ⟨Rounding.round_canonical hpos, Rounding.isFinite_roundWithAccuracy ..⟩

theorem ofFraction_canonical (q : Binary64.Fraction) :
    Rounding.IsCanonical .binary64 (ofFraction q) ∧ (ofFraction q).isFinite := by
  rw [ofFraction]
  split
  · exact round_canonical _ _
  · exact round_canonical _ _

/-- The logarithms of the numbers of a format are not large. -/
theorem abs_log_le {m : ℕ} {e : ℤ} (hm : 0 < m) (hbits : m < 2 ^ 53) (hlow : -1074 ≤ e)
    (hhigh : e ≤ 972) : |Real.log (m * 2 ^ e)| ≤ 2000 := by
  have hm₁ : (1 : ℝ) ≤ m := by exact_mod_cast hm
  have hmantissa : Real.log m ≤ 53 * Real.log 2 := by
    calc Real.log m ≤ Real.log (2 ^ 53) :=
          Real.log_le_log (by linarith) (by exact_mod_cast hbits.le)
      _ = 53 * Real.log 2 := by rw [Real.log_pow]; norm_num
  have hnonneg := Real.log_nonneg hm₁
  have htwo₀ := Real.log_two_gt_d9
  have htwo := Real.log_two_lt_d9
  have hlow' : (-1074 : ℝ) ≤ e := by exact_mod_cast hlow
  have hhigh' : (e : ℝ) ≤ 972 := by exact_mod_cast hhigh
  rw [Real.log_mul (by linarith) (by positivity), Real.log_zpow, abs_le]
  constructor <;> nlinarith

open Binary64 (toRat)

variable {y : Float} {m : ℕ} {e : ℤ} {hm : 0 < m}

theorem ofFraction_scaled_near (hy : y.toModel.unpack = .finite .positive m e hm) :
    |value (ofFraction (Binary64.scaled 2 m e)) - Real.log (m * 2 ^ e)| ≤
      |Real.log (m * 2 ^ e)| / 2 ^ 52 := by
  obtain ⟨hnum, hden, hvalue, hbits⟩ := scaled_eq hm e
  have hmantissa := (Binary64.canonical_of_unpack hy).1
  obtain ⟨habove, hbelow⟩ := hbits hmantissa
  have hcast := congrArg (Rat.cast (K := ℝ)) hvalue
  push_cast at hcast
  rw [← hcast]
  exact ofFraction_near _ hnum hden habove hbelow

theorem unpack_ln (hy : y.toModel.unpack = .finite .positive m e hm) :
    (ln y).toModel.unpack = ofFraction (Binary64.scaled 2 m e) := by
  have hunpacked : unpacked y.toModel.unpack = ofFraction (Binary64.scaled 2 m e) := by
    rw [hy]
    rfl
  rw [ln, hunpacked]
  refine Binary64.unpack_ofModel_pack (ofFraction_canonical _).1 (ofFraction_canonical _).2 ?_
  have hnear := ofFraction_scaled_near hy
  obtain ⟨hbits, hleast, -⟩ := Binary64.canonical_of_unpack hy
  have hlow : -1074 ≤ e := hleast
  have hhigh : e + 1023 + 52 + 1 ≤ 2 ^ 11 := Rounding.exponent_le_of_unpack .binary64 hy
  have hlog := abs_log_le hm hbits hlow (by linarith)
  have hbound : |(value (ofFraction (Binary64.scaled 2 m e)) : ℝ)| ≤ 2 ^ 12 := by
    have htriangle := abs_sub_abs_le_abs_sub (value (ofFraction (Binary64.scaled 2 m e)) : ℝ)
      (Real.log (m * 2 ^ e))
    linarith
  have hbound' : |value (ofFraction (Binary64.scaled 2 m e))| ≤ 2 ^ 12 := by
    exact_mod_cast hbound
  exact hbound'.trans_lt (pow_lt_pow_right₀ one_lt_two (by norm_num))

theorem unpack_of_pos (hy : 0 < toRat y) :
    ∃ m e hm, y.toModel.unpack = .finite .positive m e hm := by
  rw [toRat] at hy
  generalize y.toModel.unpack = f at hy ⊢
  cases f with
  | finite s m e hm => cases s with
    | positive => exact ⟨m, e, hm, rfl⟩
    | negative =>
      rw [Rounding.value_finite] at hy
      have hpos : (0 : ℚ) < m * 2 ^ e := by positivity
      simp [Sign.apply] at hy
      linarith
  | _ => exact absurd hy (lt_irrefl 0)

/-- The logarithm of a positive number is off by at most one part in `2 ^ 52`. -/
theorem ln_near (hy : 0 < toRat y) :
    |toRat (ln y) - Real.log (toRat y)| ≤ |Real.log (toRat y)| / 2 ^ 52 := by
  obtain ⟨m, e, hm, h⟩ := unpack_of_pos hy
  have hvalue : ((toRat y : ℚ) : ℝ) = m * 2 ^ e := by
    rw [toRat, h]
    simp [Sign.apply]
  rw [hvalue, toRat, unpack_ln h]
  exact ofFraction_scaled_near h

/-- A number changed by a small part of it has nearly the same logarithm. -/
theorem abs_log_sub_log_le {r q : ℝ} (hq : 0 < q) (h : |r - q| ≤ q / 2 ^ 53) :
    |Real.log r - Real.log q| ≤ 1 / 2 ^ 53 + 1 / 2 ^ 104 := by
  obtain ⟨hlow, hhigh⟩ := abs_le.mp h
  have hr : 0 < r := by linarith
  rw [← Real.log_div hr.ne' hq.ne', abs_le]
  constructor
  · have hlog := Real.one_sub_inv_le_log_of_pos (div_pos hr hq)
    have hinverse : (r / q)⁻¹ ≤ 1 + (1 / 2 ^ 53 + 1 / 2 ^ 104) := by
      rw [inv_div, div_le_iff₀ hr]
      linarith
    linarith
  · have hlog := Real.log_le_sub_one_of_pos (div_pos hr hq)
    have hquotient : r / q ≤ 1 + 1 / 2 ^ 53 := by
      rw [div_le_iff₀ hq]
      linarith
    linarith

/-- The logarithm of a quotient of integers, of which none is large, is off by little. -/
theorem ln_ratio_near (hd : 0 < d) (hle : d ≤ n) (hn : n ≤ 2 ^ 1022) :
    |toRat (ln (Binary64.ratio n d)) - Real.log (n / d)| ≤ (1 + Real.log (n / d)) / 2 ^ 52 := by
  have hd₀ : (0 : ℝ) < d := by exact_mod_cast hd
  have hone : (1 : ℝ) ≤ n / d := by
    rw [one_le_div hd₀]
    exact_mod_cast hle
  have hratio := Binary64.ratio_near hn hd (hle.trans hn)
  have hcast := (Rat.cast_le (K := ℝ)).mpr hratio
  push_cast at hcast
  have hpos : 0 < toRat (Binary64.ratio n d) := by
    have hpos' : (0 : ℝ) < toRat (Binary64.ratio n d) := by linarith [(abs_le.mp hcast).1]
    exact_mod_cast hpos'
  have hln := ln_near hpos
  have hlog := abs_log_sub_log_le (by linarith) hcast
  have hnonneg := Real.log_nonneg hone
  generalize (toRat (ln (Binary64.ratio n d)) : ℝ) = a at hln ⊢
  generalize (toRat (Binary64.ratio n d) : ℝ) = r at hln hlog
  have hr : |Real.log r| ≤ Real.log (n / d) + (1 / 2 ^ 53 + 1 / 2 ^ 104) := by
    have htriangle := abs_sub_abs_le_abs_sub (Real.log r) (Real.log (n / d))
    rw [abs_of_nonneg hnonneg] at htriangle
    linarith
  have htriangle := abs_sub_le a (Real.log r) (Real.log (n / d))
  linarith

end CodeChunks.Logarithm
