import CodeChunks.Proofs.Number.Rounding

/-! # Packed numbers come back

A number of a format is packed into bits and unpacked without loss, except that numbers too large
for the format become infinite. -/
namespace CodeChunks.Rounding

open Float.Model (Format UnpackedFloat)
open Float.Model.UnpackedFloat

variable {spec : Format} {m n : ℕ} {e k : ℤ} {s : Sign}

theorem two_pow_exponentBits (spec : Format) :
    2 ^ spec.exponentBits = 2 * spec.exponentBias + 2 := by
  have hpos : 1 ≤ 2 ^ (spec.exponentBits - 1) := Nat.one_le_two_pow
  have hbits := Nat.two_pow_pred_mul_two spec.he
  rw [Format.exponentBias]
  omega

theorem toNat_implicit {w : ℕ} (v : BitVec w) : (1#1 ++ v).toNat = 2 ^ w + v.toNat := by
  rw [BitVec.toNat_append, ← Nat.shiftLeft_add_eq_or_of_lt v.isLt, Nat.shiftLeft_eq]
  simp

theorem two_pow_mantissaBits (spec : Format) :
    2 ^ spec.mantissaBits = 2 * 2 ^ spec.mantissaBitsWithoutImplicit := by
  rw [Format.mantissaBits, pow_add, pow_one]

theorem unpack_canonical (b : BitVec spec.numBits) : IsCanonical spec (unpack spec b) := by
  have hbits := two_pow_mantissaBits spec
  have hlt := (unpackMantissa b).isLt
  rw [unpack]
  split
  · split <;> trivial
  · by_cases hzero : unpackExponent b = BitVec.ofNat spec.exponentBits 0
    · rw [if_pos hzero]
      split
      · trivial
      · rw [hzero]
        refine ⟨by omega, ?_, .inr ?_⟩ <;> rw [minExponent_eq] <;> simp <;> omega
    · rw [if_neg hzero]
      have hpos : 0 < (unpackExponent b).toNat := by
        rwa [BitVec.toNat_pos, BitVec.pos_iff_ne_zero]
      rw [IsCanonical, Canonical, toNat_implicit, minExponent_eq]
      exact ⟨by omega, by omega, .inl (by omega)⟩

/-- An exponent is no larger than its bits allow. -/
theorem exponent_le_of_unpack (spec : Format) {b : BitVec spec.numBits} {hm : 0 < m}
    (h : unpack spec b = .finite s m e hm) :
    e + spec.exponentBias + spec.mantissaBitsWithoutImplicit + 1 ≤ (2 ^ spec.exponentBits : ℕ) := by
  have hexponents := two_pow_exponentBits spec
  have hlt := (unpackExponent b).isLt
  rw [unpack] at h
  by_cases htop : unpackExponent b = -1#_
  · rw [if_pos htop] at h
    split at h <;> cases h
  · rw [if_neg htop] at h
    by_cases hzero : unpackExponent b = 0#_
    · rw [if_pos hzero] at h
      split at h
      · cases h
      · cases h
        rw [hzero, BitVec.toNat_zero]
        omega
    · rw [if_neg hzero] at h
      cases h
      omega

theorem beyond_of_unpackExponent {b : BitVec spec.numBits} (h : unpackExponent b = -1#_) :
    Beyond n k (unpack spec b) := by
  rw [unpack]
  split
  · split <;> trivial
  · contradiction

theorem unpackSign_packComponents {x : BitVec spec.exponentBits}
    {v : BitVec spec.mantissaBitsWithoutImplicit} :
    unpackSign (packComponents spec s x v) = s.toBitVec := by
  apply BitVec.eq_of_getLsbD_eq
  intro i hi
  obtain rfl : i = 0 := by omega
  simp [unpackSign, packComponents, BitVec.getLsbD_append, BitVec.getElem_append]

theorem ofBitVec_toBitVec (s : Sign) : Sign.ofBitVec s.toBitVec = s := by cases s <;> rfl

theorem zero_ne_neg_one (spec : Format) : BitVec.ofNat spec.exponentBits 0 ≠ -1#_ := by
  intro htop
  have hexponents := two_pow_exponentBits spec
  have hnat := congrArg BitVec.toNat htop
  rw [BitVec.neg_one_eq_allOnes, BitVec.toNat_allOnes, BitVec.toNat_zero] at hnat
  omega

theorem unpack_normal {x : BitVec spec.exponentBits} {v : BitVec spec.mantissaBitsWithoutImplicit}
    (hzero : x ≠ 0#_) (htop : x ≠ -1#_) (hm : 0 < m)
    (hmantissa : 2 ^ spec.mantissaBitsWithoutImplicit + v.toNat = m)
    (hexponent : (x.toNat : ℤ) - (spec.exponentBias + spec.mantissaBitsWithoutImplicit) = e) :
    unpack spec (packComponents spec s x v) = .finite s m e hm := by
  rw [unpack]
  simp only [unpackExponent_packComponents, unpackMantissa_packComponents,
    unpackSign_packComponents, ofBitVec_toBitVec, if_neg hzero, if_neg htop, finite.injEq,
    toNat_implicit]
  exact ⟨trivial, hmantissa, hexponent⟩

theorem unpack_subnormal {v : BitVec spec.mantissaBitsWithoutImplicit} (hm : 0 < m)
    (hmantissa : v.toNat = m) :
    unpack spec (packComponents spec s 0#_ v) = .finite s m spec.minExponent hm := by
  have hv : v ≠ 0#_ := by
    rintro rfl
    rw [BitVec.toNat_zero] at hmantissa
    omega
  rw [unpack]
  simp only [unpackExponent_packComponents, unpackMantissa_packComponents,
    unpackSign_packComponents, ofBitVec_toBitVec, if_neg (zero_ne_neg_one spec), if_pos,
    dif_neg hv, finite.injEq, minExponent_eq, BitVec.toNat_zero]
  exact ⟨trivial, hmantissa, by omega⟩

/-- A number of the format whose exponent is not too large comes back. -/
theorem unpack_pack_finite (h : Canonical spec m e) (hm : 0 < m)
    (hsmall : (e + spec.exponentBias + spec.mantissaBitsWithoutImplicit).toNat + 1 <
      2 ^ spec.exponentBits) :
    unpack spec (pack spec (.finite s m e hm)) = .finite s m e hm := by
  obtain ⟨hlt, hleast, hfull⟩ := h
  have hbits := two_pow_mantissaBits spec
  have hwidth := mantissaBits_eq spec
  have hleast' := minExponent_eq spec ▸ hleast
  have hexponent : ((e + spec.exponentBias + spec.mantissaBitsWithoutImplicit).toNat : ℤ) =
      e + spec.exponentBias + spec.mantissaBitsWithoutImplicit := by omega
  rw [UnpackedFloat.pack]
  rw [if_neg (by omega)]
  generalize (e + spec.exponentBias + spec.mantissaBitsWithoutImplicit).toNat = x
    at hsmall hexponent ⊢
  have hlog : m.log2 + 1 = spec.mantissaBits ↔ 2 ^ spec.mantissaBitsWithoutImplicit ≤ m := by
    have hlog_lt := (Nat.log2_lt hm.ne').mpr hlt
    rw [← Nat.le_log2 hm.ne']
    omega
  by_cases hnormal : m.log2 + 1 = spec.mantissaBits
  · have hm' := hlog.mp hnormal
    have hx : (BitVec.ofNat spec.exponentBits x).toNat = x := by
      rw [BitVec.toNat_ofNat, Nat.mod_eq_of_lt (by omega)]
    have hv : 2 ^ spec.mantissaBitsWithoutImplicit +
        (BitVec.ofNat spec.mantissaBitsWithoutImplicit m).toNat = m := by
      rw [BitVec.toNat_ofNat, Nat.mod_eq_sub_mod hm', Nat.mod_eq_of_lt (by omega)]
      omega
    rw [if_pos hnormal]
    apply unpack_normal _ _ hm hv
    · omega
    · intro hzero
      rw [hzero, BitVec.toNat_zero] at hx
      omega
    · intro htop
      rw [htop, BitVec.neg_one_eq_allOnes, BitVec.toNat_allOnes] at hx
      omega
  · obtain rfl := hfull.resolve_left (hlog.not.mp hnormal)
    have hm' := not_le.mp (hlog.not.mp hnormal)
    rw [if_neg hnormal]
    apply unpack_subnormal hm
    rw [BitVec.toNat_ofNat, Nat.mod_eq_of_lt hm']

/-- Packing changes no number of the format, except that it makes the largest ones infinite. -/
theorem Beyond.pack {f : UnpackedFloat} (h : Beyond n k f) (hf : IsCanonical spec f) :
    Beyond n k (unpack spec (pack spec f)) := by
  cases f with
  | notANumber => exact beyond_of_unpackExponent unpackExponent_packComponents
  | infinity s => exact beyond_of_unpackExponent unpackExponent_packComponents
  | zero s => exact h.elim
  | finite s m e hm =>
    by_cases hlarge : 2 ^ spec.exponentBits ≤
        (e + spec.exponentBias + spec.mantissaBitsWithoutImplicit).toNat + 1
    · rw [UnpackedFloat.pack, if_pos hlarge]
      exact beyond_of_unpackExponent unpackExponent_packComponents
    · rw [unpack_pack_finite hf hm (not_le.mp hlarge)]
      exact h

end CodeChunks.Rounding
