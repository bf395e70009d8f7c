import Reckoner.Number.Parts
import Reckoner.Proofs.Double.Nearest

/-!
# Packed doubles

A double and its unpacked form determine each other, and the unpacked form is what the parts of the
double say.
-/
namespace Reckoner.Double

open Float.Model Float.Model.UnpackedFloat

/-! ## Fields of the bits -/

theorem toNat_unpackMantissa (b : BitVec Format.binary64.numBits) :
    (unpackMantissa b).toNat = b.toNat % 2 ^ 52 := by
  simp [unpackMantissa]

theorem toNat_unpackExponent (b : BitVec Format.binary64.numBits) :
    (unpackExponent b).toNat = b.toNat / 2 ^ 52 % 2 ^ 11 := by
  simp [unpackExponent, Nat.shiftRight_eq_div_pow]

theorem toNat_unpackSign (b : BitVec Format.binary64.numBits) :
    (unpackSign b).toNat = b.toNat / 2 ^ 63 := by
  have := b.isLt
  simp only [unpackSign, BitVec.extractLsb_toNat, BitVec.toNat_cast, Nat.shiftRight_eq_div_pow]
  norm_num [Format.numBits] at this ⊢
  omega

theorem toNat_packComponents (s : UnpackedFloat.Sign) (e : BitVec 11) (m : BitVec 52) :
    (packComponents Format.binary64 s e m).toNat =
      s.toBitVec.toNat * 2 ^ 63 + e.toNat * 2 ^ 52 + m.toNat := by
  have he := e.isLt
  have hm := m.isLt
  simp only [packComponents, BitVec.toNat_append]
  rw [← Nat.shiftLeft_add_eq_or_of_lt he, ← Nat.shiftLeft_add_eq_or_of_lt hm]
  simp only [Nat.shiftLeft_eq]
  ring

/-- The sign of a number by its sign bit. -/
def signOf (negative : Bool) : UnpackedFloat.Sign := if negative then .negative else .positive

theorem ofBitVec_unpackSign (b : BitVec Format.binary64.numBits) :
    UnpackedFloat.Sign.ofBitVec (unpackSign b) = signOf (decide (2 ^ 63 ≤ b.toNat)) := by
  have hb : b.toNat < 2 ^ 64 := b.isLt
  have hsign := toNat_unpackSign b
  by_cases h : 2 ^ 63 ≤ b.toNat
  · have hne : unpackSign b ≠ 0#1 := by
      intro hz
      rw [hz, BitVec.toNat_ofNat] at hsign
      omega
    rw [decide_eq_true h, UnpackedFloat.Sign.ofBitVec, if_neg hne]
    rfl
  · have hz : unpackSign b = 0#1 := by
      apply BitVec.eq_of_toNat_eq
      rw [hsign, BitVec.toNat_ofNat]
      omega
    rw [decide_eq_false h, UnpackedFloat.Sign.ofBitVec, if_pos hz]
    rfl

theorem toNat_toBitVec_signOf (negative : Bool) :
    (signOf negative).toBitVec.toNat = negative.toNat := by cases negative <;> rfl

/-! ## Parts -/

end Reckoner.Double

namespace Reckoner.Parts

open Double Float.Model Float.Model.UnpackedFloat

/-- The unpacked form of a double with these parts. -/
def unpacked : Parts → UnpackedFloat
  | nan => .notANumber
  | infinite negative => .infinity (signOf negative)
  | finite negative m q =>
    if h : m = 0 then .zero (signOf negative)
    else .finite (signOf negative) m q (Nat.pos_of_ne_zero h)

theorem unpack_eq_unpacked (b : BitVec Format.binary64.numBits) :
    UnpackedFloat.unpack Format.binary64 b = (ofBits b.toNat).unpacked := by
  have hm := toNat_unpackMantissa b
  have he := toNat_unpackExponent b
  have hzero : unpackMantissa b = 0#52 ↔ b.toNat % 2 ^ 52 = 0 := by
    rw [← BitVec.toNat_inj, hm]
    rfl
  have hmax : unpackExponent b = -1#11 ↔ b.toNat / 2 ^ 52 % 2 ^ 11 = 2047 := by
    rw [← BitVec.toNat_inj, he]
    rfl
  have hmin : unpackExponent b = 0#11 ↔ b.toNat / 2 ^ 52 % 2 ^ 11 = 0 := by
    rw [← BitVec.toNat_inj, he]
    rfl
  have happend : (1#1 ++ unpackMantissa b).toNat = 2 ^ 52 + b.toNat % 2 ^ 52 := by
    rw [BitVec.toNat_append, ← Nat.shiftLeft_add_eq_or_of_lt (unpackMantissa b).isLt, hm]
    rfl
  have hbias : (Format.binary64.exponentBias : ℤ) + Format.binary64.mantissaBitsWithoutImplicit =
      1075 := rfl
  simp only [UnpackedFloat.unpack, ofBits, ofBitVec_unpackSign, Nat.pow_eq, hbias]
  by_cases h₁ : b.toNat / 2 ^ 52 % 2 ^ 11 = 2047
  · rw [if_pos (hmax.2 h₁), if_pos h₁]
    by_cases h₂ : b.toNat % 2 ^ 52 = 0
    · rw [if_pos (hzero.2 h₂), if_pos h₂]
      rfl
    · rw [if_neg (hzero.not.2 h₂), if_neg h₂]
      rfl
  · rw [if_neg (hmax.not.2 h₁), if_neg h₁]
    by_cases h₃ : b.toNat / 2 ^ 52 % 2 ^ 11 = 0
    · rw [if_pos (hmin.2 h₃), if_pos h₃]
      by_cases h₂ : b.toNat % 2 ^ 52 = 0
      · rw [dif_pos (hzero.2 h₂), unpacked, dif_pos h₂]
      · rw [dif_neg (hzero.not.2 h₂), unpacked, dif_neg h₂]
        simp only [hm, he, h₃]
        rfl
    · rw [if_neg (hmin.not.2 h₃), if_neg h₃, unpacked, dif_neg (by omega)]
      simp only [happend, he]
      rfl

theorem unpack_toModel (x : Float) : x.toModel.unpack = (ofFloat x).unpacked :=
  unpack_eq_unpacked x.toModel.toBits.toBitVec

/-- The mantissas and exponents of doubles. -/
structure Canonical (m : Nat) (q : Int) : Prop where
  lt : m < 2 ^ 53
  ge : -1074 ≤ q
  le : q ≤ 971
  normal : 2 ^ 52 ≤ m ∨ q = -1074

theorem canonical_ofBits {bits m : Nat} {negative : Bool} {q : Int}
    (h : ofBits bits = .finite negative m q) : Canonical m q := by
  simp only [ofBits, Nat.pow_eq, Int.ofNat_eq_natCast] at h
  split at h
  · split at h <;> cases h
  · split at h <;> cases h
    · exact ⟨by omega, by omega, by omega, by omega⟩
    · exact ⟨by omega, by omega, by omega, by omega⟩

/-- The bits of a finite double are its magnitude and its sign. -/
def magnitude (m : Nat) (q : Int) : Nat :=
  if m < 2 ^ 52 then m else (q + 1075).toNat * 2 ^ 52 + (m - 2 ^ 52)

theorem ofBits_magnitude {negative : Bool} {m : Nat} {q : Int} (h : Canonical m q) :
    ofBits (negative.toNat * 2 ^ 63 + magnitude m q) = .finite negative m q := by
  obtain ⟨h₁, h₂, h₃, h₄⟩ := h
  have hsign : ∀ r < 2 ^ 63, decide (2 ^ 63 ≤ negative.toNat * 2 ^ 63 + r) = negative := by
    intro r hr
    cases negative
    · simpa using hr
    · simp
  have hmod : ∀ r, (negative.toNat * 2 ^ 63 + r) % 2 ^ 52 = r % 2 ^ 52 := by omega
  have hdiv : ∀ r, (negative.toNat * 2 ^ 63 + r) / 2 ^ 52 % 2 ^ 11 = r / 2 ^ 52 % 2 ^ 11 := by omega
  by_cases hm : m < 2 ^ 52
  · obtain rfl : q = -1074 := by omega
    simp only [ofBits, Nat.pow_eq, magnitude, if_pos hm, hmod, hdiv, hsign m (by omega)]
    rw [if_neg (by omega), if_pos (by omega), Nat.mod_eq_of_lt hm]
  · obtain ⟨k, hk⟩ : ∃ k : ℕ, q + 1075 = k := Int.eq_ofNat_of_zero_le (by omega)
    obtain rfl : q = k - 1075 := by omega
    simp only [ofBits, Nat.pow_eq, magnitude, if_neg hm, hmod, hdiv, hk, Int.toNat_natCast,
      Int.ofNat_eq_natCast, hsign (k * 2 ^ 52 + (m - 2 ^ 52)) (by omega)]
    have hfraction : 2 ^ 52 + (k * 2 ^ 52 + (m - 2 ^ 52)) % 2 ^ 52 = m := by omega
    have hscale : (k * 2 ^ 52 + (m - 2 ^ 52)) / 2 ^ 52 % 2 ^ 11 = k := by omega
    rw [hfraction, hscale, if_neg (by omega), if_neg (by omega)]

theorem bits_of_finite {bits m : Nat} {negative : Bool} {q : Int} (hb : bits < 2 ^ 64)
    (h : ofBits bits = .finite negative m q) :
    bits = negative.toNat * 2 ^ 63 + magnitude m q := by
  have hsign : bits = (decide (2 ^ 63 ≤ bits)).toNat * 2 ^ 63 + bits % 2 ^ 63 := by
    by_cases hs : 2 ^ 63 ≤ bits
    · simp only [hs, decide_true, Bool.toNat_true]
      omega
    · simp only [hs, decide_false, Bool.toNat_false]
      omega
  simp only [ofBits, Nat.pow_eq, Int.ofNat_eq_natCast] at h
  split at h
  · split at h <;> cases h
  · split at h <;> cases h
    · rw [magnitude, if_pos (by omega)]
      omega
    · rw [magnitude, if_neg (by omega)]
      omega

theorem bits_of_infinite {bits : Nat} {negative : Bool} (hb : bits < 2 ^ 64)
    (h : ofBits bits = .infinite negative) :
    bits = negative.toNat * 2 ^ 63 + 2047 * 2 ^ 52 := by
  simp only [ofBits, Nat.pow_eq] at h
  split at h
  · split at h <;> cases h
    by_cases hs : 2 ^ 63 ≤ bits
    · simp only [hs, decide_true, Bool.toNat_true]
      omega
    · simp only [hs, decide_false, Bool.toNat_false]
      omega
  · split at h <;> cases h

/-- Bits without a sign whose scale is not that of a double that is not a number. -/
theorem ofBits_of_scale {e f : Nat} (he : e < 2047 ∨ e = 2047 ∧ f = 0) (hf : f < 2 ^ 52) :
    ofBits (e * 2 ^ 52 + f) = .infinite false ∨
      ∃ m q, ofBits (e * 2 ^ 52 + f) = .finite false m q := by
  have hsign : decide (2 ^ 63 ≤ e * 2 ^ 52 + f) = false := decide_eq_false (by omega)
  have hscale : (e * 2 ^ 52 + f) / 2 ^ 52 % 2 ^ 11 = e := by omega
  have hfraction : (e * 2 ^ 52 + f) % 2 ^ 52 = f := by omega
  simp only [ofBits, Nat.pow_eq, hsign, hscale, hfraction]
  rcases he with he | ⟨rfl, rfl⟩
  · rw [if_neg he.ne]
    split
    · exact .inr ⟨_, _, rfl⟩
    · exact .inr ⟨_, _, rfl⟩
  · exact .inl rfl

theorem fields_of_nan {bits : Nat} (h : ofBits bits = .nan) :
    bits / 2 ^ 52 % 2 ^ 11 = 2047 ∧ bits % 2 ^ 52 ≠ 0 := by
  simp only [ofBits, Nat.pow_eq] at h
  split at h
  · split at h
    · cases h
    · exact ⟨by assumption, by assumption⟩
  · split at h <;> cases h

end Reckoner.Parts

namespace Reckoner.Double

open Float.Model Float.Model.UnpackedFloat Parts

theorem targetExponent_of_canonical {m : ℕ} {q : ℤ} (hm : m ≠ 0) (h : Canonical m q) :
    Format.binary64.targetExponent (totalExponent m q) = q := by
  obtain ⟨h₁, h₂, h₃, h₄⟩ := h
  have hlt := (Nat.log2_lt hm).2 h₁
  have hnormal : 2 ^ 52 ≤ m → 52 ≤ m.log2 := (Nat.le_log2 hm).2
  rw [targetExponent_eq, totalExponent]
  omega

/-- An exponent as it is stored. -/
theorem biased (q : ℤ) : q + (Format.binary64.exponentBias : ℤ) +
    Format.binary64.mantissaBitsWithoutImplicit = q + 1075 := by
  rw [add_assoc]
  rfl

theorem toNat_pack_finite {negative : Bool} {m : ℕ} {q : ℤ} (hm : 0 < m) (h : Canonical m q) :
    (UnpackedFloat.pack Format.binary64 (.finite (signOf negative) m q hm)).toNat =
      negative.toNat * 2 ^ 63 + magnitude m q := by
  obtain ⟨h₁, h₂, h₃, h₄⟩ := h
  obtain ⟨k, hk⟩ : ∃ k : ℕ, q + 1075 = k := Int.eq_ofNat_of_zero_le (by omega)
  simp only [UnpackedFloat.pack, biased q, hk, Int.toNat_natCast]
  have hsmall : ¬2 ^ Format.binary64.exponentBits ≤ k + 1 := by
    rw [show 2 ^ Format.binary64.exponentBits = 2048 from rfl]
    omega
  have hbits : m.log2 + 1 = Format.binary64.mantissaBits ↔ 2 ^ 52 ≤ m := by
    rw [show Format.binary64.mantissaBits = 53 from rfl, ← Nat.le_log2 hm.ne']
    have := (Nat.log2_lt hm.ne').2 h₁
    omega
  rw [if_neg hsmall]
  by_cases hn : 2 ^ 52 ≤ m
  · rw [if_pos (hbits.2 hn), toNat_packComponents, toNat_toBitVec_signOf, magnitude,
      if_neg (by omega), hk, BitVec.toNat_ofNat, BitVec.toNat_ofNat, Int.toNat_natCast]
    omega
  · rw [if_neg (hbits.not.2 hn), toNat_packComponents, toNat_toBitVec_signOf, magnitude,
      if_pos (by omega), BitVec.toNat_ofNat, BitVec.toNat_ofNat]
    omega

/-- Packing undoes unpacking. -/
theorem pack_unpack (b : BitVec Format.binary64.numBits) (h : Format.binary64.Valid b) :
    UnpackedFloat.pack Format.binary64 (UnpackedFloat.unpack Format.binary64 b) = b := by
  have hb : b.toNat < 2 ^ 64 := b.isLt
  rw [unpack_eq_unpacked]
  cases hp : ofBits b.toNat with
  | nan =>
    obtain ⟨he, hm⟩ := fields_of_nan hp
    refine (h.eq_packedNaN ?_ ?_).symm
    · rw [← BitVec.toNat_inj, toNat_unpackExponent, he]
      rfl
    · rw [ne_eq, ← BitVec.toNat_inj, toNat_unpackMantissa]
      exact hm
  | infinite negative =>
    apply BitVec.eq_of_toNat_eq
    rw [bits_of_infinite hb hp]
    have he : (-1#11).toNat = 2047 := rfl
    have hm : (0 : BitVec Format.binary64.mantissaBitsWithoutImplicit).toNat = 0 := rfl
    simp only [unpacked, UnpackedFloat.pack, packedInfinity]
    rw [toNat_packComponents, toNat_toBitVec_signOf, he, hm, add_zero]
  | finite negative m q =>
    apply BitVec.eq_of_toNat_eq
    by_cases hz : m = 0
    · subst hz
      have hc := canonical_ofBits hp
      have hbits := bits_of_finite hb hp
      rw [magnitude, if_pos (by norm_num)] at hbits
      have he : (0 : BitVec Format.binary64.exponentBits).toNat = 0 := rfl
      have hm : (0 : BitVec Format.binary64.mantissaBitsWithoutImplicit).toNat = 0 := rfl
      simp only [unpacked, dite_true, UnpackedFloat.pack, packedZero]
      rw [toNat_packComponents, toNat_toBitVec_signOf, he, hm, hbits, zero_mul, add_zero]
    · rw [unpacked, dif_neg hz, toNat_pack_finite _ (canonical_ofBits hp), ← bits_of_finite hb hp]

@[simp] theorem ofModel_pack_unpack (x : Float) :
    Float.ofModel (Float.Model.pack x.toModel.unpack) = x := by
  obtain ⟨⟨bits, hv⟩⟩ := x
  have := pack_unpack bits.toBitVec hv
  simp only [Float.Model.pack, Float.Model.unpack, this]

/-- Unpacking undoes packing of what a double can hold. -/
theorem unpack_pack (negative : Bool) {m : ℕ} {q : ℤ} (hm : 0 < m) (h : Canonical m q) :
    (Float.Model.pack (.finite (signOf negative) m q hm)).unpack =
      .finite (signOf negative) m q hm := by
  refine (unpack_eq_unpacked _).trans ?_
  rw [show (Float.Model.pack (.finite (signOf negative) m q hm)).toBits.toBitVec =
    UnpackedFloat.pack Format.binary64 (.finite (signOf negative) m q hm) from rfl,
    toNat_pack_finite hm h, ofBits_magnitude h, unpacked, dif_neg hm.ne']

theorem unpack_of_parts {x : Float} {negative : Bool} {m : ℕ} {q : ℤ} (hm : 0 < m)
    (h : ofFloat x = .finite negative m q) :
    x.toModel.unpack = .finite (signOf negative) m q hm := by
  rw [unpack_toModel, h, unpacked, dif_neg hm.ne']

/-- A double whose parts are known. -/
theorem eq_ofModel_of_parts {x : Float} {negative : Bool} {m : ℕ} {q : ℤ} (hm : 0 < m)
    (h : ofFloat x = .finite negative m q) :
    x = Float.ofModel (.pack (.finite (signOf negative) m q hm)) := by
  conv_lhs => rw [← ofModel_pack_unpack x, unpack_of_parts hm h]

end Reckoner.Double
