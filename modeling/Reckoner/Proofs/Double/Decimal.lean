import Reckoner.Number.Decimal
import Reckoner.Proofs.Double.Packed

/-!
# Decimals as doubles

The double of a decimal is the one nearest to its value, however its digits and its exponent share
it, so it does not matter which of two ways it is computed in. A decimal with the value of a double
becomes that double.
-/
namespace Reckoner.Double

open Float.Model Float.Model.UnpackedFloat Parts

/-- The double nearest to a positive number. -/
def ofRat (v : ℚ) : Float := Float.ofModel (.pack (nearest .positive v))

theorem log_mul_ge {m₁ m₂ : ℕ} (e₁ e₂ : ℤ) (h₁ : 0 < m₁) (h₂ : 0 < m₂) :
    m₁.log2 + e₁ + (m₂.log2 + e₂) ≤ Int.log 2 ((m₁ : ℚ) * 2 ^ e₁ * (m₂ * 2 ^ e₂)) := by
  rw [← Int.zpow_le_iff_le_log (by norm_num) (by positivity)]
  rw [Nat.cast_ofNat, zpow_add₀ (by norm_num)]
  exact mul_le_mul (zpow_log_le e₁ h₁) (zpow_log_le e₂ h₂) (by positivity) (by positivity)

/-- Great numbers are beyond the format. -/
theorem pack_nearest_of_great {s : UnpackedFloat.Sign} {v : ℚ} (h : 2 ^ (1024 : ℤ) ≤ v) :
    UnpackedFloat.pack Format.binary64 (nearest s v) = packedInfinity Format.binary64 s := by
  have hv : 0 < v := lt_of_lt_of_le (by positivity) h
  have hlog : 1024 ≤ Int.log 2 v :=
    (Int.zpow_le_iff_le_log (by norm_num) hv).1 (by exact_mod_cast h)
  have ht : target v = Int.log 2 v - 52 := by
    rw [target]
    omega
  have hle : 2 ^ target v ≤ v := by
    refine le_trans ?_ (Int.zpow_log_le_self (b := 2) (by norm_num) hv)
    rw [Nat.cast_ofNat]
    exact zpow_le_zpow_right₀ (by norm_num) (by omega)
  obtain ⟨m, e, hm, hn, he⟩ := nearest_finite s hle
  rw [hn]
  simp only [UnpackedFloat.pack, biased e]
  rw [if_pos]
  rw [show 2 ^ Format.binary64.exponentBits = 2048 from rfl]
  omega

/-! ## The general way -/

theorem decimal_lt {m : ℕ} {e : ℤ} (h : e < -(2048 + m.log2)) :
    (m : ℚ) * 10 ^ e < 2 ^ (-1075 : ℤ) := by
  have hten : (10 : ℚ) ^ e ≤ 2 ^ e := by
    rw [show (10 : ℚ) = 2 * 5 by norm_num, mul_zpow]
    exact mul_le_of_le_one_right (by positivity) (zpow_le_one_of_nonpos₀ (by norm_num) (by omega))
  calc (m : ℚ) * 10 ^ e ≤ m * 2 ^ e := by gcongr
    _ < 2 ^ ((m.log2 : ℤ) + e + 1) := lt_zpow_log m e
    _ ≤ 2 ^ (-1075 : ℤ) := zpow_le_zpow_right₀ (by norm_num) (by omega)

theorem le_decimal {m : ℕ} {e : ℤ} (hm : 0 < m) (h : 2048 < e) :
    (2 : ℚ) ^ (1024 : ℤ) ≤ m * 10 ^ e := by
  have hone : (1 : ℚ) ≤ m := by exact_mod_cast hm
  calc (2 : ℚ) ^ (1024 : ℤ) ≤ 10 ^ (1024 : ℤ) :=
        zpow_le_zpow_left₀ (by norm_num) (by norm_num) (by norm_num)
    _ ≤ 10 ^ e := zpow_le_zpow_right₀ (by norm_num) (by omega)
    _ ≤ m * 10 ^ e := le_mul_of_one_le_left (by positivity) hone

/-- A power of ten that is an integer is a factor. -/
theorem mul_pow_eq_nearest {m : ℕ} (k : ℕ) (h₁ : 0 < m <<< 53) (h₂ : 0 < 10 ^ k) :
    UnpackedFloat.mul Format.binary64 (.finite .positive (m <<< 53) (-53) h₁)
      (.finite .positive (10 ^ k) 0 h₂) = nearest .positive (m * 10 ^ (k : ℤ)) := by
  have hm : 0 < m := by
    rw [Nat.shiftLeft_eq] at h₁
    exact Nat.pos_of_mul_pos_right h₁
  have hv : ((m <<< 53 : ℕ) : ℚ) * 2 ^ (-53 : ℤ) * ((10 ^ k : ℕ) * 2 ^ (0 : ℤ)) =
      m * 10 ^ (k : ℤ) := by
    rw [Nat.shiftLeft_eq, zpow_natCast, zpow_zero, zpow_neg]
    push_cast
    field_simp
  have hone : (1 : ℚ) ≤ m * 10 ^ (k : ℤ) := by
    rw [zpow_natCast]
    exact_mod_cast Nat.mul_pos hm h₂
  have hlog : 0 ≤ Int.log 2 ((m : ℚ) * 10 ^ (k : ℤ)) :=
    (Int.zpow_le_iff_le_log (by norm_num) (one_pos.trans_le hone)).1 (by simpa using hone)
  have hle : (-53 : ℤ) + 0 ≤ target (m * 10 ^ (k : ℤ)) := by
    rw [target]
    omega
  exact mul_eq_nearest h₁ h₂ hv hle

/-- A power of ten that is a fraction is a divisor. -/
theorem div_pow_eq_nearest {m : ℕ} (k : ℕ) (h₁ : 0 < m) (h₂ : 0 < 10 ^ k) :
    UnpackedFloat.div Format.binary64 (.finite .positive m 0 h₁)
      (.finite .positive (10 ^ k) 0 h₂) = nearest .positive (m * 10 ^ (-k : ℤ)) := by
  have hv : (m : ℚ) * 2 ^ (0 : ℤ) / ((10 ^ k : ℕ) * 2 ^ (0 : ℤ)) = m * 10 ^ (-k : ℤ) := by
    rw [zpow_neg, zpow_natCast, zpow_zero]
    push_cast
    field_simp
  exact div_eq_nearest h₁ h₂ hv

theorem pack_ofScientific {m : ℕ} (e : ℤ) (hm : m ≠ 0) :
    UnpackedFloat.pack Format.binary64 (UnpackedFloat.ofScientific Format.binary64 m e) =
      UnpackedFloat.pack Format.binary64 (nearest .positive (m * 10 ^ e)) := by
  have hpos : 0 < m := Nat.pos_of_ne_zero hm
  have hbits : (2 : ℤ) ^ Format.binary64.exponentBits = 2048 := by norm_num
  simp only [UnpackedFloat.ofScientific, dif_neg hm, hbits]
  split
  · rename_i hgreat
    rw [pack_nearest_of_great (le_decimal hpos hgreat)]
    rfl
  · split
    · rename_i hsmall
      rw [nearest_of_small (by positivity) (decimal_lt hsmall)]
    · split
      · rename_i he
        obtain ⟨k, rfl⟩ := Int.eq_ofNat_of_zero_le he
        have hten : 0 < 10 ^ k := by positivity
        have hshift : 0 < m <<< 53 := by
          rw [Nat.shiftLeft_eq]
          positivity
        rw [← mul_pow_eq_nearest k hshift hten]
        rfl
      · rename_i he
        obtain ⟨k, hk⟩ := Int.eq_ofNat_of_zero_le (show 0 ≤ -e by omega)
        obtain rfl : e = -k := by omega
        have hten : 0 < 10 ^ k := by positivity
        simp only [neg_neg, Int.toNat_natCast]
        rw [← div_pow_eq_nearest k hpos hten]

/-! ## The fast way -/

/-- Whether parts are those of a power of ten. -/
def isPowerOfTen (e : ℕ) : Parts → Bool
  | .finite false m q =>
    2 ^ 52 ≤ m && m * 2 ^ q.toNat == 10 ^ e * 2 ^ (-q).toNat
  | _ => false

theorem isPowerOfTen_table : ∀ e : Fin Float.exactlyRepresentablePowersOfTen.size,
    isPowerOfTen e (ofFloat Float.exactlyRepresentablePowersOfTen[e]) = true := by
  decide +kernel

/-- The powers of ten up to the 22nd are doubles. -/
theorem exists_powerOfTen {e : ℕ} (h : e < Float.exactlyRepresentablePowersOfTen.size) :
    ∃ (m : ℕ) (q : ℤ), 2 ^ 52 ≤ m ∧ (m : ℚ) * 2 ^ q = 10 ^ e ∧
      ofFloat Float.exactlyRepresentablePowersOfTen[e] = .finite false m q := by
  have htable := isPowerOfTen_table ⟨e, h⟩
  change isPowerOfTen e (ofFloat Float.exactlyRepresentablePowersOfTen[e]) = true at htable
  cases hp : ofFloat Float.exactlyRepresentablePowersOfTen[e] with
  | nan => simp [hp, isPowerOfTen] at htable
  | infinite _ => simp [hp, isPowerOfTen] at htable
  | finite negative m q =>
    cases negative with
    | true => simp [hp, isPowerOfTen] at htable
    | false =>
      simp only [hp, isPowerOfTen, Bool.and_eq_true, decide_eq_true_eq, beq_iff_eq] at htable
      refine ⟨m, q, htable.1, ?_, rfl⟩
      have hcast : (m : ℚ) * 2 ^ q.toNat = 10 ^ e * 2 ^ (-q).toNat := by exact_mod_cast htable.2
      have hq : q = q.toNat - (-q).toNat := by omega
      rw [hq, zpow_sub₀ (by norm_num), zpow_natCast, zpow_natCast, ← mul_div_assoc, hcast]
      field_simp

theorem ofNat_eq_nearest {m : ℕ} (hm : 0 < m) :
    UnpackedFloat.ofNat Format.binary64 m = nearest .positive m := by
  have hcompare : compare (m : ℤ) 0 = .gt := Int.compare_eq_gt.2 (by omega)
  simp only [UnpackedFloat.ofNat, UnpackedFloat.ofInt, UnpackedFloat.normalize, hcompare,
    Int.toNat_natCast]
  exact round_eq_nearest hm.ne' (by simp)

/-- A small integer as a double. -/
theorem unpack_toFloat {m : ℕ} (hm : 0 < m) (h : m < 2 ^ 53) :
    ∃ (k : ℕ) (q : ℤ) (hk : 0 < k), 2 ^ 52 ≤ k ∧ (k : ℚ) * 2 ^ q = m ∧
      m.toUInt64.toFloat.toModel.unpack = .finite .positive k q hk := by
  have hlog : m.log2 < 53 := (Nat.log2_lt hm.ne').2 h
  obtain ⟨n, hn⟩ : ∃ n, m.log2 + n = 52 := Nat.le.dest (by omega)
  have hlow : 2 ^ 52 ≤ m * 2 ^ n := by
    rw [← hn, pow_add]
    exact Nat.mul_le_mul_right _ (Nat.log2_self_le hm.ne')
  have hhigh : m * 2 ^ n < 2 ^ 53 := by
    rw [show 53 = m.log2 + 1 + n by omega, pow_add]
    exact Nat.mul_lt_mul_of_pos_right Nat.lt_log2_self (by positivity)
  have hc : Canonical (m * 2 ^ n) (-n) := ⟨hhigh, by omega, by omega, .inl hlow⟩
  have hk : 0 < m * 2 ^ n := by positivity
  have hv : ((m * 2 ^ n : ℕ) : ℚ) * 2 ^ (-n : ℤ) = m := by
    rw [zpow_neg, zpow_natCast]
    push_cast
    field_simp
  refine ⟨m * 2 ^ n, -n, hk, hlow, hv, ?_⟩
  have hnat : m.toUInt64.toNat = m := by
    rw [Nat.toUInt64_eq, UInt64.toNat_ofNat']
    exact Nat.mod_eq_of_lt (by omega)
  have hexact := nearest_of_canonical (s := .positive) hk (targetExponent_of_canonical hk.ne' hc)
  rw [hv, ← ofNat_eq_nearest hm] at hexact
  change (Float.Model.pack (UnpackedFloat.ofNat Format.binary64 m.toUInt64.toNat)).unpack = _
  rw [hnat, hexact]
  exact unpack_pack false hk hc

theorem mul_eq (x y : Float) : x * y = Float.ofModel
    (.pack (UnpackedFloat.mul Format.binary64 x.toModel.unpack y.toModel.unpack)) := rfl

theorem div_eq (x y : Float) : x / y = Float.ofModel
    (.pack (UnpackedFloat.div Format.binary64 x.toModel.unpack y.toModel.unpack)) := rfl

theorem fast_eq_ofRat {m e : ℕ} (hm : 0 < m) (h : m < 2 ^ 53)
    (he : e < Float.exactlyRepresentablePowersOfTen.size) :
    m.toUInt64.toFloat * Float.exactlyRepresentablePowersOfTen[e] = ofRat (m * 10 ^ e) ∧
      m.toUInt64.toFloat / Float.exactlyRepresentablePowersOfTen[e] = ofRat (m / 10 ^ e) := by
  obtain ⟨k, q, hk, hk52, hkm, hunpack⟩ := unpack_toFloat hm h
  obtain ⟨l, r, hl52, hle, hparts⟩ := exists_powerOfTen he
  have hl : 0 < l := by omega
  rw [mul_eq, div_eq, hunpack, unpack_of_parts hl hparts]
  constructor
  · have hv : (k : ℚ) * 2 ^ q * (l * 2 ^ r) = m * 10 ^ e := by rw [hkm, hle]
    have hlog := log_mul_ge q r hk hl
    have hk2 := (Nat.le_log2 hk.ne').2 hk52
    have hl2 := (Nat.le_log2 hl.ne').2 hl52
    rw [mul_eq_nearest hk hl hv]
    · rfl
    · rw [target, ← hv]
      omega
  · have hv : (k : ℚ) * 2 ^ q / (l * 2 ^ r) = m / 10 ^ e := by rw [hkm, hle]
    rw [div_eq_nearest hk hl hv]
    rfl

end Reckoner.Double

namespace Reckoner.Decimal

open Double Parts Float.Model

/-- The value of a decimal. -/
def toRat (d : Decimal) : ℚ := d.digits * 10 ^ d.exponent

theorem toRat_pos_iff {d : Decimal} : 0 < d.toRat ↔ d.digits ≠ 0 := by
  constructor
  · intro h hz
    simp [toRat, hz] at h
  · intro h
    have : 0 < d.digits := Nat.pos_of_ne_zero h
    rw [toRat]
    positivity

/-- A decimal becomes the double nearest to its value. -/
theorem toFloat_eq_ofRat {d : Decimal} (h : d.digits ≠ 0) : d.toFloat = ofRat d.toRat := by
  obtain ⟨m, e⟩ := d
  have hm : 0 < m := Nat.pos_of_ne_zero h
  simp only [toFloat, Float.ofScientific, toRat]
  split
  · rename_i hfast
    have he : e.natAbs < Float.exactlyRepresentablePowersOfTen.size :=
      Nat.lt_succ_of_le hfast.2
    obtain ⟨hmul, hdiv⟩ := fast_eq_ofRat hm hfast.1 he
    by_cases hneg : e < 0
    · rw [if_pos (by simpa using hneg), hdiv, div_eq_mul_inv, ← zpow_natCast, ← zpow_neg]
      congr 3
      omega
    · rw [if_neg (by simpa using hneg), hmul, ← zpow_natCast]
      congr 3
      omega
  · have he :
        (if decide (e < 0) = true then Int.negOfNat e.natAbs else Int.ofNat e.natAbs) = e := by
      by_cases hneg : e < 0
      · rw [if_pos (by simpa using hneg), Int.negOfNat_eq]
        simp only [Int.ofNat_eq_natCast]
        omega
      · rw [if_neg (by simpa using hneg)]
        simp only [Int.ofNat_eq_natCast]
        omega
    rw [he]
    simp only [ofRat, Float.Model.ofScientific, Float.Model.pack, pack_ofScientific e h]

/-- How digits and exponent share a value does not matter. -/
theorem toFloat_congr {d d' : Decimal} (h : d.digits ≠ 0) (hd : d.toRat = d'.toRat) :
    d.toFloat = d'.toFloat := by
  have h' : d'.digits ≠ 0 := toRat_pos_iff.1 (hd ▸ toRat_pos_iff.2 h)
  rw [toFloat_eq_ofRat h, toFloat_eq_ofRat h', hd]

/-- A decimal with the value of a double becomes that double. -/
theorem toFloat_of_parts {d : Decimal} {x : Float} {m : ℕ} {q : ℤ} (hm : 0 < m)
    (hx : ofFloat x = .finite false m q) (hd : d.toRat = m * 2 ^ q) : d.toFloat = x := by
  have h : d.digits ≠ 0 := by
    rw [← toRat_pos_iff, hd]
    positivity
  rw [toFloat_eq_ofRat h, hd, ofRat, eq_ofModel_of_parts hm hx]
  rw [nearest_of_canonical hm (targetExponent_of_canonical hm.ne' (canonical_ofBits hx))]
  rfl

end Reckoner.Decimal
