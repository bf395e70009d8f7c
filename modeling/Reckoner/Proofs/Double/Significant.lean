import Reckoner.Proofs.Double.Written

/-!
# Significant digits

A decimal that is rounded to `p` significant digits moves by at most half a unit of the last of
them. With seventeen digits or more this is less than half of what lies between a double and the
next one, so that the double is the nearest one to its rounded decimal.
-/
namespace Reckoner

namespace Double

open Float.Model Float.Model.UnpackedFloat Parts

variable {v w : ℚ} {m r : ℕ} {q : ℤ} {s : UnpackedFloat.Sign}

/-- A number next to an integer is rounded to it. -/
theorem roundedMantissa_of_close (hw : 0 ≤ w) (h : |w - r| < 1 / 2) :
    (extended w).roundedMantissa = r := by
  obtain ⟨hlow, hhigh⟩ := abs_lt.1 h
  rcases le_or_gt (r : ℚ) w with hle | hlt
  · have hf := extended_add r (f := w - r) (by linarith) (by linarith)
    rw [add_sub_cancel, decide_eq_false (by linarith)] at hf
    rw [hf, ExtendedMantissa.roundedMantissa]
    cases decide (w - r ≠ 0 ∧ w - r ≠ 1 / 2) <;> rfl
  · obtain ⟨k, rfl⟩ : ∃ k, r = k + 1 := by
      refine Nat.exists_eq_add_one_of_ne_zero fun hz => ?_
      rw [hz, Nat.cast_zero] at hlt
      linarith
    push_cast at hlow hhigh hlt
    have hf := extended_add k (f := w - k) (by linarith) (by linarith)
    rw [add_sub_cancel, decide_eq_true (by linarith),
      decide_eq_true ⟨by linarith, by linarith⟩] at hf
    rw [hf]
    rfl

theorem target_of_bounds (hv : 0 < v) (hq : -1074 ≤ q) (hlow : 2 ^ (52 + q) ≤ v ∨ q = -1074)
    (hhigh : v < 2 ^ (53 + q)) : target v = q := by
  have hlt : Int.log 2 v < 53 + q :=
    (Int.lt_zpow_iff_log_lt (by norm_num) hv).1 (by exact_mod_cast hhigh)
  rw [target]
  rcases hlow with hlow | rfl
  · have : 52 + q ≤ Int.log 2 v :=
      (Int.zpow_le_iff_le_log (by norm_num) hv).1 (by exact_mod_cast hlow)
    omega
  · omega

/-- Rounding up to a power of two takes a further bit away. -/
theorem nearest_of_carry (hq : -1074 < q) (hm : 0 < 2 ^ 52) (ht : target v = q - 1)
    (hr : (extended (v / 2 ^ (q - 1))).roundedMantissa = 2 ^ 53) :
    nearest s v = .finite s (2 ^ 52) q hm := by
  have he : Format.binary64.targetExponent (totalExponent (2 ^ 53) (q - 1)) = q := by
    rw [targetExponent_eq, totalExponent, Nat.log2_two_pow]
    omega
  have hmant : (extended (((2 ^ 53 : ℕ) : ℚ) / 2 ^ 1)).mantissa = 2 ^ 52 := by
    rw [mantissa_extended_div]
    rfl
  simp only [nearest, ht, hr, shiftToTargetExponent_exact, he, sub_sub_cancel, Int.toNat_one,
    hmant, hm.ne', dite_false, Nat.cast_one, sub_add_cancel]

/-- The distance to a double as a part of a unit of its mantissa. -/
theorem abs_div_sub_lt {c : ℚ} (hv : |v - m * 2 ^ q| < c * 2 ^ q) : |v / 2 ^ q - m| < c := by
  have hpow : (0 : ℚ) < 2 ^ q := by positivity
  rw [← mul_lt_mul_iff_left₀ hpow, ← abs_of_pos hpow, ← abs_mul, abs_of_pos hpow, sub_mul,
    div_mul_cancel₀ _ hpow.ne']
  exact hv

/-- A number nearer to a double than 2^-54 of it is rounded to it. Below a power of two doubles lie
twice as close, but there a smaller distance is asked for too. -/
theorem nearest_of_close (hm : 0 < m) (h : Canonical m q)
    (hv : |v - m * 2 ^ q| < m * 2 ^ q / 2 ^ 54) : nearest s v = .finite s m q hm := by
  have hpow : (0 : ℚ) < 2 ^ q := by positivity
  have hpos : (0 : ℚ) < m * 2 ^ q := by positivity
  have hvpos : 0 < v := by
    have := (abs_lt.1 hv).1
    linarith
  have hlt : (m : ℚ) + 1 ≤ 2 ^ 53 := by exact_mod_cast h.lt
  have hhalf : |v - m * 2 ^ q| < 1 / 2 * 2 ^ q := by
    refine hv.trans ?_
    rw [div_eq_mul_inv, mul_right_comm]
    gcongr
    linarith
  have hclose := abs_div_sub_lt hhalf
  obtain ⟨hlow, hhigh⟩ := abs_lt.1 hclose
  by_cases hbinade : 2 ^ (52 + q) ≤ v ∨ q = -1074
  · refine nearest_of_mantissa hm (targetExponent_of_canonical hm.ne' h)
      (target_of_bounds hvpos h.ge hbinade ?_) (roundedMantissa_of_close (by positivity) hclose)
    rw [zpow_add₀ (by norm_num), ← div_lt_iff₀ hpow]
    norm_num at hlt ⊢
    linarith
  · rw [not_or, not_le, zpow_add₀ (by norm_num), ← div_lt_iff₀ hpow] at hbinade
    obtain ⟨hbelow, hq⟩ := hbinade
    have hnormal : 2 ^ 52 ≤ m := h.normal.resolve_right hq
    obtain rfl : m = 2 ^ 52 := by
      have : (m : ℚ) < 2 ^ 52 + 1 := by
        rw [show (2 : ℚ) ^ (52 : ℤ) = 2 ^ 52 by norm_num] at hbelow
        linarith
      have : m < 2 ^ 52 + 1 := by exact_mod_cast this
      omega
    have hunit : (2 : ℚ) ^ q = 2 * 2 ^ (q - 1) := by
      rw [mul_comm, ← zpow_add_one₀ (by norm_num), sub_add_cancel]
    have hmantissa : ((2 ^ 52 : ℕ) : ℚ) * 2 ^ q = ((2 ^ 53 : ℕ) : ℚ) * 2 ^ (q - 1) := by
      rw [hunit]
      push_cast
      ring
    have hcarry : |v / 2 ^ (q - 1) - (2 ^ 53 : ℕ)| < 1 / 2 := by
      refine abs_div_sub_lt ?_
      rw [← hmantissa]
      refine hv.trans_le (le_of_eq ?_)
      rw [hmantissa]
      push_cast
      ring
    refine nearest_of_carry (lt_of_le_of_ne h.ge (Ne.symm hq)) hm
      (target_of_bounds hvpos ?_ (.inl ?_) ?_)
      (roundedMantissa_of_close (by positivity) hcarry)
    · have := h.ge
      omega
    · have hpow' : (0 : ℚ) < 2 ^ (q - 1) := by positivity
      have := (abs_lt.1 hcarry).1
      rw [zpow_add₀ (by norm_num), ← le_div_iff₀ hpow']
      norm_num at this ⊢
      linarith
    · rw [show 53 + (q - 1) = 52 + q by ring, zpow_add₀ (by norm_num), ← div_lt_iff₀ hpow]
      exact hbelow

end Double

namespace Decimal

open Double Parts Number

variable {d : Decimal}

theorem nearest_zero (d : Decimal) : d.nearest 0 = d := by
  simp [nearest, roundsUp, below, Nat.mod_one]

/-- Cutting digits off moves a decimal by at most half a unit of the last digit that is left. -/
theorem abs_nearest_sub_le (d : Decimal) (k : ℕ) :
    |(d.nearest k).toRat - d.toRat| ≤ 10 ^ (d.exponent + k) / 2 := by
  have hsplit : (d.digits : ℚ) =
      10 ^ k * (d.digits / 10 ^ k : ℕ) + (d.digits % 10 ^ k : ℕ) := by
    exact_mod_cast (Nat.div_add_mod d.digits (10 ^ k)).symm
  have hlt : d.digits % 10 ^ k < 10 ^ k := Nat.mod_lt _ (by positivity)
  have hunit : (0 : ℚ) < 10 ^ d.exponent := by positivity
  have hscale : (10 : ℚ) ^ (d.exponent + k) = 10 ^ k * 10 ^ d.exponent := by
    rw [zpow_add₀ (by norm_num), zpow_natCast, mul_comm]
  by_cases hup : d.roundsUp k = true
  · have hhalf : (10 : ℚ) ^ k ≤ 2 * (d.digits % 10 ^ k : ℕ) := by
      simp only [roundsUp, Nat.pow_eq, gt_iff_lt, Bool.or_eq_true, decide_eq_true_eq,
        Bool.and_eq_true, beq_iff_eq] at hup
      have : 10 ^ k ≤ 2 * (d.digits % 10 ^ k) := by omega
      exact_mod_cast this
    have hrest : ((d.digits % 10 ^ k : ℕ) : ℚ) < 10 ^ k := by exact_mod_cast hlt
    have herror : (d.above k).toRat - d.toRat =
        (10 ^ k - (d.digits % 10 ^ k : ℕ)) * 10 ^ d.exponent := by
      rw [above, toRat, toRat, Nat.pow_eq, hscale, hsplit]
      push_cast
      ring
    rw [nearest, if_pos hup, herror, hscale, mul_div_right_comm,
      abs_of_nonneg (mul_nonneg (by linarith) hunit.le)]
    gcongr
    linarith
  · have hhalf : 2 * ((d.digits % 10 ^ k : ℕ) : ℚ) ≤ 10 ^ k := by
      simp only [roundsUp, Nat.pow_eq, gt_iff_lt, Bool.or_eq_true, decide_eq_true_eq, not_or] at hup
      have : 2 * (d.digits % 10 ^ k) ≤ 10 ^ k := by omega
      exact_mod_cast this
    have herror : (d.below k).toRat - d.toRat =
        -((d.digits % 10 ^ k : ℕ) * 10 ^ d.exponent) := by
      rw [below, toRat, toRat, Nat.pow_eq, hscale, hsplit]
      push_cast
      ring
    rw [nearest, if_neg hup, herror, hscale, mul_div_right_comm, abs_neg,
      abs_of_nonneg (by positivity)]
    gcongr
    linarith

theorem toRat_nearest_of_digits_eq_zero (h : d.digits = 0) (k : ℕ) : (d.nearest k).toRat = 0 := by
  have hdown : d.roundsUp k = false := by simp [roundsUp, h]
  simp [nearest, hdown, below, toRat, h]

theorem pow_width_le (h : d.digits ≠ 0) : 10 ^ (d.width - 1) ≤ d.digits := by
  by_contra hlt
  rw [not_le] at hlt
  have hpos : 0 < d.width - 1 := by
    by_contra hz
    rw [Nat.eq_zero_of_not_pos hz, pow_zero] at hlt
    omega
  have : d.width ≤ d.width - 1 := (Nat.length_toDigits_le_iff (by norm_num) hpos).2 hlt
  omega

/-- The relative error of rounding to `p` significant digits. -/
theorem abs_toSignificant_sub_le (h : d.digits ≠ 0) {p : ℕ} (hp : 0 < p) :
    |(d.toSignificant p).toRat - d.toRat| ≤ d.toRat / 10 ^ (p - 1) / 2 := by
  have hpos := toRat_pos_iff.2 h
  rw [toSignificant, show max p 1 = p by omega]
  rcases Nat.le_total d.width p with hle | hle
  · rw [Nat.sub_eq_zero_of_le hle, nearest_zero, sub_self, abs_zero]
    positivity
  · refine (abs_nearest_sub_le d _).trans ?_
    gcongr
    rw [le_div_iff₀ (by positivity), zpow_add₀ (by norm_num), zpow_natCast, mul_assoc, ← pow_add,
      show d.width - p + (p - 1) = d.width - 1 by omega, toRat, mul_comm]
    gcongr
    exact_mod_cast pow_width_le h

/-- With seventeen significant digits a double reads back. -/
theorem toFloat_toSignificant {x : Float} {m : ℕ} {q : ℤ} (hm : 0 < m)
    (hx : ofFloat x = .finite false m q) {p : ℕ} (hp : 17 ≤ p) :
    ((ofDyadic m q).toSignificant p).toFloat = x := by
  have hpos : (0 : ℚ) < m * 2 ^ q := by positivity
  have hrat := toRat_ofDyadic m q
  have hdigits : (ofDyadic m q).digits ≠ 0 := toRat_pos_iff.1 (hrat ▸ hpos)
  have herror := abs_toSignificant_sub_le hdigits (show 0 < p by omega)
  rw [hrat] at herror
  have hclose : |((ofDyadic m q).toSignificant p).toRat - m * 2 ^ q| < m * 2 ^ q / 2 ^ 54 := by
    refine herror.trans_lt ?_
    rw [div_div]
    gcongr
    calc (2 : ℚ) ^ 54 < 10 ^ 16 * 2 := by norm_num
      _ ≤ 10 ^ (p - 1) * 2 := by gcongr <;> [norm_num; omega]
  have hresult : ((ofDyadic m q).toSignificant p).digits ≠ 0 := by
    rw [← toRat_pos_iff]
    have := (abs_lt.1 hclose).1
    have : (m : ℚ) * 2 ^ q / 2 ^ 54 < m * 2 ^ q := div_lt_self hpos (by norm_num)
    linarith
  rw [toFloat_eq_ofRat hresult, ofRat, eq_ofModel_of_parts hm hx,
    nearest_of_close hm (canonical_ofBits hx) hclose]
  rfl

end Decimal
end Reckoner
