import Reckoner.Library
import Reckoner.Proofs.Double.Value
import Mathlib.Analysis.SpecialFunctions.Pow.Real

/-!
# Powers

A power with an integer as exponent changes its sign with its base if the exponent is odd, and does
not depend on the sign of its base if the exponent is even. This holds of the power of the library
if it holds of the elementary one wherever that has a value: on overflow and at poles the sign is
made up to match, and the power is infinite there. Powers of negative numbers with fractional
exponents are not numbers.
-/
namespace Reckoner

namespace Double

open Parts

variable {x : Float} {k : ℤ}

/-- A double that holds an integer is one. -/
theorem Holds.isInteger (h : Holds x k) : Number.isInteger x = true := by
  obtain ⟨negative, m, q, hp, hv⟩ := h
  simp only [Number.isInteger, hp, Nat.pow_eq, Bool.or_eq_true, decide_eq_true_eq, beq_iff_eq]
  obtain ⟨n, rfl | rfl⟩ := q.eq_nat_or_neg
  · exact .inl (Int.natCast_nonneg n)
  · refine .inr (Nat.mod_eq_zero_of_dvd ⟨k.natAbs, ?_⟩)
    have habs := congrArg (|·|) hv
    rw [abs_withSign, abs_of_nonneg (by positivity), zpow_neg, zpow_natCast, ← Int.cast_abs,
      ← Int.natCast_natAbs, Int.cast_natCast] at habs
    field_simp at habs
    rw [neg_neg, Int.toNat_natCast]
    exact_mod_cast habs

/-- Parity is read off the mantissa and the exponent. -/
theorem Holds.isOddInteger_iff (h : Holds x k) : Number.isOddInteger x = true ↔ Odd k := by
  have hint := h.isInteger
  obtain ⟨negative, m, q, hp, hv⟩ := h
  have hodd : Number.isOddInteger x = (Number.isInteger x && Number.whole m q % 2 == 1) := by
    simp only [Number.isOddInteger, hp]
    rfl
  have hwhole : k.natAbs = Number.whole m q := by
    have habs := congrArg (|·|) hv
    rw [← Number.whole_eq hp hint, abs_withSign, Nat.abs_cast, ← Int.cast_abs,
      ← Int.natCast_natAbs, Int.cast_natCast] at habs
    exact_mod_cast habs.symm
  rw [hodd, hint, Bool.true_and, beq_iff_eq, ← Nat.odd_iff, ← hwhole, Int.natAbs_odd]

theorem eq_infinity_or {negative : Bool} (h : ofFloat x = .infinite negative) :
    x = Number.infinity ∨ x = -Number.infinity := by
  cases negative
  · exact .inl (eq_infinity h)
  · exact .inr (by rw [← neg_eq_infinity h, negate_negate])

theorem isNegative_negate (h : x.isNaN = false) :
    Number.isNegative (-x) = !Number.isNegative x := by
  rw [isNaN_eq_false_iff] at h
  cases hx : ofFloat x with
  | nan => exact absurd hx h
  | infinite negative => rcases eq_infinity_or hx with rfl | rfl <;> decide +kernel
  | finite negative m q => exact (holds_of_parts hx).isNegative_neg

theorem not_isNaN_negate (h : x.isNaN = false) : (-x).isNaN = false := by
  rw [isNaN_eq_false_iff] at h
  cases hx : ofFloat x with
  | nan => exact absurd hx h
  | infinite negative => rcases eq_infinity_or hx with rfl | rfl <;> decide +kernel
  | finite negative m q => exact (holds_of_parts hx).neg.not_isNaN

theorem abs_negate (h : x.isNaN = false) : (-x).abs = x.abs := by
  rw [isNaN_eq_false_iff] at h
  cases hx : ofFloat x with
  | nan => exact absurd hx h
  | infinite negative => rcases eq_infinity_or hx with rfl | rfl <;> decide +kernel
  | finite negative m q =>
    have hv := holds_of_parts hx
    have habs := hv.neg.abs
    rw [abs_neg] at habs
    refine habs.eq hv.abs ?_
    rw [hv.isNegative_abs, hv.neg.isNegative_abs]

end Double

open Double

/-- Numbers from here on are rounded beyond the greatest double. -/
def overflowLimit : ℝ := 2 ^ 1024 - 2 ^ 970

theorem one_lt_overflowLimit : 1 < overflowLimit := by
  have hpow : (1 : ℝ) ≤ 2 ^ 970 := one_le_pow₀ one_le_two
  calc (1 : ℝ) < (2 ^ 54 - 1) * 1 := by norm_num
    _ ≤ (2 ^ 54 - 1) * 2 ^ 970 := mul_le_mul_of_nonneg_left hpow (by norm_num)
    _ = overflowLimit := by rw [overflowLimit, sub_one_mul, ← pow_add]

/-- That the power of two finite numbers exists and overflows. -/
def PowerOverflows (b e : Float) : Prop :=
  ∃ v w, Holds b v ∧ Holds e w ∧ (0 < v ∨ ∃ k : ℤ, w = k) ∧
    overflowLimit ≤ |(v : ℝ)| ^ (w : ℝ)

/-- That two finite numbers have no power: a pole, or a fractional power of a negative number. -/
def PowerUndefined (b e : Float) : Prop :=
  ∃ v w, Holds b v ∧ Holds e w ∧ (v = 0 ∧ w < 0 ∨ v < 0 ∧ ∀ k : ℤ, w ≠ k)

/-- What the library relies on. -/
structure Elementary.LawfulPower (E : Elementary) : Prop where
  odd : ∀ {b e x y : Float} {k : ℤ}, b.isNaN = false → Holds e k → Odd k →
    E.power b e = .ok x → E.power (-b) e = .ok y → y = -x
  even : ∀ {b e x y : Float} {k : ℤ}, b.isNaN = false → Holds e k → Even k →
    E.power b e = .ok x → E.power (-b) e = .ok y → y = x
  range_iff : ∀ {b e : Float}, E.power b e = .error .range ↔ PowerOverflows b e
  domain_iff : ∀ {b e : Float}, E.power b e = .error .domain ↔ PowerUndefined b e

/-- An elementary power gives a number where it has a value. -/
def Elementary.GivesNumber (E : Elementary) (b e : Float) : Prop :=
  ∀ x, E.power b e = .ok x → x.isNaN = false

variable {E : Elementary} {b e : Float} {k : ℤ}

theorem PowerOverflows.neg (he : Holds e k) (h : PowerOverflows b e) : PowerOverflows (-b) e := by
  obtain ⟨v, w, hb, hw, -, hlarge⟩ := h
  refine ⟨-v, w, hb.neg, hw, .inr ⟨k, hw.unique he⟩, ?_⟩
  rwa [Rat.cast_neg, abs_neg]

theorem PowerUndefined.eq_zero (he : Holds e k) (h : PowerUndefined b e) : Holds b 0 := by
  obtain ⟨v, w, hb, hw, ⟨rfl, -⟩ | ⟨-, hfraction⟩⟩ := h
  · exact hb
  · exact absurd (hw.unique he) (hfraction k)

theorem PowerUndefined.neg (he : Holds e k) (h : PowerUndefined b e) : PowerUndefined (-b) e := by
  obtain ⟨v, w, hb, hw, ⟨rfl, hneg⟩ | ⟨-, hfraction⟩⟩ := h
  · exact ⟨-0, w, hb.neg, hw, .inl ⟨neg_zero, hneg⟩⟩
  · exact absurd (hw.unique he) (hfraction k)

/-- Powers of zero do not overflow. -/
theorem PowerOverflows.exists_ne_zero (h : PowerOverflows b e) : ∃ v, v ≠ 0 ∧ Holds b v := by
  obtain ⟨v, w, hb, -, -, hlarge⟩ := h
  refine ⟨v, ?_, hb⟩
  rintro rfl
  rw [Rat.cast_zero, abs_zero] at hlarge
  exact (hlarge.trans (Real.zero_rpow_le_one _)).not_gt one_lt_overflowLimit

theorem PowerOverflows.not_undefined (h : PowerOverflows b e) : ¬PowerUndefined b e := by
  obtain ⟨v, hv, hb⟩ := h.exists_ne_zero
  obtain ⟨v₁, w₁, hb₁, he₁, hdefined, -⟩ := h
  rintro ⟨v₂, w₂, hb₂, he₂, ⟨rfl, -⟩ | ⟨hneg, hfraction⟩⟩
  · exact hv (hb.unique hb₂)
  · rw [hb₁.unique hb₂, he₁.unique he₂] at hdefined
    obtain hpos | ⟨k, hk⟩ := hdefined
    · exact hpos.not_gt hneg
    · exact hfraction k hk

namespace Elementary.LawfulPower

/-- Whether and how a power with an integer as exponent fails does not depend on the sign. -/
theorem error_neg (h : E.LawfulPower) (he : Holds e k) {fault : MathFault}
    (herror : E.power b e = .error fault) : E.power (-b) e = .error fault := by
  cases fault with
  | domain => exact h.domain_iff.2 ((h.domain_iff.1 herror).neg he)
  | range => exact h.range_iff.2 ((h.range_iff.1 herror).neg he)

theorem exists_ok_neg (h : E.LawfulPower) (he : Holds e k) {x : Float}
    (hok : E.power b e = .ok x) : ∃ y, E.power (-b) e = .ok y := by
  cases hneg : E.power (-b) e with
  | ok y => exact ⟨y, rfl⟩
  | error fault =>
    have := h.error_neg he hneg
    rw [negate_negate, hok] at this
    cases this

end Elementary.LawfulPower

namespace Library

/-- On overflow only the odd power of a negative base is negative. -/
theorem power_of_range (h : E.power b e = .error .range) : power E b e =
    if b < 0.0 && Number.isOddInteger e then -Number.infinity else Number.infinity := by
  rw [power, h]

theorem power_of_domain (h : E.power b e = .error .domain) : power E b e =
    if b == 0.0 then
      if Number.isOddInteger e then Number.copySign Number.infinity b else Number.infinity
    else Number.nan := by
  rw [power, h]

theorem copySign_neg (x : Float) (hb : b.isNaN = false) :
    Number.copySign x (-b) = -Number.copySign x b := by
  unfold Number.copySign
  rw [isNegative_negate hb]
  cases Number.isNegative b <;> simp

theorem power_neg_of_odd (h : E.LawfulPower) (hb : b.isNaN = false) (he : Holds e k)
    (hk : Odd k) : power E (-b) e = -power E b e := by
  have hodd := he.isOddInteger_iff.2 hk
  cases hp : E.power b e with
  | ok x =>
    obtain ⟨y, hy⟩ := h.exists_ok_neg he hp
    rw [power, power, hp, hy]
    exact h.odd hb he hk hp hy
  | error fault =>
    have hn := h.error_neg he hp
    cases fault with
    | range =>
      obtain ⟨v, hv, hb⟩ := (h.range_iff.1 hp).exists_ne_zero
      rw [power_of_range hp, power_of_range hn, hodd, Bool.and_true, Bool.and_true]
      simp only [decide_eq_true_eq, hb.lt_zero_iff, hb.neg.lt_zero_iff, Left.neg_neg_iff]
      rcases lt_or_gt_of_ne hv with hlt | hgt
      · rw [if_pos hlt, if_neg hlt.not_gt, negate_negate]
      · rw [if_neg hgt.not_gt, if_pos hgt]
    | domain =>
      have hb := (h.domain_iff.1 hp).eq_zero he
      rw [power_of_domain hp, power_of_domain hn, hodd, if_pos (hb.beq_zero_iff.2 rfl),
        if_pos (hb.neg.beq_zero_iff.2 neg_zero), if_pos rfl, if_pos rfl,
        copySign_neg _ hb.not_isNaN]

theorem power_neg_of_even (h : E.LawfulPower) (hb : b.isNaN = false) (he : Holds e k)
    (hk : Even k) : power E (-b) e = power E b e := by
  have hodd : Number.isOddInteger e = false := by
    rw [Bool.eq_false_iff, ne_eq, he.isOddInteger_iff, Int.not_odd_iff_even]
    exact hk
  cases hp : E.power b e with
  | ok x =>
    obtain ⟨y, hy⟩ := h.exists_ok_neg he hp
    rw [power, power, hp, hy]
    exact h.even hb he hk hp hy
  | error fault =>
    have hn := h.error_neg he hp
    cases fault with
    | range => simp [power_of_range hp, power_of_range hn, hodd]
    | domain =>
      have hb := (h.domain_iff.1 hp).eq_zero he
      rw [power_of_domain hp, power_of_domain hn, hodd, if_pos (hb.beq_zero_iff.2 rfl),
        if_pos (hb.neg.beq_zero_iff.2 neg_zero), if_neg Bool.false_ne_true,
        if_neg Bool.false_ne_true]

theorem not_isNaN_copySign_infinity (b : Float) :
    (Number.copySign Number.infinity b).isNaN = false := by
  unfold Number.copySign
  split <;> decide +kernel

/-- The values that are made up on overflow and at poles are infinities. -/
theorem not_isNaN_power (h : E.LawfulPower) (he : Holds e k) (hnumber : E.GivesNumber b e) :
    (power E b e).isNaN = false := by
  cases hp : E.power b e with
  | ok x =>
    rw [power, hp]
    exact hnumber x hp
  | error fault => cases fault with
    | range =>
      rw [power_of_range hp]
      split <;> decide +kernel
    | domain =>
      have hb := (h.domain_iff.1 hp).eq_zero he
      rw [power_of_domain hp, if_pos (hb.beq_zero_iff.2 rfl)]
      split
      · exact not_isNaN_copySign_infinity b
      · decide +kernel

/-- What is a number to one base is one to its opposite. -/
theorem not_isNaN_power_neg (h : E.LawfulPower) (hb : b.isNaN = false) (he : Holds e k)
    (hpower : (power E b e).isNaN = false) : (power E (-b) e).isNaN = false := by
  rcases Int.even_or_odd k with hk | hk
  · rwa [power_neg_of_even h hb he hk]
  · rw [power_neg_of_odd h hb he hk]
    exact not_isNaN_negate hpower

theorem isNaN_power_of_fraction (h : E.LawfulPower) {v w : ℚ} (hb : Holds b v) (hv : v < 0)
    (he : Holds e w) (hw : ∀ k : ℤ, w ≠ k) : (power E b e).isNaN = true := by
  have hp := h.domain_iff.2 ⟨v, w, hb, he, .inr ⟨hv, hw⟩⟩
  rw [power_of_domain hp, if_neg (hb.beq_zero_iff.not.2 hv.ne)]
  decide +kernel

/-- The parity law of powers, at poles and on overflow too. Both sides of it are numbers if what the
elementary power gives is one. Fractional powers of negative numbers are no numbers. -/
theorem power_parity (h : E.LawfulPower) :
    (∀ (b e : Float) (k : ℤ), b.isNaN = false → Holds e k →
      (Odd k → power E (-b) e = -power E b e) ∧ (Even k → power E (-b) e = power E b e) ∧
      (E.GivesNumber b e → (power E b e).isNaN = false ∧ (power E (-b) e).isNaN = false)) ∧
    ∀ b e : Float, b.isFinite = true → b < 0.0 → e.isFinite = true → (∀ k : ℤ, ¬Holds e k) →
      (power E b e).isNaN = true := by
  constructor
  · intro b e k hb he
    refine ⟨power_neg_of_odd h hb he, power_neg_of_even h hb he, fun hnumber => ?_⟩
    have hpower := not_isNaN_power h he hnumber
    exact ⟨hpower, not_isNaN_power_neg h hb he hpower⟩
  · intro b e hb hlt he hfraction
    obtain ⟨v, hb⟩ := isFinite_iff.1 hb
    obtain ⟨w, he⟩ := isFinite_iff.1 he
    exact isNaN_power_of_fraction h hb (hb.lt_zero_iff.1 hlt) he fun k hk => hfraction k (hk ▸ he)

end Library

/-! ## A lawful power -/

open Classical in
/-- The machine's power of the absolute value, with its sign, and with the failures as they
should be. -/
noncomputable def Elementary.signed : Elementary where
  unary := native.unary
  power b e :=
    if PowerUndefined b e then .error .domain
    else if PowerOverflows b e then .error .range
    else .ok (if Number.isNegative b && Number.isOddInteger e then -Float.pow b.abs e
      else Float.pow b.abs e)
  arctangent2 := native.arctangent2

namespace Elementary

theorem power_signed_eq_ok {x : Float} (h : signed.power b e = .ok x) :
    x = if Number.isNegative b && Number.isOddInteger e then -Float.pow b.abs e
      else Float.pow b.abs e := by
  simp only [signed] at h
  split at h
  · cases h
  · split at h <;> cases h
    rfl

theorem lawfulPower_signed : signed.LawfulPower where
  odd hb he hk hx hy := by
    rw [power_signed_eq_ok hx, power_signed_eq_ok hy, isNegative_negate hb, abs_negate hb,
      he.isOddInteger_iff.2 hk]
    cases Number.isNegative _ <;> simp
  even hb he hk hx hy := by
    have hodd := he.isOddInteger_iff.not.2 (Int.not_odd_iff_even.2 hk)
    rw [power_signed_eq_ok hx, power_signed_eq_ok hy, abs_negate hb,
      Bool.eq_false_of_not_eq_true hodd]
    simp
  range_iff := by
    intro b e
    simp only [signed]
    split
    · rename_i h
      simpa using fun ho : PowerOverflows b e => ho.not_undefined h
    · split <;> simp [*]
  domain_iff := by
    intro b e
    simp only [signed]
    split
    · simp [*]
    · split <;> simp [*]

end Elementary

/-- Zeros of both signs to a negative odd power, and a root of a negative number. -/
theorem Library.power_parity_poles : Elementary.signed.LawfulPower ∧
    (0.0 : Float).isNaN = false ∧ Holds (-3.0) ((-3 : ℤ) : ℚ) ∧ Odd (-3 : ℤ) ∧
    Library.power .signed (-0.0) (-3.0) = -Library.power .signed 0.0 (-3.0) ∧
    (Library.power .signed (-0.0) (-3.0)).isNaN = false ∧
    (Library.power .signed (-8.0) 0.5).isNaN = true := by
  have hexponent : Holds (-3.0) ((-3 : ℤ) : ℚ) :=
    ⟨true, 3 * 2 ^ 51, -51, by decide +kernel, by norm_num [withSign]⟩
  have hodd : Odd (-3 : ℤ) := by decide
  have hnan : (0.0 : Float).isNaN = false := by decide +kernel
  have hpole : Elementary.signed.GivesNumber 0.0 (-3.0) := by
    have hundefined : PowerUndefined 0.0 (-3.0) :=
      ⟨0, ((-3 : ℤ) : ℚ), holds_zero, hexponent, .inl ⟨rfl, by norm_num⟩⟩
    intro x hx
    rw [Elementary.lawfulPower_signed.domain_iff.2 hundefined] at hx
    cases hx
  obtain ⟨hparity, hfraction⟩ := power_parity Elementary.lawfulPower_signed
  obtain ⟨hopposite, -, hnumber⟩ := hparity 0.0 (-3.0) (-3) hnan hexponent
  refine ⟨Elementary.lawfulPower_signed, hnan, hexponent, hodd, hopposite hodd, (hnumber hpole).2,
    hfraction (-8.0) 0.5 (by decide +kernel) (by decide +kernel) (by decide +kernel)
      fun k hk => ?_⟩
  have hhalf : 1 = 2 * k := by
    have := holds_half.unique hk
    field_simp at this
    exact_mod_cast this
  omega

end Reckoner
