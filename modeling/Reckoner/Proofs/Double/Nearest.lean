import Mathlib

/-!
# The double nearest to a rational number

The rounding of the floating point model depends only on the number that it rounds. `nearest` is
this function; products, quotients and integers are `nearest` at their exact value.
-/
namespace Reckoner.Double

open Float.Model Float.Model.UnpackedFloat

/-- A number cut off to an integer, with the two bits that sum up what is cut off. -/
def extended (w : ℚ) : ExtendedMantissa where
  mantissa := ⌊w⌋₊
  roundBit := decide (1 / 2 ≤ Int.fract w)
  stickyBit := decide (Int.fract w ≠ 0 ∧ Int.fract w ≠ 1 / 2)

theorem extended_add (k : ℕ) {f : ℚ} (h0 : 0 ≤ f) (h1 : f < 1) :
    extended (k + f) = ⟨k, decide (1 / 2 ≤ f), decide (f ≠ 0 ∧ f ≠ 1 / 2)⟩ := by
  have hfloor : ⌊(k : ℚ) + f⌋₊ = k := by
    rw [Nat.floor_eq_iff (by positivity)]
    constructor <;> linarith
  have hfract : Int.fract ((k : ℚ) + f) = f := by
    rw [Int.fract_natCast_add, Int.fract_eq_self.2 ⟨h0, h1⟩]
  simp only [extended, hfloor, hfract]

theorem extended_natCast (k : ℕ) : extended k = ⟨k, false, false⟩ := by
  have h := extended_add k le_rfl zero_lt_one
  rw [add_zero] at h
  rw [h]
  norm_num

/-- A number as its integer part and the rest. -/
theorem exists_floor_add {w : ℚ} (h : 0 ≤ w) :
    ∃ (k : ℕ) (f : ℚ), w = k + f ∧ 0 ≤ f ∧ f < 1 :=
  ⟨⌊w⌋₊, w - ⌊w⌋₊, by ring, sub_nonneg.2 (Nat.floor_le h), by linarith [Nat.lt_floor_add_one w]⟩

/-- What is cut off is nothing if and only if both bits say so. -/
theorem sticky_iff {f : ℚ} : (1 / 2 ≤ f ∨ f ≠ 0 ∧ f ≠ 1 / 2) ↔ f ≠ 0 := by
  constructor
  · rintro (h | h)
    · linarith
    · exact h.1
  · intro h
    by_cases hf : f = 1 / 2
    · exact .inl hf.ge
    · exact .inr ⟨h, hf⟩

theorem shiftRightOne_extended {w : ℚ} (h : 0 ≤ w) :
    (extended w).shiftRightOne = extended (w / 2) := by
  obtain ⟨k, f, rfl, h0, h1⟩ := exists_floor_add h
  have hk : (k : ℚ) = 2 * (k / 2 : ℕ) + (k % 2 : ℕ) := by exact_mod_cast (Nat.div_add_mod k 2).symm
  have hw : ((k : ℚ) + f) / 2 = (k / 2 : ℕ) + ((k % 2 : ℕ) + f) / 2 := by rw [hk]; ring
  rw [extended_add k h0 h1, hw]
  rcases Nat.mod_two_eq_zero_or_one k with hr | hr
  · have hround : ¬1 / 2 ≤ (((0 : ℕ) : ℚ) + f) / 2 := by push_cast; linarith
    have hsticky : ((((0 : ℕ) : ℚ) + f) / 2 ≠ 0 ∧ (((0 : ℕ) : ℚ) + f) / 2 ≠ 1 / 2) ↔ f ≠ 0 := by
      push_cast
      refine ⟨fun h hf => h.1 (by linarith), fun hf => ⟨fun hz => hf (by linarith), ?_⟩⟩
      intro hz
      linarith
    rw [hr, extended_add _ (by positivity) (by push_cast; linarith)]
    simp only [ExtendedMantissa.shiftRightOne, hr, hround, hsticky, ← Bool.decide_or, sticky_iff]
    rfl
  · have hround : 1 / 2 ≤ (((1 : ℕ) : ℚ) + f) / 2 := by push_cast; linarith
    have hsticky : ((((1 : ℕ) : ℚ) + f) / 2 ≠ 0 ∧ (((1 : ℕ) : ℚ) + f) / 2 ≠ 1 / 2) ↔ f ≠ 0 := by
      push_cast
      refine ⟨fun h hf => h.2 (by linarith), fun hf => ⟨?_, fun hz => hf (by linarith)⟩⟩
      intro hz
      linarith
    rw [hr, extended_add _ (by positivity) (by push_cast; linarith)]
    simp only [ExtendedMantissa.shiftRightOne, hr, hround, hsticky, ← Bool.decide_or, sticky_iff]
    rfl

theorem shiftRight_extended {w : ℚ} (h : 0 ≤ w) (n : ℕ) :
    extended w >>> n = extended (w / 2 ^ n) := by
  change n.repeat ExtendedMantissa.shiftRightOne (extended w) = _
  induction n with
  | zero => simp [Nat.repeat]
  | succ n ih =>
    rw [Nat.repeat, ih, shiftRightOne_extended (by positivity), pow_succ, div_div]

/-- The accuracy of a quotient with a remainder. -/
theorem ofMantissaAndAccuracy_fraction (m num : ℕ) {den : ℕ} (h : num < den) :
    ExtendedMantissa.ofMantissaAndAccuracy m (accuracyOfFraction num den) =
      extended (m + num / den) := by
  have hden : (0 : ℚ) < den := by exact_mod_cast Nat.zero_lt_of_lt h
  rw [extended_add m (by positivity) (by rw [div_lt_one hden]; exact_mod_cast h)]
  unfold accuracyOfFraction
  by_cases hz : num = 0
  · subst hz
    norm_num [ExtendedMantissa.ofMantissaAndAccuracy]
  · have hne : (num : ℚ) / den ≠ 0 := by positivity
    rw [if_neg hz]
    rcases hc : compare (2 * num) den with _ | _ | _
    · have hlt : (num : ℚ) / den < 1 / 2 := by
        rw [div_lt_div_iff₀ hden (by norm_num)]
        have := Nat.compare_eq_lt.1 hc
        have : ((2 * num : ℕ) : ℚ) < den := by exact_mod_cast this
        push_cast at this
        linarith
      rw [decide_eq_false (not_le.2 hlt), decide_eq_true ⟨hne, hlt.ne⟩]
      rfl
    · have heq : (num : ℚ) / den = 1 / 2 := by
        rw [div_eq_div_iff hden.ne' (by norm_num)]
        have := Nat.compare_eq_eq.1 hc
        have : ((2 * num : ℕ) : ℚ) = den := by exact_mod_cast this
        push_cast at this
        linarith
      simp [ExtendedMantissa.ofMantissaAndAccuracy, heq]
    · have hgt : 1 / 2 < (num : ℚ) / den := by
        rw [div_lt_div_iff₀ (by norm_num) hden]
        have := Nat.compare_eq_gt.1 hc
        have : (den : ℚ) < ((2 * num : ℕ) : ℚ) := by exact_mod_cast this
        push_cast at this
        linarith
      rw [decide_eq_true hgt.le, decide_eq_true ⟨hne, hgt.ne'⟩]
      rfl

/-! ## Rounding -/

/-- The exponent at which a number is rounded to a double. -/
def target (v : ℚ) : ℤ := max (Int.log 2 v - 52) (-1074)

/-- The double nearest to the number `v` in absolute value, ties to even; it may be too great for
the format. -/
def nearest (s : UnpackedFloat.Sign) (v : ℚ) : UnpackedFloat :=
  let r := (extended (v / 2 ^ target v)).roundedMantissa
  let shifted := shiftToTargetExponent Format.binary64 r (target v) .exact
  if h : shifted.1.mantissa = 0 then .zero s
  else .finite s shifted.1.mantissa shifted.2 (Nat.pos_of_ne_zero h)

variable {s s₁ s₂ : UnpackedFloat.Sign}

theorem targetExponent_eq (e : ℤ) :
    Format.binary64.targetExponent e = max (e - 53) (-1074) := by
  norm_num [Format.targetExponent, Format.mantissaBits, Format.minExponent]

theorem log_eq {m : ℕ} {e : ℤ} {v : ℚ} (hm : m ≠ 0) (h : m * 2 ^ e ≤ v)
    (h' : v < (m + 1) * 2 ^ e) : Int.log 2 v = m.log2 + e := by
  have hv : 0 < v := lt_of_lt_of_le (by positivity) h
  have hlow : (2 : ℚ) ^ ((m.log2 : ℤ) + e) ≤ v := by
    rw [zpow_add₀ (by norm_num), zpow_natCast]
    refine le_trans ?_ h
    gcongr
    exact_mod_cast Nat.log2_self_le hm
  have hhigh : v < (2 : ℚ) ^ ((m.log2 : ℤ) + e + 1) := by
    rw [add_right_comm, zpow_add₀ (by norm_num)]
    refine lt_of_lt_of_le h' ?_
    gcongr
    exact_mod_cast Nat.succ_le_of_lt (Nat.lt_log2_self (n := m))
  have h₁ : (m.log2 : ℤ) + e ≤ Int.log 2 v :=
    (Int.zpow_le_iff_le_log (by norm_num) hv).1 (by exact_mod_cast hlow)
  have h₂ : Int.log 2 v < (m.log2 : ℤ) + e + 1 :=
    (Int.lt_zpow_iff_log_lt (by norm_num) hv).1 (by exact_mod_cast hhigh)
  omega

/-- The exponent that is found from a mantissa is that of the number, if enough bits are there. -/
theorem targetExponent_eq_target {m : ℕ} {e : ℤ} {v : ℚ} (hv : 0 < v) (hm : ⌊v / 2 ^ e⌋₊ = m)
    (he : e ≤ target v) :
    Format.binary64.targetExponent (totalExponent m e) = target v := by
  have hpow : (0 : ℚ) < 2 ^ e := by positivity
  rw [targetExponent_eq, totalExponent, target]
  rw [target] at he
  obtain ⟨hlow, hhigh⟩ := (Nat.floor_eq_iff (by positivity)).1 hm
  rw [le_div_iff₀ hpow] at hlow
  rw [div_lt_iff₀ hpow] at hhigh
  by_cases hz : m = 0
  · subst hz
    have hlog : Int.log 2 v < e :=
      (Int.lt_zpow_iff_log_lt (by norm_num) hv).1 (by simpa using hhigh)
    rw [show Nat.log2 0 = 0 from rfl]
    push_cast
    omega
  · rw [log_eq hz hlow hhigh]
    congr 1
    ring

/-- Rounding depends on nothing but the number that is rounded. -/
theorem roundWithAccuracy_eq_nearest {m : ℕ} {e : ℤ} {a : Accuracy} {v : ℚ}
    (hv : 0 < v) (hm : ExtendedMantissa.ofMantissaAndAccuracy m a = extended (v / 2 ^ e))
    (he : e ≤ target v) : roundWithAccuracy Format.binary64 s m e a = nearest s v := by
  have hmant : ⌊v / 2 ^ e⌋₊ = m := by
    have := congrArg ExtendedMantissa.mantissa hm
    rw [show (extended (v / 2 ^ e)).mantissa = ⌊v / 2 ^ e⌋₊ from rfl] at this
    rw [← this]
    cases a with
    | exact => rfl
    | inexact o => cases o <;> rfl
  have hshift : shiftToTargetExponent Format.binary64 m e a =
      (extended (v / 2 ^ target v), target v) := by
    rw [shiftToTargetExponent, targetExponent_eq_target hv hmant he, shiftToExponent, hm]
    have hn : e + ((target v - e).toNat : ℤ) = target v := by omega
    have hdiv : v / 2 ^ e / 2 ^ (target v - e).toNat = v / 2 ^ target v := by
      rw [div_div, ← zpow_natCast (2 : ℚ) (target v - e).toNat, ← zpow_add₀ (by norm_num), hn]
    rw [shiftRight_extended (by positivity), hdiv, hn]
  simp only [roundWithAccuracy, hshift, nearest]

theorem extended_scaled (m : ℕ) (e : ℤ) : ExtendedMantissa.ofMantissaAndAccuracy m .exact =
    extended (m * 2 ^ e / 2 ^ e) := by
  rw [mul_div_cancel_right₀ _ (by positivity), extended_natCast]
  rfl

theorem mul_eq_nearest {m₁ m₂ : ℕ} {e₁ e₂ : ℤ} (h₁ : 0 < m₁) (h₂ : 0 < m₂)
    {v : ℚ} (hv : m₁ * 2 ^ e₁ * (m₂ * 2 ^ e₂) = v) (he : e₁ + e₂ ≤ target v) :
    UnpackedFloat.mul Format.binary64 (.finite s₁ m₁ e₁ h₁) (.finite s₂ m₂ e₂ h₂) =
      nearest (s₁ * s₂) v := by
  have hv' : ((m₁ * m₂ : ℕ) : ℚ) * 2 ^ (e₁ + e₂) = v := by
    rw [← hv, zpow_add₀ (by norm_num)]
    push_cast
    ring
  refine roundWithAccuracy_eq_nearest ?_ ?_ he
  · rw [← hv]
    positivity
  · rw [extended_scaled (m₁ * m₂) (e₁ + e₂), hv']

theorem target_eq {m : ℕ} (e : ℤ) (hm : m ≠ 0) :
    target (m * 2 ^ e) = Format.binary64.targetExponent (totalExponent m e) := by
  rw [targetExponent_eq, totalExponent, target, log_eq hm le_rfl]
  · congr 1
    ring
  · gcongr
    exact lt_add_one _

theorem round_eq_nearest {m : ℕ} {e : ℤ} (hm : m ≠ 0) {v : ℚ} (hv : m * 2 ^ e = v) :
    UnpackedFloat.round Format.binary64 s m e = nearest s v := by
  have hpos : 0 < v := by
    rw [← hv]
    positivity
  have hlog : Format.binary64.targetExponent (totalExponent m e) = target v := by
    rw [← target_eq e hm, hv]
  have hn : (e - (e - target v).toNat : ℤ) ≤ target v := by omega
  simp only [UnpackedFloat.round, hlog, decreaseExponent]
  generalize (e - target v).toNat = n at hn ⊢
  have hexact : ((m <<< n : ℕ) : ℚ) * 2 ^ (e - n) = v := by
    rw [Nat.shiftLeft_eq, zpow_sub₀ (by norm_num), zpow_natCast, ← hv]
    push_cast
    field_simp
  refine roundWithAccuracy_eq_nearest hpos ?_ hn
  rw [extended_scaled _ (e - n), hexact]

theorem zpow_log_le {m : ℕ} (e : ℤ) (hm : 0 < m) : (2 : ℚ) ^ (m.log2 + e) ≤ m * 2 ^ e := by
  rw [zpow_add₀ (by norm_num), zpow_natCast]
  gcongr
  exact_mod_cast Nat.log2_self_le hm.ne'

theorem lt_zpow_log (m : ℕ) (e : ℤ) : (m : ℚ) * 2 ^ e < 2 ^ (m.log2 + e + 1) := by
  rw [add_right_comm, zpow_add₀ (by norm_num)]
  gcongr
  exact_mod_cast Nat.lt_log2_self

theorem div_log_le {m₁ m₂ : ℕ} (e₁ e₂ : ℤ) (h₁ : 0 < m₁) (h₂ : 0 < m₂) :
    m₁.log2 + e₁ - (m₂.log2 + e₂) - 1 ≤ Int.log 2 ((m₁ : ℚ) * 2 ^ e₁ / (m₂ * 2 ^ e₂)) := by
  rw [← Int.zpow_le_iff_le_log (by norm_num) (by positivity)]
  rw [le_div_iff₀ (by positivity)]
  calc ((2 : ℕ) : ℚ) ^ ((m₁.log2 : ℤ) + e₁ - (m₂.log2 + e₂) - 1) * (m₂ * 2 ^ e₂)
      ≤ 2 ^ ((m₁.log2 : ℤ) + e₁ - (m₂.log2 + e₂) - 1) * 2 ^ ((m₂.log2 : ℤ) + e₂ + 1) := by
        push_cast
        gcongr
        exact (lt_zpow_log m₂ e₂).le
    _ = 2 ^ ((m₁.log2 : ℤ) + e₁) := by
        rw [← zpow_add₀ (by norm_num)]
        congr 1
        ring
    _ ≤ m₁ * 2 ^ e₁ := zpow_log_le e₁ h₁

/-- A quotient is cut off below its own exponent. -/
theorem div_eq_nearest {m₁ m₂ : ℕ} {e₁ e₂ : ℤ} (h₁ : 0 < m₁) (h₂ : 0 < m₂)
    {v : ℚ} (hv : m₁ * 2 ^ e₁ / (m₂ * 2 ^ e₂) = v) :
    UnpackedFloat.div Format.binary64 (.finite s₁ m₁ e₁ h₁) (.finite s₂ m₂ e₂ h₂) =
      nearest (s₁ / s₂) v := by
  have hpos : 0 < v := by
    rw [← hv]
    positivity
  have hlog := div_log_le e₁ e₂ h₁ h₂
  rw [hv] at hlog
  simp only [UnpackedFloat.div, divCore]
  generalize ht : min (e₁ - e₂)
    (Format.binary64.targetExponent (totalExponent m₁ e₁ - totalExponent m₂ e₂)) = t
  rw [targetExponent_eq, totalExponent, totalExponent] at ht
  obtain ⟨n, hn⟩ : ∃ n : ℕ, e₁ - e₂ - t = n := Int.eq_ofNat_of_zero_le (by omega)
  rw [hn, Int.toNat_natCast]
  refine roundWithAccuracy_eq_nearest hpos ?_ ?_
  · have hmod : ((m₁ <<< n / m₂ : ℕ) : ℚ) + ((m₁ <<< n % m₂ : ℕ) : ℚ) / m₂ =
        ((m₁ <<< n : ℕ) : ℚ) / m₂ := by
      rw [eq_div_iff (by positivity), add_mul, div_mul_cancel₀ _ (by positivity), mul_comm]
      exact_mod_cast Nat.div_add_mod (m₁ <<< n) m₂
    have he : e₁ = n + t + e₂ := by omega
    have hscale : ((m₁ <<< n : ℕ) : ℚ) / m₂ = v / 2 ^ t := by
      rw [← hv, he, zpow_add₀ (by norm_num), zpow_add₀ (by norm_num), zpow_natCast,
        Nat.shiftLeft_eq]
      push_cast
      field_simp
    rw [ofMantissaAndAccuracy_fraction _ _ (Nat.mod_lt _ h₂), hmod, hscale]
  · rw [target]
    omega

/-! ## Exact, small and great numbers -/

theorem shiftToTargetExponent_exact (m : ℕ) (e : ℤ) :
    shiftToTargetExponent Format.binary64 m e .exact =
      let n := (Format.binary64.targetExponent (totalExponent m e) - e).toNat
      (extended (m / 2 ^ n), e + n) := by
  simp only [shiftToTargetExponent, shiftToExponent]
  rw [show ExtendedMantissa.ofMantissaAndAccuracy m .exact = extended m from
    (extended_natCast m).symm, shiftRight_extended (by positivity)]

theorem mantissa_extended_div (m n : ℕ) : (extended ((m : ℚ) / 2 ^ n)).mantissa = m / 2 ^ n := by
  have := Rat.natFloor_natCast_div_natCast m (2 ^ n)
  push_cast at this
  exact this

/-- Rounding a number whose mantissa becomes that of a double. -/
theorem nearest_of_mantissa {v : ℚ} {m : ℕ} {e : ℤ} (hm : 0 < m)
    (he : Format.binary64.targetExponent (totalExponent m e) = e) (ht : target v = e)
    (hr : (extended (v / 2 ^ e)).roundedMantissa = m) : nearest s v = .finite s m e hm := by
  have hmant : (extended ((m : ℚ) / 2 ^ 0)).mantissa = m := by
    rw [mantissa_extended_div, pow_zero, Nat.div_one]
  simp only [nearest, ht, hr, shiftToTargetExponent_exact, he, sub_self, Int.toNat_zero, hmant,
    hm.ne', dite_false, Nat.cast_zero, add_zero]

/-- A number that is a double is the nearest one to itself. -/
theorem nearest_of_canonical {m : ℕ} {e : ℤ} (hm : 0 < m)
    (he : Format.binary64.targetExponent (totalExponent m e) = e) :
    nearest s (m * 2 ^ e) = .finite s m e hm := by
  refine nearest_of_mantissa hm he (by rw [target_eq e hm.ne', he]) ?_
  rw [← extended_scaled]
  rfl

/-- Less than half of the least double is rounded to zero. -/
theorem nearest_of_small {v : ℚ} (hv : 0 < v) (h : v < 2 ^ (-1075 : ℤ)) :
    nearest s v = .zero s := by
  have hlog : Int.log 2 v < -1075 :=
    (Int.lt_zpow_iff_log_lt (by norm_num) hv).1 (by exact_mod_cast h)
  have ht : target v = -1074 := by
    rw [target]
    omega
  have hw : v / 2 ^ (-1074 : ℤ) < 1 / 2 := by
    rw [div_lt_iff₀ (by positivity)]
    refine lt_of_lt_of_eq h ?_
    rw [show (-1075 : ℤ) = -1 + -1074 by norm_num, zpow_add₀ (by norm_num), zpow_neg_one, one_div]
  have hr : (extended (v / 2 ^ target v)).roundedMantissa = 0 := by
    have := extended_add 0 (f := v / 2 ^ (-1074 : ℤ)) (by positivity) (by linarith)
    rw [Nat.cast_zero, zero_add, decide_eq_false (not_le.2 hw)] at this
    rw [ht, this, ExtendedMantissa.roundedMantissa]
    cases decide (v / 2 ^ (-1074 : ℤ) ≠ 0 ∧ v / 2 ^ (-1074 : ℤ) ≠ 1 / 2) <;> rfl
  simp only [nearest, hr, shiftToTargetExponent_exact, mantissa_extended_div, Nat.zero_div,
    dite_true]

theorem le_roundedMantissa (em : ExtendedMantissa) : em.mantissa ≤ em.roundedMantissa := by
  rcases em with ⟨m, _ | _, _ | _⟩ <;>
    simp [ExtendedMantissa.roundedMantissa, ExtendedMantissa.accuracy, Accuracy.roundToNearestEven]

variable (s) in
/-- Rounding keeps the exponent, or adds one. -/
theorem nearest_finite {v : ℚ} (h : 2 ^ target v ≤ v) :
    ∃ m e hm, nearest s v = .finite s m e hm ∧ target v ≤ e := by
  generalize hr : (extended (v / 2 ^ target v)).roundedMantissa = r
  have hpos : 0 < r := by
    have hone : 1 ≤ v / 2 ^ target v := by rwa [one_le_div (by positivity)]
    have : 1 ≤ ⌊v / 2 ^ target v⌋₊ := (Nat.one_le_floor_iff _).2 hone
    have := le_roundedMantissa (extended (v / 2 ^ target v))
    rw [hr] at this
    exact lt_of_lt_of_le (by assumption) this
  have ht : -1074 ≤ target v := le_max_right _ _
  generalize hn : (Format.binary64.targetExponent (totalExponent r (target v)) -
    target v).toNat = n
  have hle : n ≤ r.log2 := by
    rw [targetExponent_eq, totalExponent] at hn
    omega
  have hne : r / 2 ^ n ≠ 0 := by
    have := (Nat.pow_le_pow_right (by norm_num) hle).trans (Nat.log2_self_le hpos.ne')
    exact (Nat.div_pos this (by positivity)).ne'
  refine ⟨r / 2 ^ n, target v + n, Nat.pos_of_ne_zero hne, ?_, by omega⟩
  simp only [nearest, hr, shiftToTargetExponent_exact, hn, mantissa_extended_div, hne, dite_false]

end Reckoner.Double
