import Reckoner.Proofs.Double.Written

/-!
# Values of doubles

A finite double holds a rational number, and each number is held by at most one double of each sign.
Finite doubles compare as the numbers that they hold. A number with a mantissa of at most 53 bits is
held by a double, to which it is converted, and a difference that a double holds is computed without
an error.
-/
namespace Reckoner.Double

open Float.Model Float.Model.UnpackedFloat Parts

def withSign (negative : Bool) (v : ℚ) : ℚ := if negative then -v else v

/-- That a double is finite and stands for the number `v`. -/
def Holds (x : Float) (v : ℚ) : Prop :=
  ∃ negative m q, ofFloat x = .finite negative m q ∧ withSign negative (m * 2 ^ q) = v

variable {x y z : Float} {v w : ℚ} {negative : Bool} {m : ℕ} {q : ℤ}

theorem withSign_not (negative : Bool) (v : ℚ) : withSign (!negative) v = -withSign negative v := by
  cases negative <;> simp [withSign]

theorem withSign_mul (negative : Bool) (v w : ℚ) :
    withSign negative (v * w) = withSign negative v * w := by
  cases negative <;> simp [withSign]

theorem abs_withSign (negative : Bool) (v : ℚ) : |withSign negative v| = |v| := by
  cases negative <;> simp [withSign]

theorem withSign_eq_zero_iff : withSign negative v = 0 ↔ v = 0 := by
  cases negative <;> simp [withSign]

theorem withSign_abs (k : ℤ) : withSign (decide (k < 0)) |(k : ℚ)| = k := by
  by_cases hk : k < 0
  · have : (k : ℚ) < 0 := by exact_mod_cast hk
    simp [withSign, hk, abs_of_neg this]
  · have : (0 : ℚ) ≤ k := by exact_mod_cast Int.not_lt.1 hk
    simp [withSign, hk, abs_of_nonneg this]

theorem holds_of_parts (h : ofFloat x = .finite negative m q) :
    Holds x (withSign negative (m * 2 ^ q)) := ⟨negative, m, q, h, rfl⟩

theorem isFinite_iff : x.isFinite = true ↔ ∃ v, Holds x v := by
  change x.toModel.unpack.isFinite = true ↔ _
  rw [unpack_toModel]
  simp only [Holds]
  cases ofFloat x with
  | nan => simp [unpacked, UnpackedFloat.isFinite]
  | infinite negative => simp [unpacked, UnpackedFloat.isFinite]
  | finite negative m q => by_cases hm : m = 0 <;> simp [unpacked, hm, UnpackedFloat.isFinite]

theorem isNegative_of_parts (h : ofFloat x = .finite negative m q) :
    Number.isNegative x = negative := by
  simp only [ofFloat, Parts.ofBits] at h
  rw [Number.isNegative]
  split at h
  · split at h <;> cases h
  · split at h <;> cases h <;> rfl

theorem Holds.unique (hv : Holds x v) (hw : Holds x w) : v = w := by
  obtain ⟨negative, m, q, hp, rfl⟩ := hv
  obtain ⟨negative', m', q', hp', rfl⟩ := hw
  cases hp.symm.trans hp'
  rfl

theorem Holds.not_isNaN (hx : Holds x v) : x.isNaN = false := by
  obtain ⟨negative, m, q, hp, -⟩ := hx
  rw [isNaN_eq_false_iff, hp]
  exact Parts.noConfusion

theorem holds_zero : Holds 0.0 0 := ⟨false, 0, -1074, by decide +kernel, by simp [withSign]⟩

theorem holds_half : Holds 0.5 (1 / 2) :=
  ⟨false, 2 ^ 52, -53, by decide +kernel, by norm_num [withSign]⟩

/-! ## Order -/

/-- Of two doubles the one with the greater exponent is greater. -/
theorem value_lt {m' : ℕ} {q' : ℤ} (h : Canonical m q) (h' : Canonical m' q') (hq : q < q') :
    (m : ℚ) * 2 ^ q < m' * 2 ^ q' := by
  have hm : (m : ℚ) < 2 ^ 53 := by exact_mod_cast h.lt
  have hm' : (2 : ℚ) ^ 52 ≤ m' := by
    have hge := h.ge
    have : 2 ^ 52 ≤ m' := h'.normal.resolve_right (by omega)
    exact_mod_cast this
  calc (m : ℚ) * 2 ^ q < 2 ^ 53 * 2 ^ q := by gcongr
    _ = 2 ^ 52 * 2 ^ (q + 1) := by rw [zpow_add₀ (by norm_num)]; ring
    _ ≤ m' * 2 ^ q' :=
      mul_le_mul hm' (zpow_le_zpow_right₀ one_le_two hq) (by positivity) (by positivity)

theorem compare_value {m' : ℕ} {q' : ℤ} (h : Canonical m q) (h' : Canonical m' q') :
    (compare q q').then (compare m m') = compare ((m : ℚ) * 2 ^ q) (m' * 2 ^ q') := by
  rcases lt_trichotomy q q' with hq | rfl | hq
  · rw [compare_lt_iff_lt.2 hq, compare_lt_iff_lt.2 (value_lt h h' hq)]
    rfl
  · have hpow : (0 : ℚ) < 2 ^ q := by positivity
    rw [compare_eq_iff_eq.2 rfl]
    change compare m m' = _
    rcases lt_trichotomy m m' with hm | rfl | hm
    · have : (m : ℚ) < m' := by exact_mod_cast hm
      rw [compare_lt_iff_lt.2 hm, compare_lt_iff_lt.2 (by gcongr)]
    · rw [compare_eq_iff_eq.2 rfl, compare_eq_iff_eq.2 rfl]
    · have : (m' : ℚ) < m := by exact_mod_cast hm
      rw [compare_gt_iff_gt.2 hm, compare_gt_iff_gt.2 (by gcongr)]
  · rw [compare_gt_iff_gt.2 hq, compare_gt_iff_gt.2 (value_lt h' h hq)]
    rfl

theorem compare_neg (a b : ℚ) : compare (-a) (-b) = (compare a b).swap := by
  rcases lt_trichotomy a b with h | rfl | h
  · rw [compare_lt_iff_lt.2 h, compare_gt_iff_gt.2 (neg_lt_neg h)]
    rfl
  · rw [compare_eq_iff_eq.2 rfl, compare_eq_iff_eq.2 rfl]
    rfl
  · rw [compare_gt_iff_gt.2 h, compare_lt_iff_lt.2 (neg_lt_neg h)]
    rfl

/-- A finite double is a zero or a number with a mantissa. -/
theorem Holds.unpack_cases (hx : Holds x v) :
    (v = 0 ∧ ∃ s, x.toModel.unpack = .zero s) ∨
      ∃ negative m q, ∃ hm : 0 < m, Canonical m q ∧ v = withSign negative (m * 2 ^ q) ∧
        x.toModel.unpack = .finite (signOf negative) m q hm := by
  obtain ⟨negative, m, q, hp, rfl⟩ := hx
  by_cases hm : m = 0
  · refine .inl ⟨by simp [withSign_eq_zero_iff, hm], signOf negative, ?_⟩
    rw [unpack_toModel, hp, unpacked, dif_pos hm]
  · have hm := Nat.pos_of_ne_zero hm
    exact .inr ⟨negative, m, q, hm, canonical_ofBits hp, rfl, unpack_of_parts hm hp⟩

/-- Finite doubles compare as the numbers that they hold. -/
theorem Holds.compare_eq (hx : Holds x v) (hy : Holds y w) :
    x.toModel.unpack.compare y.toModel.unpack = some (compare v w) := by
  obtain ⟨rfl, s, hxu⟩ | ⟨negative, m, q, hm, hc, rfl, hxu⟩ := hx.unpack_cases <;>
    obtain ⟨rfl, s', hyu⟩ | ⟨negative', m', q', hm', hc', rfl, hyu⟩ := hy.unpack_cases <;>
    rw [hxu, hyu]
  · rw [compare_eq_iff_eq.2 rfl]
    rfl
  · have hpos : (0 : ℚ) < m' * 2 ^ q' := by positivity
    cases negative'
    · exact congrArg some (compare_lt_iff_lt.2 hpos).symm
    · exact congrArg some (compare_gt_iff_gt.2 (neg_neg_of_pos hpos)).symm
  · have hpos : (0 : ℚ) < m * 2 ^ q := by positivity
    cases negative
    · exact congrArg some (compare_gt_iff_gt.2 hpos).symm
    · exact congrArg some (compare_lt_iff_lt.2 (neg_neg_of_pos hpos)).symm
  · have hvalue := compare_value hc hc'
    have hpos : (0 : ℚ) < m * 2 ^ q := by positivity
    have hpos' : (0 : ℚ) < m' * 2 ^ q' := by positivity
    cases negative <;> cases negative'
    · exact congrArg some hvalue
    · exact congrArg some (compare_gt_iff_gt.2 ((neg_neg_of_pos hpos').trans hpos)).symm
    · exact congrArg some (compare_lt_iff_lt.2 ((neg_neg_of_pos hpos).trans hpos')).symm
    · refine congrArg some ?_
      rw [hvalue]
      exact (compare_neg _ _).symm

theorem Holds.le_iff (hx : Holds x v) (hy : Holds y w) : x ≤ y ↔ v ≤ w := by
  rw [le_eq, UnpackedFloat.le, hx.compare_eq hy, ← compare_le_iff_le]
  exact Ordering.isLE_iff_ne_gt

theorem Holds.lt_iff (hx : Holds x v) (hy : Holds y w) : x < y ↔ v < w := by
  rw [lt_eq, UnpackedFloat.lt, hx.compare_eq hy, ← compare_lt_iff_lt]
  simp

theorem Holds.beq_iff (hx : Holds x v) (hy : Holds y w) : (x == y) = true ↔ v = w := by
  rw [beq_eq, UnpackedFloat.beq, hx.compare_eq hy, ← compare_eq_iff_eq]
  simp

theorem Holds.lt_zero_iff (hx : Holds x v) : x < 0.0 ↔ v < 0 := hx.lt_iff holds_zero

theorem Holds.beq_zero_iff (hx : Holds x v) : (x == 0.0) = true ↔ v = 0 := hx.beq_iff holds_zero

/-- Only the zeros share a value. -/
theorem Holds.eq (hx : Holds x v) (hy : Holds y v)
    (hsign : Number.isNegative x = Number.isNegative y) : x = y := by
  have hbeq := (hx.beq_iff hy).2 rfl
  obtain ⟨negative, m, q, hxp, rfl⟩ := hx
  obtain ⟨negative', m', q', hyp, hv⟩ := hy
  rw [isNegative_of_parts hxp, isNegative_of_parts hyp] at hsign
  by_cases hm' : m' = 0
  · have hm : m = 0 := by
      rw [hm', Nat.cast_zero, zero_mul, eq_comm, withSign_eq_zero_iff.2 rfl,
        withSign_eq_zero_iff] at hv
      simpa [zpow_ne_zero] using hv
    rw [hm] at hxp
    rw [hm'] at hyp
    rw [eq_zero hxp, eq_zero hyp, hsign]
  · exact eq_of_beq (Nat.pos_of_ne_zero hm') hyp hbeq

/-! ## Signs -/

theorem canonical_zero : Canonical 0 (-1074) := ⟨by norm_num, le_rfl, by norm_num, .inr rfl⟩

/-- Packing keeps what a double can hold. -/
theorem ofFloat_pack (negative : Bool) (h : Canonical m q) :
    ofFloat (Float.ofModel (.pack (Parts.finite negative m q).unpacked)) =
      .finite negative m q := by
  by_cases hm : m = 0
  · obtain rfl : q = -1074 := h.normal.resolve_left (by omega)
    subst hm
    cases negative <;> decide +kernel
  · have hpos := Nat.pos_of_ne_zero hm
    rw [unpacked, dif_neg hm]
    exact ofFloat_of_unpack hpos (unpack_pack negative hpos h)

theorem ofFloat_neg_of_parts (h : ofFloat x = .finite negative m q) :
    ofFloat (-x) = .finite (!negative) m q := by
  rw [← ofFloat_pack (!negative) (canonical_ofBits h)]
  congr 1
  change Float.ofModel (.pack x.toModel.unpack.neg) = _
  rw [unpack_toModel, h, unpacked, unpacked]
  split <;> cases negative <;> rfl

theorem ofFloat_abs (h : ofFloat x = .finite negative m q) : ofFloat x.abs = .finite false m q := by
  rw [← ofFloat_pack false (canonical_ofBits h)]
  congr 1
  change Float.ofModel (.pack x.toModel.unpack.abs) = _
  rw [unpack_toModel, h, unpacked, unpacked]
  split <;> rfl

theorem Holds.neg (hx : Holds x v) : Holds (-x) (-v) := by
  obtain ⟨negative, m, q, h, rfl⟩ := hx
  exact ⟨_, m, q, ofFloat_neg_of_parts h, withSign_not ..⟩

theorem Holds.abs (hx : Holds x v) : Holds x.abs |v| := by
  obtain ⟨negative, m, q, h, rfl⟩ := hx
  refine ⟨false, m, q, ofFloat_abs h, ?_⟩
  rw [abs_withSign, abs_of_nonneg (by positivity)]
  rfl

theorem Holds.isNegative_neg (hx : Holds x v) :
    Number.isNegative (-x) = !Number.isNegative x := by
  obtain ⟨negative, m, q, h, -⟩ := hx
  rw [isNegative_of_parts h, isNegative_of_parts (ofFloat_neg_of_parts h)]

theorem Holds.isNegative_abs (hx : Holds x v) : Number.isNegative x.abs = false := by
  obtain ⟨negative, m, q, h, -⟩ := hx
  exact isNegative_of_parts (ofFloat_abs h)

/-- A number is its absolute value with the sign of the double that holds it. -/
theorem Holds.eq_withSign (hx : Holds x v) : v = withSign (Number.isNegative x) |v| := by
  obtain ⟨negative, m, q, h, rfl⟩ := hx
  rw [isNegative_of_parts h, abs_withSign, abs_of_nonneg (by positivity)]

theorem Holds.copySign (hx : Holds x v) (y : Float) :
    Holds (Number.copySign x y) (withSign (Number.isNegative y) |v|) := by
  unfold Number.copySign withSign
  split
  · exact hx.abs.neg
  · exact hx.abs

theorem Holds.isNegative_copySign (hx : Holds x v) (y : Float) :
    Number.isNegative (Number.copySign x y) = Number.isNegative y := by
  unfold Number.copySign
  split <;> rename_i hy
  · rw [hx.abs.isNegative_neg, hx.isNegative_abs, hy]
    rfl
  · rw [hx.isNegative_abs, Bool.eq_false_of_not_eq_true hy]

theorem Holds.copySign_self (hx : Holds x v) : Number.copySign x x = x := by
  have h := hx.copySign x
  rw [← hx.eq_withSign] at h
  exact h.eq hx (hx.isNegative_copySign x)

/-! ## Exact results -/

/-- A number from zero on whose mantissa has at most 53 bits, within the exponents of doubles. -/
def Exact (v : ℚ) : Prop :=
  ∃ (m : ℕ) (q : ℤ), m < 2 ^ 53 ∧ -1074 ≤ q ∧ q ≤ 971 ∧ m * 2 ^ q = v

theorem Holds.exact (hx : Holds x v) : Exact |v| := by
  obtain ⟨negative, m, q, h, rfl⟩ := hx
  obtain ⟨h₁, h₂, h₃, -⟩ := canonical_ofBits h
  exact ⟨m, q, h₁, h₂, h₃, by rw [abs_withSign, abs_of_nonneg (by positivity)]⟩

theorem exact_natCast {n : ℕ} (h : n < 2 ^ 53) : Exact n := ⟨n, 0, h, by simp⟩

/-- The mantissa and the exponent that doubles have for a number. -/
theorem Exact.canonical (h : Exact v) (hv : v ≠ 0) :
    ∃ m q, 0 < m ∧ Canonical m q ∧ (m : ℚ) * 2 ^ q = v := by
  obtain ⟨m, q, hm', hq, hq', rfl⟩ := h
  have hm : 0 < m := Nat.pos_of_ne_zero fun hz => hv (by simp [hz])
  have hlog : m.log2 < 53 := (Nat.log2_lt hm.ne').2 hm'
  have hlow := Nat.log2_self_le hm.ne'
  have hhigh := Nat.lt_log2_self (n := m)
  obtain ⟨k, hk⟩ : ∃ k : ℕ, q - max (q + (m.log2 : ℤ) - 52) (-1074) = k :=
    Int.eq_ofNat_of_zero_le (by omega)
  refine ⟨m * 2 ^ k, q - k, by positivity, ⟨?_, by omega, by omega, ?_⟩, ?_⟩
  · calc m * 2 ^ k < 2 ^ (m.log2 + 1) * 2 ^ k := Nat.mul_lt_mul_of_pos_right hhigh (by positivity)
      _ = 2 ^ (m.log2 + 1 + k) := (pow_add ..).symm
      _ ≤ 2 ^ 53 := Nat.pow_le_pow_right (by norm_num) (by omega)
  · by_cases hmin : q - k = -1074
    · exact .inr hmin
    · refine .inl ?_
      calc 2 ^ 52 = 2 ^ m.log2 * 2 ^ k := by rw [← pow_add]; congr 1; omega
        _ ≤ m * 2 ^ k := Nat.mul_le_mul_right _ hlow
  · rw [zpow_sub₀ (by norm_num), zpow_natCast]
    push_cast
    field_simp

/-- Each number has one stored form. -/
theorem stored_eq {n : ℕ} {r : ℤ} (hm : 0 < m) (h : Canonical m q)
    (hn : (n : ℚ) * 2 ^ r = m * 2 ^ q) : Number.stored n r = (m, q) := by
  have hne : n ≠ 0 := by
    rintro rfl
    have hpos : (0 : ℚ) < m * 2 ^ q := by positivity
    rw [← hn, Nat.cast_zero, zero_mul] at hpos
    exact hpos.false
  have ht : max (r + (n.log2 : ℤ) - 52) (-1074) = q := by
    have htarget := target_eq r hne
    rw [hn, target_eq q hm.ne', targetExponent_of_canonical hm.ne' h, targetExponent_eq,
      totalExponent] at htarget
    omega
  simp only [Number.stored, ht, Nat.pow_eq, Prod.mk.injEq, and_true]
  split
  · rename_i hqr
    obtain ⟨k, rfl⟩ := Int.exists_add_of_le hqr
    rw [add_sub_cancel_left, Int.toNat_natCast]
    rw [zpow_add₀ (by norm_num), zpow_natCast, mul_comm ((2 : ℚ) ^ q), ← mul_assoc] at hn
    exact_mod_cast mul_right_cancel₀ (zpow_ne_zero q two_ne_zero) hn
  · rename_i hqr
    obtain ⟨k, rfl⟩ := Int.exists_add_of_le (Int.not_le.1 hqr).le
    rw [add_sub_cancel_left, Int.toNat_natCast]
    rw [zpow_add₀ (by norm_num), zpow_natCast, mul_comm ((2 : ℚ) ^ r), ← mul_assoc] at hn
    have : n = m * 2 ^ k := by exact_mod_cast mul_right_cancel₀ (zpow_ne_zero r two_ne_zero) hn
    rw [this, Nat.mul_div_cancel _ (by positivity)]

theorem magnitude_lt (h : Canonical m q) : magnitude m q < 2 ^ 63 := by
  obtain ⟨h₁, h₂, h₃, h₄⟩ := h
  unfold magnitude
  split <;> omega

theorem ofFloat_ofBits (negative : Bool) (h : Canonical m q) :
    ofFloat (Float.ofBits (UInt64.ofNat (negative.toNat * 2 ^ 63 + magnitude m q))) =
      .finite negative m q := by
  have hlt := magnitude_lt h
  have hle := negative.toNat_le
  have hnat : (UInt64.ofNat (negative.toNat * 2 ^ 63 + magnitude m q)).toNat =
      negative.toNat * 2 ^ 63 + magnitude m q :=
    UInt64.toNat_ofNat_of_lt' (by rw [UInt64.size]; omega)
  generalize UInt64.ofNat (negative.toNat * 2 ^ 63 + magnitude m q) = b at hnat ⊢
  have hunpack := unpack_eq_unpacked b.toBitVec
  rw [UInt64.toNat_toBitVec, hnat, ofBits_magnitude h] at hunpack
  rw [← ofFloat_pack negative h, ← hunpack]
  rfl

theorem ofDyadic_eq_ofBits (negative : Bool) (m : ℕ) (q : ℤ) : Number.ofDyadic negative m q =
    Float.ofBits (UInt64.ofNat (negative.toNat * 2 ^ 63 +
      magnitude (Number.stored m q).1 (Number.stored m q).2)) := by
  cases negative <;> simp [Number.ofDyadic, magnitude]

/-- An exact number becomes the double of either sign that holds it. -/
theorem exists_parts_ofDyadic (negative : Bool) (h : Exact (m * 2 ^ q)) : ∃ (f : ℕ) (e : ℤ),
    ofFloat (Number.ofDyadic negative m q) = .finite negative f e ∧
      (f : ℚ) * 2 ^ e = m * 2 ^ q := by
  rw [ofDyadic_eq_ofBits]
  by_cases hz : m = 0
  · have hmagnitude : magnitude (Number.stored m q).1 (Number.stored m q).2 =
        magnitude 0 (-1074) := by simp [hz, Number.stored, magnitude]
    rw [hmagnitude]
    exact ⟨0, -1074, ofFloat_ofBits negative canonical_zero, by simp [hz]⟩
  · have hv : (m : ℚ) * 2 ^ q ≠ 0 := by simp [hz, zpow_ne_zero]
    obtain ⟨f, e, hf, hc, hfe⟩ := h.canonical hv
    rw [stored_eq hf hc hfe.symm]
    exact ⟨f, e, ofFloat_ofBits negative hc, hfe⟩

theorem holds_ofDyadic (negative : Bool) (h : Exact (m * 2 ^ q)) :
    Holds (Number.ofDyadic negative m q) (withSign negative (m * 2 ^ q)) := by
  obtain ⟨f, e, hp, hv⟩ := exists_parts_ofDyadic negative h
  exact ⟨negative, f, e, hp, by rw [hv]⟩

theorem holds_ofInteger {k : ℤ} (h : Exact |(k : ℚ)|) : Holds (Number.ofInteger k) k := by
  have habs : ((k.natAbs : ℕ) : ℚ) * 2 ^ (0 : ℤ) = |(k : ℚ)| := by simp [Nat.cast_natAbs]
  have hk := holds_ofDyadic (decide (k < 0)) (habs ▸ h)
  rwa [habs, withSign_abs] at hk

/-! ## Differences -/

theorem holds_pack_zero (s : UnpackedFloat.Sign) : Holds (Float.ofModel (.pack (.zero s))) 0 := by
  obtain ⟨negative, rfl⟩ : ∃ negative, s = signOf negative := by
    cases s
    · exact ⟨true, rfl⟩
    · exact ⟨false, rfl⟩
  exact ⟨negative, 0, -1074, ofFloat_pack negative canonical_zero, by simp [withSign_eq_zero_iff]⟩

theorem holds_pack (negative : Bool) (hm : 0 < m) (h : Canonical m q) :
    Holds (Float.ofModel (.pack (.finite (signOf negative) m q hm)))
      (withSign negative (m * 2 ^ q)) := by
  have hp := ofFloat_pack negative h
  rw [unpacked, dif_neg hm.ne'] at hp
  exact holds_of_parts hp

/-- A number that a double holds is rounded to that double. -/
theorem round_eq_of_canonical {s : UnpackedFloat.Sign} {n : ℕ} {e : ℤ} (hm : 0 < m)
    (h : Canonical m q) (hn : (n : ℚ) * 2 ^ e = m * 2 ^ q) :
    UnpackedFloat.round Format.binary64 s n e = .finite s m q hm := by
  have hne : n ≠ 0 := by
    rintro rfl
    have hpos : (0 : ℚ) < m * 2 ^ q := by positivity
    rw [← hn, Nat.cast_zero, zero_mul] at hpos
    exact hpos.false
  rw [round_eq_nearest hne hn,
    nearest_of_canonical hm (targetExponent_of_canonical hm.ne' h)]

/-- A number other than zero is rounded with its sign. -/
theorem normalize_eq {k : ℤ} (hk : k ≠ 0) (e : ℤ) :
    UnpackedFloat.normalize Format.binary64 k e .positive =
      UnpackedFloat.round Format.binary64 (signOf (decide (k < 0))) k.natAbs e := by
  rcases lt_or_gt_of_ne hk with hneg | hpos
  · simp only [UnpackedFloat.normalize, Int.compare_eq_lt.2 hneg, hneg, decide_true]
    rw [show (-k).toNat = k.natAbs by omega]
    rfl
  · simp only [UnpackedFloat.normalize, Int.compare_eq_gt.2 hpos, hpos.le.not_gt, decide_false]
    rw [show k.toNat = k.natAbs by omega]
    rfl

/-- An exact number is packed without an error. -/
theorem holds_normalize {k e : ℤ} (h : Exact |(k : ℚ) * 2 ^ e|) :
    Holds (Float.ofModel (.pack (UnpackedFloat.normalize Format.binary64 k e .positive)))
      (k * 2 ^ e) := by
  have hpow : (0 : ℚ) < 2 ^ e := by positivity
  by_cases hk : k = 0
  · rw [hk, Int.cast_zero, zero_mul]
    exact holds_pack_zero .positive
  · have hne : |(k : ℚ) * 2 ^ e| ≠ 0 := by simp [hk, hpow.ne']
    obtain ⟨m, q, hm, hc, hv⟩ := h.canonical hne
    rw [abs_mul, abs_of_pos hpow] at hv
    have hn : ((k.natAbs : ℕ) : ℚ) * 2 ^ e = m * 2 ^ q := by rw [hv, Nat.cast_natAbs, Int.cast_abs]
    rw [normalize_eq hk, round_eq_of_canonical hm hc hn]
    have hvalue := holds_pack (decide (k < 0)) hm hc
    rwa [hv, withSign_mul, withSign_abs] at hvalue

theorem sub_eq (x y : Float) : x - y = Float.ofModel
    (.pack (UnpackedFloat.sub Format.binary64 x.toModel.unpack y.toModel.unpack)) := rfl

theorem decreaseExponent_eq {e : ℤ} (h : e ≤ q) :
    ∃ n : ℕ, UnpackedFloat.decreaseExponent m q e = (n, e) ∧ (n : ℚ) * 2 ^ e = m * 2 ^ q := by
  obtain ⟨k, rfl⟩ := Int.exists_add_of_le h
  refine ⟨m <<< k, ?_, ?_⟩
  · simp [UnpackedFloat.decreaseExponent]
  · rw [Nat.shiftLeft_eq, zpow_add₀ (by norm_num), zpow_natCast]
    push_cast
    ring

theorem apply_signOf (negative : Bool) (n : ℕ) :
    ((UnpackedFloat.Sign.apply (signOf negative) n : ℤ) : ℚ) = withSign negative n := by
  cases negative <;> simp [signOf, withSign, UnpackedFloat.Sign.apply]

/-- A difference that a double can hold is computed without an error. -/
theorem Holds.sub (hx : Holds x v) (hy : Holds y w) (h : Exact |v - w|) :
    Holds (x - y) (v - w) := by
  rw [sub_eq]
  obtain ⟨rfl, s, hxu⟩ | ⟨negative, m, q, hm, hc, rfl, hxu⟩ := hx.unpack_cases <;>
    obtain ⟨rfl, s', hyu⟩ | ⟨negative', m', q', hm', hc', rfl, hyu⟩ := hy.unpack_cases <;>
    rw [hxu, hyu]
  · rw [sub_zero, UnpackedFloat.sub]
    split <;> exact holds_pack_zero _
  · rw [zero_sub, ← withSign_not]
    have := holds_pack (!negative') hm' hc'
    cases negative' <;> exact this
  · rw [sub_zero]
    exact holds_pack negative hm hc
  · obtain ⟨n, hd, hn⟩ := decreaseExponent_eq (m := m) (min_le_left q q')
    obtain ⟨n', hd', hn'⟩ := decreaseExponent_eq (m := m') (min_le_right q q')
    have hv : ((UnpackedFloat.Sign.apply (signOf negative) n -
        UnpackedFloat.Sign.apply (signOf negative') n' : ℤ) : ℚ) * 2 ^ min q q' =
        withSign negative (m * 2 ^ q) - withSign negative' (m' * 2 ^ q') := by
      rw [← hn, ← hn', withSign_mul, withSign_mul]
      push_cast [apply_signOf]
      ring
    simp only [UnpackedFloat.sub, hd, hd']
    rw [← hv] at h ⊢
    exact holds_normalize h

end Reckoner.Double
