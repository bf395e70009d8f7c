import Reckoner.Proofs.Double.Value

/-!
# Rounding

Roundings of a finite double hold the integers that belong to the number it holds: the greatest one
below, the least one above and the nearest one, halves away from zero. The sign of the double stays
when it is rounded to the nearest integer, and doing this step by step on doubles loses nothing.
-/
namespace Reckoner.Double

open Parts

/-! ## The nearest integer -/

/-- That `n` is the integer nearest to `v`, and of two nearest ones the one farther from zero. -/
def IsRounded (v : ℚ) (n : ℤ) : Prop :=
  ∀ k : ℤ, k ≠ n → |v - n| < |v - k| ∨ |v - n| = |v - k| ∧ |k| < |n|

def roundAway (v : ℚ) : ℤ := if v < 0 then -⌊-v + 1 / 2⌋ else ⌊v + 1 / 2⌋

variable {v w : ℚ}

theorem roundAway_of_nonneg (h : 0 ≤ v) : roundAway v = ⌊v + 1 / 2⌋ := if_neg h.not_gt

theorem roundAway_neg (v : ℚ) : roundAway (-v) = -roundAway v := by
  rcases lt_trichotomy v 0 with h | rfl | h
  · rw [roundAway_of_nonneg (by linarith), roundAway, if_pos h, neg_neg]
  · norm_num [roundAway]
  · rw [roundAway_of_nonneg h.le, roundAway, if_pos (by linarith), neg_neg]

theorem roundAway_intCast (k : ℤ) : roundAway k = k := by
  have hfloor (k : ℤ) : ⌊(k : ℚ) + 1 / 2⌋ = k := by
    rw [Int.floor_intCast_add]
    norm_num
  rw [roundAway, hfloor, ← Int.cast_neg, hfloor, neg_neg, ite_self]

theorem roundAway_nonneg (h : 0 ≤ v) : 0 ≤ roundAway v := by
  rw [roundAway_of_nonneg h]
  exact Int.floor_nonneg.2 (by linarith)

theorem abs_sub_roundAway_le (v : ℚ) : |v - roundAway v| ≤ 1 / 2 := by
  rcases le_total 0 v with h | h
  · rw [roundAway_of_nonneg h]
    have := Int.floor_le (v + 1 / 2)
    have := Int.lt_floor_add_one (v + 1 / 2)
    exact abs_le.2 ⟨by linarith, by linarith⟩
  · rw [← abs_neg, neg_sub, ← neg_sub_neg, ← Int.cast_neg, ← roundAway_neg,
      roundAway_of_nonneg (neg_nonneg.2 h)]
    have := Int.floor_le (-v + 1 / 2)
    have := Int.lt_floor_add_one (-v + 1 / 2)
    exact abs_le.2 ⟨by linarith, by linarith⟩

theorem IsRounded.neg {n : ℤ} (h : IsRounded v n) : IsRounded (-v) (-n) := by
  intro k hk
  have hdist (a : ℚ) : |(-v) - (-a)| = |v - a| := by rw [← neg_add', ← sub_eq_add_neg, abs_neg]
  have := h (-k) (by omega)
  push_cast at this ⊢
  rwa [hdist, ← neg_neg (k : ℚ), hdist, abs_neg, ← abs_neg k]

theorem isRounded_of_nonneg (h : 0 ≤ v) : IsRounded v (roundAway v) := by
  have hn := roundAway_nonneg h
  have hdist := abs_sub_roundAway_le v
  rw [roundAway_of_nonneg h] at hn hdist ⊢
  generalize hfloor : ⌊v + 1 / 2⌋ = n at hn hdist
  obtain ⟨hlow, hhigh⟩ := Int.floor_eq_iff.1 hfloor
  intro k hk
  rcases lt_or_gt_of_ne hk with hlt | hgt
  · have hle : (k : ℚ) ≤ n - 1 := by exact_mod_cast Int.le_sub_one_of_lt hlt
    rcases (hdist.trans (by linarith : (1 : ℚ) / 2 ≤ v - k)).lt_or_eq with hfar | heq
    · exact .inl (hfar.trans_le (le_abs_self _))
    · -- As far away on the other side, so that `v` is a half below `n`.
      have hhalf : (n : ℚ) = v + 1 / 2 := by
        rcases abs_cases (v - n) with ⟨ha, -⟩ | ⟨ha, -⟩ <;> linarith
      have hpos : 0 < n := by
        have : (0 : ℚ) < n := by linarith
        exact_mod_cast this
      have hk : k = n - 1 := by
        have : (k : ℚ) = n - 1 := by linarith
        exact_mod_cast this
      refine .inr ⟨heq.trans (abs_of_nonneg (by linarith)).symm, ?_⟩
      rw [abs_of_pos hpos, abs_of_nonneg (by omega)]
      exact hlt
  · have hle : (n : ℚ) + 1 ≤ k := by exact_mod_cast Int.add_one_le_of_lt hgt
    refine .inl (hdist.trans_lt ?_)
    rw [abs_sub_comm]
    exact lt_of_lt_of_le (by linarith) (le_abs_self _)

theorem isRounded_roundAway (v : ℚ) : IsRounded v (roundAway v) := by
  rcases le_total 0 v with h | h
  · exact isRounded_of_nonneg h
  · have := (isRounded_of_nonneg (neg_nonneg.2 h)).neg
    rwa [roundAway_neg, neg_neg, neg_neg] at this

theorem roundAway_mono (h : v ≤ w) : roundAway v ≤ roundAway w := by
  have hfloor {v w : ℚ} (h0 : 0 ≤ v) (h : v ≤ w) : roundAway v ≤ roundAway w := by
    rw [roundAway_of_nonneg h0, roundAway_of_nonneg (h0.trans h)]
    exact Int.floor_le_floor (by linarith)
  rcases le_total 0 v with hv | hv
  · exact hfloor hv h
  · rcases le_total 0 w with hw | hw
    · have hneg := roundAway_nonneg (neg_nonneg.2 hv)
      rw [roundAway_neg] at hneg
      have := roundAway_nonneg hw
      omega
    · have := hfloor (neg_nonneg.2 hw) (neg_le_neg h)
      rw [roundAway_neg, roundAway_neg] at this
      omega

/-- The nearest integer is next to the number. -/
theorem roundAway_eq_or (v : ℚ) : roundAway v = ⌊v⌋ ∨ roundAway v = ⌈v⌉ := by
  have hnonneg {v : ℚ} (h : 0 ≤ v) : roundAway v = ⌊v⌋ ∨ roundAway v = ⌈v⌉ := by
    rw [roundAway_of_nonneg h]
    have hle := Int.floor_le v
    have hlt := Int.lt_floor_add_one v
    by_cases hhalf : v + 1 / 2 < ⌊v⌋ + 1
    · exact .inl (Int.floor_eq_iff.2 ⟨by linarith, hhalf⟩)
    · refine .inr ?_
      have hceil : ⌈v⌉ = ⌊v⌋ + 1 :=
        Int.ceil_eq_iff.2 ⟨by push_cast; linarith, by push_cast; linarith⟩
      rw [hceil]
      exact Int.floor_eq_iff.2 ⟨by push_cast; linarith, by push_cast; linarith⟩
  rcases le_total 0 v with h | h
  · exact hnonneg h
  · have := hnonneg (neg_nonneg.2 h)
    rw [roundAway_neg, Int.floor_neg, Int.ceil_neg, neg_inj, neg_inj] at this
    exact this.symm

/-- The nearest integer is the whole part, or one more if at least a half is left. -/
theorem roundAway_eq_ite (h : 0 ≤ v) :
    roundAway v = if 1 / 2 ≤ v - ⌊v⌋ then ⌊v⌋ + 1 else ⌊v⌋ := by
  have := Int.floor_le v
  have := Int.lt_floor_add_one v
  rw [roundAway_of_nonneg h, Int.floor_eq_iff]
  split <;> push_cast <;> constructor <;> linarith

theorem withSign_roundAway (negative : Bool) (v : ℚ) :
    withSign negative (roundAway v) = roundAway (withSign negative v) := by
  cases negative
  · rfl
  · exact (Int.cast_neg (roundAway v)).symm.trans (congrArg _ (roundAway_neg v).symm)

/-! ## Integers next to a double -/

variable {x y : Float}

/-- Great doubles are integers. -/
theorem Holds.eq_intCast_or_lt (hx : Holds x v) : (∃ k : ℤ, v = k) ∨ |v| < 2 ^ 52 := by
  obtain ⟨negative, m, q, h, rfl⟩ := hx
  rcases le_or_gt 0 q with hq | hq
  · obtain ⟨k, rfl⟩ := Int.eq_ofNat_of_zero_le hq
    refine .inl ?_
    cases negative
    · exact ⟨m * 2 ^ k, by simp [withSign]⟩
    · exact ⟨-(m * 2 ^ k), by simp [withSign]⟩
  · have hm : (m : ℚ) < 2 ^ 53 := by exact_mod_cast (canonical_ofBits h).lt
    refine .inr ?_
    calc |withSign negative (m * 2 ^ q)| = m * 2 ^ q := by
          rw [abs_withSign, abs_of_nonneg (by positivity)]
      _ ≤ m * 2 ^ (-1 : ℤ) := by gcongr <;> [norm_num; omega]
      _ < 2 ^ 53 * 2 ^ (-1 : ℤ) := by gcongr
      _ = 2 ^ 52 := by norm_num

/-- The integers next to a double are exact. -/
theorem Holds.exact_of_near (hx : Holds x v) {k : ℤ} (hk : |v - k| < 1) : Exact |(k : ℚ)| := by
  rcases hx.eq_intCast_or_lt with ⟨n, rfl⟩ | hv
  · have hn : n = k := by
      have : |n - k| < 1 := by exact_mod_cast hk
      have := abs_lt.1 this
      omega
    exact hn ▸ hx.exact
  · have hlt : k.natAbs < 2 ^ 53 := by
      have : |(k : ℚ)| < 2 ^ 53 := by
        have := abs_sub_abs_le_abs_sub (k : ℚ) v
        rw [abs_sub_comm] at this
        linarith
      exact_mod_cast (Nat.cast_natAbs (α := ℚ) k) ▸ (Int.cast_abs (R := ℚ) ▸ this)
    have := exact_natCast hlt
    rwa [Nat.cast_natAbs, Int.cast_abs] at this

theorem abs_sub_floor_lt (v : ℚ) : |v - ⌊v⌋| < 1 := by
  have := Int.floor_le v
  have := Int.lt_floor_add_one v
  exact abs_lt.2 ⟨by linarith, by linarith⟩

theorem floorOf_eq (negative : Bool) (m : ℕ) (q : ℤ) :
    Number.floorOf negative m q = ⌊withSign negative (m * 2 ^ q)⌋ := by
  unfold Number.floorOf
  rcases le_or_gt 0 q with hq | hq
  · obtain ⟨k, rfl⟩ := Int.eq_ofNat_of_zero_le hq
    have hv : withSign negative (m * 2 ^ (k : ℤ)) =
        ((if negative then -(m * 2 ^ k : ℕ) else (m * 2 ^ k : ℕ) : ℤ) : ℚ) := by
      cases negative <;> simp [withSign]
    rw [hv, Int.floor_intCast]
    simp [Nat.pow_eq]
  · obtain ⟨k, hk⟩ := Int.eq_ofNat_of_zero_le (show 0 ≤ -q by omega)
    obtain rfl : q = -k := by omega
    have hv : withSign negative (m * 2 ^ (-k : ℤ)) =
        ((if negative then -m else m : ℤ) : ℚ) / ((2 ^ k : ℕ) : ℚ) := by
      rw [zpow_neg, zpow_natCast, withSign_mul, div_eq_mul_inv]
      cases negative <;> simp [withSign]
    rw [hv, Rat.floor_intCast_div_natCast]
    simp only [if_neg hq.not_ge, neg_neg, Int.toNat_natCast, Nat.pow_eq]

theorem Holds.floor (hx : Holds x v) : Holds (Number.floor x) ⌊v⌋ := by
  have hexact := hx.exact_of_near (abs_sub_floor_lt v)
  obtain ⟨negative, m, q, h, rfl⟩ := hx
  rw [Number.floor, h]
  dsimp only
  rw [floorOf_eq]
  exact holds_ofInteger hexact

theorem Holds.ceil (hx : Holds x v) : Holds (Number.ceil x) ⌈v⌉ := by
  have hexact := hx.neg.exact_of_near (abs_sub_floor_lt (-v))
  obtain ⟨negative, m, q, h, rfl⟩ := hx
  rw [← withSign_not, ← floorOf_eq, ← abs_neg, ← Int.cast_neg] at hexact
  rw [Number.ceil, h]
  dsimp only
  rw [← neg_neg (withSign _ _), Int.ceil_neg, ← withSign_not, ← floorOf_eq]
  exact holds_ofInteger hexact

/-! ## Rounding step by step -/

/-- What is behind the point is exact. -/
theorem Exact.sub_floor (h : Exact v) : Exact (v - ⌊v⌋) := by
  obtain ⟨m, q, hm, hq, hq', rfl⟩ := h
  obtain ⟨k, rfl | rfl⟩ := q.eq_nat_or_neg
  · refine ⟨0, 0, by norm_num, by norm_num, by norm_num, ?_⟩
    have hv : (m : ℚ) * 2 ^ (k : ℤ) = ((m * 2 ^ k : ℤ) : ℚ) := by simp
    rw [hv, Int.floor_intCast, sub_self, Nat.cast_zero, zero_mul]
  · refine ⟨m % 2 ^ k, -k, (Nat.mod_le _ _).trans_lt hm, hq, hq', ?_⟩
    have hfloor : ⌊(m : ℚ) * 2 ^ (-k : ℤ)⌋ = (m / 2 ^ k : ℕ) := by
      rw [zpow_neg, zpow_natCast, ← div_eq_mul_inv]
      simpa using Rat.floor_intCast_div_natCast m (2 ^ k)
    have hmod : ((m % 2 ^ k : ℕ) : ℚ) + 2 ^ k * (m / 2 ^ k : ℕ) = m := by
      exact_mod_cast Nat.mod_add_div m (2 ^ k)
    rw [hfloor, Int.cast_natCast, zpow_neg, zpow_natCast]
    field_simp
    linarith

theorem Holds.whole (hx : Holds x v) : Holds (Number.ofInteger ⌊|v|⌋) ⌊|v|⌋ :=
  holds_ofInteger (hx.abs.exact_of_near (abs_sub_floor_lt _))

theorem Holds.rest (hx : Holds x v) :
    Holds (x.abs - Number.ofInteger ⌊|v|⌋) (|v| - ⌊|v|⌋) := by
  refine hx.abs.sub hx.whole ?_
  rw [abs_of_nonneg (sub_nonneg.2 (Int.floor_le _))]
  exact hx.exact.sub_floor

theorem Holds.carried_eq (hx : Holds x v) : Number.carried x ⌊|v|⌋ = roundAway |v| := by
  rw [Number.carried, roundAway_eq_ite (abs_nonneg v)]
  exact if_congr (holds_half.le_iff hx.rest) rfl rfl

theorem Holds.nearest (hx : Holds x v) :
    Holds (Number.ofInteger (Number.carried x ⌊|v|⌋)) (roundAway |v|) := by
  rw [hx.carried_eq]
  exact holds_ofInteger (hx.abs.exact_of_near
    ((abs_sub_roundAway_le _).trans_lt (by norm_num)))

theorem Holds.round_eq (hx : Holds x v) :
    Number.round x = Number.copySign (Number.ofInteger (Number.carried x ⌊|v|⌋)) x := by
  obtain ⟨negative, m, q, h, rfl⟩ := hx
  rw [Number.round, h]
  dsimp only
  rw [floorOf_eq, abs_withSign, abs_of_nonneg (by positivity)]
  rfl

theorem Holds.round (hx : Holds x v) : Holds (Number.round x) (roundAway v) := by
  rw [hx.round_eq]
  have hr := hx.nearest.copySign x
  rwa [← Int.cast_abs, abs_of_nonneg (roundAway_nonneg (abs_nonneg v)), withSign_roundAway,
    ← hx.eq_withSign] at hr

theorem Holds.isNegative_round (hx : Holds x v) :
    Number.isNegative (Number.round x) = Number.isNegative x := by
  rw [hx.round_eq]
  exact hx.nearest.isNegative_copySign x

theorem Holds.round_neg (hx : Holds x v) : Number.round (-x) = -Number.round x := by
  have hneg := hx.neg.round
  rw [roundAway_neg, Int.cast_neg] at hneg
  refine hneg.eq hx.round.neg ?_
  rw [hx.neg.isNegative_round, hx.isNegative_neg, hx.round.isNegative_neg, hx.isNegative_round]

theorem Holds.round_round (hx : Holds x v) : Number.round (Number.round x) = Number.round x := by
  have hr := hx.round.round
  rw [roundAway_intCast] at hr
  exact hr.eq hx.round hx.round.isNegative_round

theorem Holds.round_le_round (hx : Holds x v) (hy : Holds y w) (h : x ≤ y) :
    Number.round x ≤ Number.round y := by
  rw [hx.round.le_iff hy.round]
  exact_mod_cast roundAway_mono ((hx.le_iff hy).1 h)

/-! ## What rounding does -/

/-- How the roundings of a double that holds `v` are related to `v`. -/
structure RoundsExactly (x : Float) (v : ℚ) : Prop where
  nearest : ∃ n : ℤ, IsRounded v n ∧ Holds (Number.round x) n
  sign : Number.isNegative (Number.round x) = Number.isNegative x
  whole : Holds (Number.ofInteger ⌊|v|⌋) ⌊|v|⌋
  rest : Holds (x.abs - Number.ofInteger ⌊|v|⌋) (|v| - ⌊|v|⌋)
  carried : Holds (Number.ofInteger (Number.carried x ⌊|v|⌋)) (Number.carried x ⌊|v|⌋)
  steps : Number.round x = Number.copySign (Number.ofInteger (Number.carried x ⌊|v|⌋)) x
  neg : Number.round (-x) = -Number.round x
  idempotent : Number.round (Number.round x) = Number.round x
  monotone : ∀ y : Float, y.isFinite = true → x ≤ y → Number.round x ≤ Number.round y
  floor : Holds (Number.floor x) ⌊v⌋
  ceil : Holds (Number.ceil x) ⌈v⌉
  between : Number.floor x ≤ x ∧ x ≤ Number.ceil x
  next : (Number.round x == Number.floor x) = true ∨ (Number.round x == Number.ceil x) = true

/-- Every finite double is rounded exactly. -/
theorem rounds_exactly {x : Float} (h : x.isFinite = true) :
    ∃ v, Holds x v ∧ RoundsExactly x v := by
  obtain ⟨v, hx⟩ := isFinite_iff.1 h
  refine ⟨v, hx, {
    nearest := ⟨roundAway v, isRounded_roundAway v, hx.round⟩
    sign := hx.isNegative_round
    whole := hx.whole
    rest := hx.rest
    carried := hx.carried_eq.symm ▸ hx.nearest
    steps := hx.round_eq
    neg := hx.round_neg
    idempotent := hx.round_round
    monotone := fun y hy hle => ?_
    floor := hx.floor
    ceil := hx.ceil
    between := ⟨(hx.floor.le_iff hx).2 (Int.floor_le v), (hx.le_iff hx.ceil).2 (Int.le_ceil v)⟩
    next := ?_ }⟩
  · obtain ⟨w, hy⟩ := isFinite_iff.1 hy
    exact hx.round_le_round hy hle
  · rw [hx.round.beq_iff hx.floor, hx.round.beq_iff hx.ceil]
    exact_mod_cast roundAway_eq_or v

/-- Of the greatest double below a half nothing is left. -/
theorem rounds_exactly_below_half : (0.49999999999999994 : Float).isFinite = true ∧
    ∃ v, Holds 0.49999999999999994 v ∧ RoundsExactly 0.49999999999999994 v :=
  have h : (0.49999999999999994 : Float).isFinite = true := by decide +kernel
  ⟨h, rounds_exactly h⟩

end Reckoner.Double
