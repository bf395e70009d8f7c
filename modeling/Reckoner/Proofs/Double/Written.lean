import Reckoner.Expr.Rendered
import Reckoner.Proofs.Double.Signs
import Reckoner.Proofs.Layout

/-!
# Written doubles

The text of a double is a literal that reads back as the same double, be it written with the fewest
digits or as an integer, and the text of a negative one is that of its absolute value behind a sign.
-/
namespace Reckoner

open Double Parts Float.Model Float.Model.UnpackedFloat

namespace Decimal

theorem toRat_ofDyadic (m : ℕ) (q : ℤ) : (ofDyadic m q).toRat = m * 2 ^ q := by
  unfold ofDyadic
  split
  · rename_i h
    obtain ⟨k, rfl⟩ := Int.eq_ofNat_of_zero_le h
    simp [toRat, Nat.pow_eq]
  · rename_i h
    obtain ⟨k, hk⟩ := Int.eq_ofNat_of_zero_le (show 0 ≤ -q by omega)
    obtain rfl : q = -k := by omega
    simp only [toRat, neg_neg, Int.toNat_natCast, Nat.pow_eq]
    rw [show (10 : ℚ) = 2 * 5 by norm_num, mul_zpow, zpow_neg, zpow_neg, zpow_natCast, zpow_natCast]
    push_cast
    field_simp

/-- No digits but zeros make a zero. -/
theorem toFloat_of_digits_eq_zero {d : Decimal} (h : d.digits = 0) : d.toFloat = 0.0 := by
  obtain ⟨m, e⟩ := d
  obtain rfl : m = 0 := h
  have hzero : ∀ x : Float, x.toModel.unpack = .zero .positive → x = 0.0 := fun x hx =>
    eq_of_unpack (hx.trans unpack_zero.symm)
  simp only [toFloat, Float.ofScientific]
  split
  · rename_i hfast
    have he : e.natAbs < Float.exactlyRepresentablePowersOfTen.size := Nat.lt_succ_of_le hfast.2
    obtain ⟨m, q, hm52, -, hparts⟩ := exists_powerOfTen he
    have hm : 0 < m := by omega
    have hunpack := unpack_of_parts hm hparts
    have hz : (0 : ℕ).toUInt64.toFloat.toModel.unpack = .zero .positive := rfl
    split
    · rw [div_eq, hz, hunpack]
      rfl
    · rw [mul_eq, hz, hunpack]
      rfl
  · rfl

/-- Decimals have no sign. -/
theorem fromZero_toFloat (d : Decimal) : FromZero d.toFloat := by
  have hzero : FromZero 0.0 := ⟨by decide +kernel, by decide +kernel⟩
  by_cases h : d.digits = 0
  · rwa [toFloat_of_digits_eq_zero h]
  · rw [toFloat_eq_ofRat h, ofRat, Double.nearest]
    split
    · exact hzero
    · exact fromZero_pack _

theorem digits_ne_zero {d : Decimal} {x : Float} {m : ℕ} {q : ℤ} (hm : 0 < m)
    (hx : ofFloat x = .finite false m q) (h : d.toFloat = x) : d.digits ≠ 0 := by
  intro hz
  have hunpack := unpack_of_parts hm hx
  rw [← h, toFloat_of_digits_eq_zero hz, unpack_zero] at hunpack
  cases hunpack

theorem beq_of_readsBack? {x : Float} {d e : Decimal} {k : ℕ} (h : readsBack? x d k = some e) :
    (e.toFloat == x) = true := by
  unfold readsBack? at h
  dsimp only at h
  generalize d.nearest k = first, (if d.roundsUp k then d.below k else d.above k) = second at h
  split at h
  · cases h
    assumption
  · split at h
    · cases h
      assumption
    · cases h

/-- Cutting digits off goes only as far as the decimal reads back. -/
theorem toFloat_shortestFrom {x : Float} {m : ℕ} {q : ℤ} (hm : 0 < m)
    (hx : ofFloat x = .finite false m q) (k : ℕ) :
    (shortestFrom x (ofDyadic m q) k).toFloat = x := by
  induction k with
  | zero => exact toFloat_of_parts hm hx (toRat_ofDyadic m q)
  | succ k ih =>
    rw [shortestFrom]
    cases hr : readsBack? x (ofDyadic m q) (k + 1) with
    | none => exact ih
    | some d => exact eq_of_beq hm hx (beq_of_readsBack? hr)

/-- The shortest decimal of a double reads back. -/
theorem toFloat_shortest {x : Float} {m : ℕ} {q : ℤ} (hm : 0 < m)
    (hx : ofFloat x = .finite false m q) : (shortest m q).toFloat = x := by
  simp only [shortest, ofDyadic_eq hm hx]
  generalize hk : (ofDyadic m q).width - 1 = k
  have h := toFloat_shortestFrom hm hx k
  rw [← toFloat_congr (digits_ne_zero hm hx h) (stripped_toRat _).symm, h]

end Decimal

/-- Nor have literals. -/
theorem Literal.fromZero_value (l : Literal) : FromZero l.value := l.decimal.fromZero_toFloat

namespace Number

/-- A literal that reads as a given double. -/
def Reads (cs : List Char) (x : Float) : Prop := ∃ l : Literal, l.chars = cs ∧ l.value = x

theorem Writes.reads {cs : List Char} {d : Decimal} {x : Float} (h : Writes cs d.toRat)
    (hd : d.digits ≠ 0) (hx : d.toFloat = x) : Reads cs x := by
  obtain ⟨l, hl, hv⟩ := h
  refine ⟨l, hl, ?_⟩
  rw [Literal.value, ← Decimal.toFloat_congr hd hv.symm, hx]

theorem toFloat_overflow : (⟨1, 999⟩ : Decimal).toFloat = infinity := by decide +kernel

/-- The literal of an infinity overflows. -/
theorem reads_infinity : Reads ['1', 'e', '9', '9', '9'] infinity :=
  ⟨⟨['1'], none, some ⟨'e', [], ['9', '9', '9'], by simp, by simp, by simp, by simp⟩, by simp,
    by simp, by simp⟩, rfl, toFloat_overflow⟩

theorem toFloat_zero : (⟨0, 0⟩ : Decimal).toFloat = 0.0 := by decide +kernel

/-- Natural numbers are written as their digits. -/
theorem writes_numerals (n : ℕ) : Writes (Decimal.numerals n) (⟨n, 0⟩ : Decimal).toRat := by
  have h := writes_positional _ none (isDigit_numerals n) (by simp)
    (by simp [numerals_ne_nil])
  rw [Literal.point, List.append_nil] at h
  exact h.congr (by simp [Decimal.toRat])

theorem reads_zero : Reads ['0'] 0.0 :=
  ⟨⟨['0'], none, none, by simp, by simp, by simp⟩, rfl, toFloat_zero⟩

/-- The shortest text of a positive double reads back. -/
theorem reads_shortest {x : Float} {m : ℕ} {q : ℤ} (hm : 0 < m)
    (hx : ofFloat x = .finite false m q) : Reads (shortestChars x) x := by
  have h := Decimal.toFloat_shortest hm hx
  simp only [shortestChars, hx, signed, Bool.false_eq_true, if_false]
  exact (writes_decimal shortestStyle _).reads (Decimal.digits_ne_zero hm hx h) h

/-- The integer part of m·2^q. -/
def whole (m : ℕ) (q : ℤ) : ℕ :=
  if 0 ≤ q then m * Nat.pow 2 q.toNat else m / Nat.pow 2 (-q).toNat

theorem renderedChars_finite {x : Float} {negative : Bool} {m : ℕ} {q : ℤ}
    (hx : ofFloat x = .finite negative m q) : renderedChars x =
      if isInteger x && whole m q < Nat.pow 10 16 then
        signed (negative && whole m q ≠ 0) (Decimal.numerals (whole m q))
      else shortestChars x := by
  simp only [renderedChars, hx]
  rfl

/-- The integer part of an integer is all of it. -/
theorem whole_eq {x : Float} {negative : Bool} {m : ℕ} {q : ℤ}
    (hx : ofFloat x = .finite negative m q) (h : isInteger x = true) :
    (whole m q : ℚ) = m * 2 ^ q := by
  simp only [isInteger, hx, Nat.pow_eq, Bool.or_eq_true, decide_eq_true_eq, beq_iff_eq] at h
  unfold whole
  split
  · rename_i hq
    obtain ⟨k, rfl⟩ := Int.eq_ofNat_of_zero_le hq
    simp [Nat.pow_eq]
  · rename_i hq
    obtain ⟨k, hk⟩ := Int.eq_ofNat_of_zero_le (show 0 ≤ -q by omega)
    obtain rfl : q = -k := by omega
    simp only [neg_neg, Int.toNat_natCast] at h
    have hdvd : 2 ^ k ∣ m := Nat.dvd_of_mod_eq_zero (h.resolve_left hq)
    simp only [neg_neg, Int.toNat_natCast, Nat.pow_eq, zpow_neg, zpow_natCast]
    rw [Nat.cast_div hdvd (by positivity)]
    push_cast
    rw [div_eq_mul_inv]

theorem reads_rendered_positive {x : Float} {m : ℕ} {q : ℤ} (hm : 0 < m)
    (hx : ofFloat x = .finite false m q) : Reads (renderedChars x) x := by
  rw [renderedChars_finite hx]
  split
  · rename_i h
    have hrat : (⟨whole m q, 0⟩ : Decimal).toRat = m * 2 ^ q := by
      rw [← whole_eq hx ((Bool.and_eq_true _ _).mp h).1]
      simp [Decimal.toRat]
    have hfloat := Decimal.toFloat_of_parts hm hx hrat
    exact (writes_numerals _).reads (Decimal.digits_ne_zero hm hx hfloat) hfloat
  · exact reads_shortest hm hx

theorem renderedChars_zero {x : Float} {negative : Bool} {q : ℤ}
    (hx : ofFloat x = .finite negative 0 q) : renderedChars x = ['0'] := by
  have hint : isInteger x = true := by simp [isInteger, hx]
  have hwhole : whole 0 q = 0 := by simp [whole]
  rw [renderedChars_finite hx, hint, hwhole]
  cases negative <;> rfl

/-- A negative number is written as a minus and its absolute value. -/
theorem renderedChars_negative {x : Float} (h : x < 0.0) :
    renderedChars x = '-' :: renderedChars (-x) := by
  rcases lt_zero_iff.1 h with hx | ⟨m, q, hm, hx⟩
  · have hinfinity : ofFloat infinity = .infinite false := by decide +kernel
    rw [neg_eq_infinity hx]
    simp only [renderedChars, hx, hinfinity]
    rfl
  · have hneg : ofFloat (-x) = .finite false m q := ofFloat_neg (Nat.pos_of_ne_zero hm) hx
    have hint : isInteger (-x) = isInteger x := by simp only [isInteger, hx, hneg]
    rw [renderedChars_finite hx, renderedChars_finite hneg, hint]
    split
    · rename_i hi
      have hwhole : whole m q ≠ 0 := by
        have hvalue := whole_eq hx ((Bool.and_eq_true _ _).mp hi).1
        intro hz
        rw [hz, Nat.cast_zero] at hvalue
        have : (0 : ℚ) < m * 2 ^ q := by
          have : 0 < m := Nat.pos_of_ne_zero hm
          positivity
        exact this.ne hvalue
      simp [signed, hwhole]
    · simp only [shortestChars, hx, hneg]
      rfl

/-- From zero on, doubles read back from their texts. -/
theorem reads_rendered {x : Float} (h : FromZero x) : Reads (renderedChars x) x := by
  rcases fromZero_iff.1 h with hx | ⟨m, q, hx⟩
  · rw [eq_infinity hx]
    exact reads_infinity
  · by_cases hm : m = 0
    · subst hm
      rw [renderedChars_zero hx, eq_zero hx]
      exact reads_zero
    · exact reads_rendered_positive (Nat.pos_of_ne_zero hm) hx

theorem renderedChars_negativeZero : renderedChars (-0.0) = ['0'] := by
  obtain ⟨q, hx⟩ := eq_negativeZero_iff.1 rfl
  exact renderedChars_zero hx

theorem renderedChars_nan {x : Float} (h : x.isNaN = true) :
    renderedChars x = ['n', 'a', 'n'] := by
  have hx := Double.isNaN_iff.1 h
  simp only [renderedChars, shortestChars, hx]

end Number
end Reckoner
