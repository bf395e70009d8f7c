import Reckoner.Number.Rounding
import Reckoner.Proofs.Double.Packed

/-!
# Signs of doubles

Negation, comparison with zero and equality by the parts of doubles.
-/
namespace Reckoner.Double

open Float.Model Float.Model.UnpackedFloat Parts

theorem eq_of_unpack {x y : Float} (h : x.toModel.unpack = y.toModel.unpack) : x = y := by
  rw [← ofModel_pack_unpack x, h, ofModel_pack_unpack]

theorem unpack_zero : (0.0 : Float).toModel.unpack = .zero .positive := rfl

theorem unpack_negativeZero : (-0.0 : Float).toModel.unpack = .zero .negative := rfl

theorem unpack_infinity : Number.infinity.toModel.unpack = .infinity .positive := rfl

theorem unpack_neg (x : Float) : (-x).toModel.unpack = x.toModel.unpack.neg := by
  have hu := unpack_toModel x
  change (Float.Model.pack x.toModel.unpack.neg).unpack = _
  cases hp : ofFloat x with
  | nan =>
    rw [hu, hp]
    rfl
  | infinite negative =>
    rw [hu, hp]
    cases negative <;> rfl
  | finite negative m q =>
    have hc := canonical_ofBits hp
    by_cases hz : m = 0
    · rw [hu, hp, unpacked, dif_pos hz]
      cases negative <;> rfl
    · rw [unpack_of_parts (Nat.pos_of_ne_zero hz) hp]
      cases negative
      · exact unpack_pack true _ hc
      · exact unpack_pack false _ hc

@[simp] theorem negate_negate (x : Float) : -(-x) = x := by
  apply eq_of_unpack
  rw [unpack_neg, unpack_neg]
  cases x.toModel.unpack with
  | notANumber => rfl
  | infinity s => cases s <;> rfl
  | zero s => cases s <;> rfl
  | finite s m e hm => cases s <;> rfl

theorem isNaN_iff {x : Float} : x.isNaN = true ↔ ofFloat x = .nan := by
  change x.toModel.unpack.isNaN = true ↔ _
  rw [unpack_toModel]
  cases ofFloat x with
  | nan => simp [unpacked, UnpackedFloat.isNaN]
  | infinite negative => simp [unpacked, UnpackedFloat.isNaN]
  | finite negative m q =>
    by_cases hz : m = 0 <;> simp [unpacked, hz, UnpackedFloat.isNaN]

theorem isNaN_eq_false_iff {x : Float} : x.isNaN = false ↔ ofFloat x ≠ .nan := by
  rw [Bool.eq_false_iff, ne_eq, isNaN_iff]

theorem lt_eq (x y : Float) : (x < y) = (x.toModel.unpack.lt y.toModel.unpack = true) := by
  change ((decide (x.toModel < y.toModel)) = true) = _
  rw [decide_eq_true_eq]
  rfl

/-- Less than zero are the doubles with a sign that are not zero. -/
theorem lt_zero_iff {x : Float} : x < 0.0 ↔
    ofFloat x = .infinite true ∨ ∃ m q, m ≠ 0 ∧ ofFloat x = .finite true m q := by
  rw [lt_eq, unpack_zero, unpack_toModel]
  cases hp : ofFloat x with
  | nan => simp [unpacked, UnpackedFloat.lt, UnpackedFloat.compare]
  | infinite negative =>
    cases negative <;> simp [unpacked, signOf, UnpackedFloat.lt, UnpackedFloat.compare]
  | finite negative m q =>
    by_cases hz : m = 0
    · cases negative <;> simp [unpacked, hz, signOf, UnpackedFloat.lt, UnpackedFloat.compare]
    · cases negative <;> simp [unpacked, hz, signOf, UnpackedFloat.lt, UnpackedFloat.compare]

theorem beq_eq (x y : Float) : (x == y) = x.toModel.unpack.beq y.toModel.unpack := rfl

/-- Only the same finite number compares equal to one that is not zero. -/
theorem eq_of_compare {u : UnpackedFloat} {s : UnpackedFloat.Sign} {m : ℕ} {q : ℤ} {hm : 0 < m}
    (h : u.compare (.finite s m q hm) = some .eq) : u = .finite s m q hm := by
  cases u with
  | notANumber => cases s <;> cases h
  | infinity s' => cases s <;> cases s' <;> cases h
  | zero s' => cases s <;> cases h
  | finite s' m' q' hm' =>
    have hthen : (compare q' q).then (compare m' m) = .eq → q' = q ∧ m' = m := by
      rw [Ordering.then_eq_eq]
      exact fun h => ⟨Int.compare_eq_eq.1 h.1, Nat.compare_eq_eq.1 h.2⟩
    cases s <;> cases s' <;> simp only [UnpackedFloat.compare, Option.some.injEq, reduceCtorEq] at h
    · obtain ⟨rfl, rfl⟩ := hthen (by simpa using h)
      rfl
    · obtain ⟨rfl, rfl⟩ := hthen h
      rfl

/-- Doubles that compare equal to one other than zero are the same. -/
theorem eq_of_beq {x y : Float} {negative : Bool} {m : ℕ} {q : ℤ} (hm : 0 < m)
    (hy : ofFloat y = .finite negative m q) (h : (x == y) = true) : x = y := by
  apply eq_of_unpack
  rw [unpack_of_parts hm hy]
  rw [beq_eq, unpack_of_parts hm hy, UnpackedFloat.beq] at h
  exact eq_of_compare (by simpa using h)

/-- A double is put together again from its parts. -/
theorem ofDyadic_eq {x : Float} {negative : Bool} {m : ℕ} {q : ℤ} (hm : 0 < m)
    (h : ofFloat x = .finite negative m q) : Number.ofDyadic negative m q = x := by
  have hc := canonical_ofBits h
  have ht := targetExponent_of_canonical hm.ne' hc
  rw [targetExponent_eq, totalExponent] at ht
  have hstored : Number.stored m q = (m, q) := by
    have he : max (q + (m.log2 : ℤ) - 52) (-1074) = q := by omega
    simp only [Number.stored, he, sub_self, Int.toNat_zero, Nat.pow_eq, pow_zero, mul_one,
      le_refl, if_true]
  have hbits : x.toBits.toNat = negative.toNat * 2 ^ 63 + magnitude m q :=
    bits_of_finite x.toBits.toBitVec.isLt h
  have hofBits : Float.ofBits x.toBits = x := ofModel_pack_unpack x
  rw [← hofBits, Number.ofDyadic, hstored]
  rw [← UInt64.ofNat_toNat (x := x.toBits), hbits]
  cases negative <;> simp [magnitude]

theorem ofFloat_of_unpack {x : Float} {negative : Bool} {m : ℕ} {q : ℤ} (hm : 0 < m)
    (h : x.toModel.unpack = .finite (signOf negative) m q hm) :
    ofFloat x = .finite negative m q := by
  rw [unpack_toModel] at h
  cases hp : ofFloat x with
  | nan => simp [hp, unpacked] at h
  | infinite _ => simp [hp, unpacked] at h
  | finite negative' m' q' =>
    rw [hp, unpacked] at h
    split at h
    · cases h
    · simp only [UnpackedFloat.finite.injEq] at h
      obtain ⟨hs, rfl, rfl⟩ := h
      cases negative <;> cases negative' <;> first | rfl | cases hs

theorem ofFloat_neg {x : Float} {negative : Bool} {m : ℕ} {q : ℤ} (hm : 0 < m)
    (h : ofFloat x = .finite negative m q) : ofFloat (-x) = .finite (!negative) m q := by
  refine ofFloat_of_unpack hm ?_
  rw [unpack_neg, unpack_of_parts hm h]
  cases negative <;> rfl

theorem eq_infinity {x : Float} (h : ofFloat x = .infinite false) : x = Number.infinity := by
  apply eq_of_unpack
  rw [unpack_toModel, h, unpack_infinity]
  rfl

theorem neg_eq_infinity {x : Float} (h : ofFloat x = .infinite true) : -x = Number.infinity := by
  apply eq_of_unpack
  rw [unpack_neg, unpack_toModel, h, unpack_infinity]
  rfl

/-- The two zeros. -/
theorem eq_zero {x : Float} {negative : Bool} {q : ℤ} (h : ofFloat x = .finite negative 0 q) :
    x = if negative then -0.0 else 0.0 := by
  apply eq_of_unpack
  rw [unpack_toModel, h]
  cases negative
  · rw [if_neg (by simp), unpack_zero]
    rfl
  · rw [if_pos rfl, unpack_negativeZero]
    rfl

theorem le_eq (x y : Float) : (x ≤ y) = (x.toModel.unpack.le y.toModel.unpack = true) := by
  change ((decide (x.toModel ≤ y.toModel)) = true) = _
  rw [decide_eq_true_eq]
  rfl

theorem eq_negativeZero_iff {x : Float} : x = -0.0 ↔ ∃ q, ofFloat x = .finite true 0 q := by
  constructor
  · rintro rfl
    exact ⟨-1074, by decide +kernel⟩
  · rintro ⟨q, hx⟩
    exact eq_zero hx

/-- The doubles from zero on, without the zero that has a sign. -/
def FromZero (x : Float) : Prop := 0.0 ≤ x ∧ x ≠ -0.0

theorem fromZero_iff {x : Float} :
    FromZero x ↔ ofFloat x = .infinite false ∨ ∃ m q, ofFloat x = .finite false m q := by
  rw [FromZero, ne_eq, eq_negativeZero_iff, le_eq, unpack_zero, unpack_toModel]
  cases ofFloat x with
  | nan => simp [unpacked, UnpackedFloat.le, UnpackedFloat.compare]
  | infinite negative =>
    cases negative <;> simp [unpacked, signOf, UnpackedFloat.le, UnpackedFloat.compare]
  | finite negative m q =>
    by_cases hm : m = 0
    · cases negative <;> simp [unpacked, hm, signOf, UnpackedFloat.le, UnpackedFloat.compare]
    · cases negative <;> simp [unpacked, hm, signOf, UnpackedFloat.le, UnpackedFloat.compare]

/-- A double is not a number, negative, the zero with a sign, or from zero on. -/
theorem isNaN_or (x : Float) : x.isNaN = true ∨ x < 0.0 ∨ x = -0.0 ∨ FromZero x := by
  rw [isNaN_iff, lt_zero_iff, eq_negativeZero_iff, fromZero_iff]
  cases ofFloat x with
  | nan => simp
  | infinite negative => cases negative <;> simp
  | finite negative m q => by_cases hm : m = 0 <;> cases negative <;> simp [hm]

theorem FromZero.not_lt {x : Float} (h : FromZero x) : ¬x < 0.0 := by
  rw [lt_zero_iff]
  rintro (hx | ⟨m, q, -, hx⟩) <;>
  · obtain h | ⟨m', q', h⟩ := fromZero_iff.1 h <;> rw [h] at hx <;> cases hx

theorem FromZero.not_isNaN {x : Float} (h : FromZero x) : x.isNaN = false := by
  rw [isNaN_eq_false_iff]
  intro hx
  obtain h | ⟨m, q, h⟩ := fromZero_iff.1 h <;> rw [h] at hx <;> cases hx

/-- The opposite of a negative double. -/
theorem fromZero_neg {x : Float} (h : x < 0.0) : FromZero (-x) := by
  rw [fromZero_iff]
  rcases lt_zero_iff.1 h with hx | ⟨m, q, hm, hx⟩
  · exact .inl (by rw [neg_eq_infinity hx]; decide +kernel)
  · exact .inr ⟨m, q, ofFloat_neg (Nat.pos_of_ne_zero hm) hx⟩

theorem not_isNaN_of_lt {x : Float} (h : x < 0.0) : x.isNaN = false := by
  rw [isNaN_eq_false_iff]
  intro hx
  rcases lt_zero_iff.1 h with h | ⟨m, q, -, h⟩ <;> rw [h] at hx <;> cases hx

/-- Packing keeps a number without a sign from zero on, also if it is too great. -/
theorem fromZero_pack {m : ℕ} {q : ℤ} (hm : 0 < m) :
    FromZero (Float.ofModel (.pack (.finite .positive m q hm))) := by
  have hbits (e : BitVec 11) (f : BitVec 52) :
      (packComponents Format.binary64 .positive e f).toNat = e.toNat * 2 ^ 52 + f.toNat := by
    rw [toNat_packComponents]
    exact congrArg (· + _) (Nat.zero_add _)
  rw [fromZero_iff, show ofFloat (Float.ofModel (.pack (.finite .positive m q hm))) =
    Parts.ofBits (UnpackedFloat.pack Format.binary64 (.finite .positive m q hm)).toNat from rfl]
  simp only [UnpackedFloat.pack, biased q]
  have hf (f : ℕ) : (BitVec.ofNat Format.binary64.mantissaBitsWithoutImplicit f).toNat < 2 ^ 52 :=
    (BitVec.ofNat 52 f).isLt
  split
  · rw [packedInfinity, hbits]
    exact ofBits_of_scale (.inr ⟨rfl, rfl⟩) (by decide)
  · rename_i hsmall
    split
    · rw [hbits]
      refine ofBits_of_scale (.inl ?_) (hf m)
      rw [BitVec.toNat_ofNat]
      refine lt_of_le_of_lt (Nat.mod_le _ _) ?_
      rw [show 2 ^ Format.binary64.exponentBits = 2048 from rfl] at hsmall
      omega
    · rw [hbits]
      exact ofBits_of_scale (.inl (by decide)) (hf m)

/-- A double that is a number equals itself. -/
theorem beq_self {x : Float} (h : x.isNaN = false) : (x == x) = true := by
  rw [isNaN_eq_false_iff] at h
  rw [beq_eq, unpack_toModel]
  cases hp : ofFloat x with
  | nan => exact absurd hp h
  | infinite negative => cases negative <;> rfl
  | finite negative m q =>
    rw [unpacked]
    split
    · rfl
    · cases negative <;> simp [signOf, UnpackedFloat.beq, UnpackedFloat.compare]

/-- Only an infinity compares equal to it. -/
theorem eq_infinity_of_compare {u : UnpackedFloat} {s : UnpackedFloat.Sign}
    (h : u.compare (.infinity s) = some .eq) : u = .infinity s := by
  cases u with
  | notANumber => cases s <;> cases h
  | infinity s' => cases s <;> cases s' <;> first | rfl | cases h
  | zero s' => cases s <;> cases h
  | finite s' m q hm => cases s <;> cases s' <;> cases h

/-- Only the zeros compare equal to a zero. -/
theorem exists_zero_of_compare {u : UnpackedFloat} {s : UnpackedFloat.Sign}
    (h : u.compare (.zero s) = some .eq) : ∃ s', u = .zero s' := by
  cases u with
  | notANumber => cases h
  | infinity s' => cases s' <;> cases h
  | zero s' => exact ⟨s', rfl⟩
  | finite s' m q hm => cases s' <;> cases h

/-- From zero on, what compares equal is the same, but for the sign of a zero. -/
theorem eq_or_of_beq {x y : Float} (hx : FromZero x) (h : (y == x) = true) :
    y = x ∨ y = -0.0 ∧ x = 0.0 := by
  have hc : y.toModel.unpack.compare x.toModel.unpack = some .eq := by
    rw [beq_eq, UnpackedFloat.beq] at h
    simpa using h
  rcases fromZero_iff.1 hx with hp | ⟨m, q, hp⟩
  · rw [eq_infinity hp, unpack_infinity] at hc
    rw [eq_infinity hp]
    exact .inl (eq_of_unpack (eq_infinity_of_compare hc))
  · by_cases hm : m = 0
    · subst hm
      have hz : x = 0.0 := eq_zero hp
      rw [hz, unpack_zero] at hc
      obtain ⟨s, hs⟩ := exists_zero_of_compare hc
      rw [hz]
      cases s with
      | positive => exact .inl (eq_of_unpack hs)
      | negative => exact .inr ⟨eq_of_unpack hs, rfl⟩
    · exact .inl (eq_of_beq (Nat.pos_of_ne_zero hm) hp h)

end Reckoner.Double
