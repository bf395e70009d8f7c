import Reckoner.Number.Written
import Reckoner.Proofs.Literal
import Reckoner.Proofs.Double.Decimal

/-!
# Written decimals

A decimal is written as a literal with the same value, in positional and in scientific notation
alike.
-/
namespace Reckoner

namespace Number

theorem natural_eq (ds : List Char) : natural ds = Nat.ofDigitChars 10 ds 0 := rfl

theorem natural_append (ds es : List Char) :
    natural (ds ++ es) = natural ds * 10 ^ es.length + natural es := by
  rw [natural_eq, Nat.ofDigitChars_append, Nat.ofDigitChars_eq_ofDigitChars_zero, mul_comm]
  rfl

@[simp] theorem natural_zeros (k : ℕ) : natural (List.replicate k '0') = 0 := by
  simp [natural_eq]

@[simp] theorem natural_numerals (n : ℕ) : natural (Decimal.numerals n) = n := by
  rw [natural_eq, Decimal.numerals, Nat.ofDigitChars_ten_toDigits]

theorem isDigit_numerals (n : ℕ) : ∀ c ∈ Decimal.numerals n, c.isDigit = true :=
  fun _ => Nat.isDigit_of_mem_toDigits (by norm_num) (by norm_num)

theorem numerals_ne_nil (n : ℕ) : Decimal.numerals n ≠ [] := Nat.toDigits_ne_nil

theorem isDigit_zeros (k : ℕ) : ∀ c ∈ List.replicate k '0', c.isDigit = true := by
  intro c hc
  rw [List.eq_of_mem_replicate hc]
  rfl

end Number

namespace Decimal

open Number

/-- Zeros at the end are a power of ten. -/
theorem stripped_toRat (d : Decimal) : d.stripped.toRat = d.toRat := by
  unfold stripped
  split
  · rename_i h
    simp [toRat, h]
  · dsimp only
    generalize hz : ((numerals d.digits).reverse.takeWhile (· == '0')).length = z
    obtain ⟨front, hfront⟩ : ∃ front, numerals d.digits = front ++ List.replicate z '0' := by
      have hrun : (numerals d.digits).reverse.takeWhile (· == '0') = List.replicate z '0' := by
        rw [List.eq_replicate_iff]
        exact ⟨hz, fun c hc => by simpa using List.mem_takeWhile_imp hc⟩
      have := List.takeWhile_append_dropWhile (p := (· == '0')) (l := (numerals d.digits).reverse)
      rw [hrun, ← List.reverse_inj, List.reverse_reverse] at this
      exact ⟨_, by rw [← this, List.reverse_append, List.reverse_replicate]⟩
    have hdigits : d.digits = natural front * 10 ^ z := by
      rw [← natural_numerals d.digits, hfront, natural_append]
      simp
    rw [toRat, toRat, hdigits, Nat.pow_eq, Nat.mul_div_cancel _ (by positivity),
      zpow_add₀ (by norm_num), zpow_natCast]
    push_cast
    ring

end Decimal

namespace Number

/-- Digits written with a decimal exponent are a literal of that value. -/
def Writes (cs : List Char) (v : ℚ) : Prop :=
  ∃ l : Literal, l.chars = cs ∧ l.decimal.toRat = v

/-- A number in positional notation. -/
theorem writes_positional (whole : List Char) (fraction : Option (List Char))
    (hw : ∀ c ∈ whole, c.isDigit = true) (hf : ∀ ds ∈ fraction, ∀ c ∈ ds, c.isDigit = true)
    (hne : whole ++ fraction.getD [] ≠ []) :
    Writes (whole ++ Literal.point fraction)
      (natural (whole ++ fraction.getD []) * 10 ^ (-(fraction.getD []).length : ℤ)) := by
  refine ⟨⟨whole, fraction, none, hw, hf, hne⟩, ?_, ?_⟩
  · simp [Literal.chars, Literal.mantissa]
  · simp [Literal.decimal, Decimal.toRat]

/-- The exponent of scientific notation. -/
def scientific (e : ℤ) : Exponent where
  letter := 'e'
  sign := if e < 0 then ['-'] else ['+']
  digits := let ds := Decimal.numerals e.natAbs
    if ds.length < 2 then '0' :: ds else ds
  letter_mem := by simp
  sign_mem := by split <;> simp
  digits_ne_nil := by
    dsimp only
    split
    · simp
    · exact numerals_ne_nil _
  isDigit_digits := by
    dsimp only
    split
    · intro c hc
      rcases List.mem_cons.1 hc with rfl | hc
      · rfl
      · exact isDigit_numerals _ c hc
    · exact isDigit_numerals _

theorem chars_scientific (e : ℤ) : (scientific e).chars = scientificExponent e := by
  simp only [Exponent.chars, scientific, scientificExponent]
  split <;> rfl

theorem value_scientific (e : ℤ) : (scientific e).value = e := by
  have hdigits : natural (scientific e).digits = e.natAbs := by
    simp only [scientific]
    split
    · rw [← List.singleton_append, natural_append, natural_numerals]
      simp [natural]
    · rw [natural_numerals]
  have hsign : (scientific e).sign = ['-'] ↔ e < 0 := by
    simp only [scientific]
    split <;> simp [*]
  rw [Exponent.value, hdigits]
  simp only [hsign]
  split <;> omega

theorem writes_scientific (c : Char) (cs : List Char) (hc : c.isDigit = true)
    (hcs : ∀ c ∈ cs, c.isDigit = true) (e : ℤ) :
    Writes (if cs = [] then c :: scientificExponent e else c :: '.' :: cs ++ scientificExponent e)
      (natural (c :: cs) * 10 ^ (e - cs.length)) := by
  by_cases h : cs = []
  · subst h
    refine ⟨⟨[c], none, some (scientific e), by simpa using hc, by simp, by simp⟩, ?_, ?_⟩
    · simp [Literal.chars, Literal.mantissa, Literal.point, chars_scientific]
    · simp [Literal.decimal, Decimal.toRat, value_scientific]
  · refine ⟨⟨[c], some cs, some (scientific e), by simpa using hc, by simpa using hcs, by simp⟩,
      ?_, ?_⟩
    · simp [Literal.chars, Literal.mantissa, Literal.point, chars_scientific, h]
    · simp [Literal.decimal, Decimal.toRat, value_scientific]

theorem Writes.congr {cs : List Char} {v w : ℚ} (h : Writes cs v) (hv : v = w) : Writes cs w :=
  hv ▸ h

theorem isDigit_append {cs ds : List Char} (hc : ∀ c ∈ cs, c.isDigit = true)
    (hd : ∀ c ∈ ds, c.isDigit = true) : ∀ c ∈ cs ++ ds, c.isDigit = true := by
  intro c h
  rcases List.mem_append.1 h with h | h
  · exact hc c h
  · exact hd c h

/-- Digits behind the point. -/
theorem writes_below_one {ds : List Char} (hd : ∀ c ∈ ds, c.isDigit = true) {e : ℤ} (he : e < 0) :
    Writes ('0' :: '.' :: List.replicate (-e - 1).toNat '0' ++ ds)
      (natural ds * 10 ^ (e + 1 - ds.length)) := by
  have h := writes_positional ['0'] (some (List.replicate (-e - 1).toNat '0' ++ ds)) (by simp)
    (by simpa using isDigit_append (isDigit_zeros _) hd) (by simp)
  refine h.congr ?_
  have hnat : natural (['0'] ++ (List.replicate (-e - 1).toNat '0' ++ ds)) = natural ds := by
    rw [← List.append_assoc, natural_append,
      show ['0'] ++ List.replicate (-e - 1).toNat '0' = List.replicate ((-e - 1).toNat + 1) '0'
        from rfl, natural_zeros]
    simp
  rw [Option.getD_some, hnat]
  congr 2
  simp only [List.length_append, List.length_replicate, Nat.cast_add]
  omega

/-- Digits before the point only, with zeros up to it. -/
theorem writes_integer {style : Style} {ds : List Char} (hne : ds ≠ [])
    (hd : ∀ c ∈ ds, c.isDigit = true) (z : ℕ) :
    Writes (let integer := ds ++ List.replicate z '0'
        if style.pointZero then integer ++ ['.', '0'] else integer) (natural ds * 10 ^ z) := by
  have hint := isDigit_append hd (isDigit_zeros z)
  dsimp only
  split
  · have h := writes_positional _ (some ['0']) hint (by simp) (by simp)
    refine h.congr ?_
    rw [Option.getD_some, natural_append, natural_append, natural_zeros]
    simp [natural]
  · have h := writes_positional _ none hint (by simp) (by simp [hne])
    rw [Literal.point, List.append_nil] at h
    refine h.congr ?_
    simp [natural_append]

/-- Digits before the point and behind it. -/
theorem writes_fraction {ds : List Char} (hd : ∀ c ∈ ds, c.isDigit = true) {k : ℕ}
    (hk : k + 1 < ds.length) :
    Writes (ds.take (k + 1) ++ '.' :: ds.drop (k + 1))
      (natural ds * 10 ^ ((k : ℤ) + 1 - ds.length)) := by
  have htake : ∀ c ∈ ds.take (k + 1), c.isDigit = true := fun c hc => hd c (List.mem_of_mem_take hc)
  have hdrop : ∀ c ∈ ds.drop (k + 1), c.isDigit = true := fun c hc => hd c (List.mem_of_mem_drop hc)
  have hsplit := List.take_append_drop (k + 1) ds
  have hne : ds ≠ [] := List.ne_nil_of_length_pos (by omega)
  have h := writes_positional _ (some (ds.drop (k + 1))) htake (by simpa using hdrop)
    (by simpa [hsplit] using hne)
  refine h.congr ?_
  rw [Option.getD_some, hsplit, List.length_drop]
  congr 2
  omega

/-- Digits before the point and perhaps behind it. -/
theorem writes_from_one {style : Style} {ds : List Char} (hne : ds ≠ [])
    (hd : ∀ c ∈ ds, c.isDigit = true) (k : ℕ) :
    Writes (let integer := ds.take (k + 1) ++ List.replicate (k + 1 - ds.length) '0'
        match ds.drop (k + 1) with
        | [] => if style.pointZero then integer ++ ['.', '0'] else integer
        | fraction => integer ++ '.' :: fraction)
      (natural ds * 10 ^ ((k : ℤ) + 1 - ds.length)) := by
  dsimp only
  split
  · rename_i hnil
    have hlen : ds.length ≤ k + 1 := List.drop_eq_nil_iff.1 hnil
    obtain ⟨z, hz⟩ : ∃ z, ds.length + z = k + 1 := Nat.le.dest hlen
    rw [List.take_of_length_le hlen, show k + 1 - ds.length = z by omega]
    refine (writes_integer hne hd z).congr ?_
    rw [← zpow_natCast]
    congr 2
    omega
  · rename_i hcons
    have hlen : k + 1 < ds.length := by
      by_contra hle
      exact hcons (List.drop_eq_nil_iff.2 (by omega))
    rw [show k + 1 - ds.length = 0 by omega, List.replicate_zero, List.append_nil]
    exact writes_fraction hd hlen

theorem writes_layout (style : Style) {ds : List Char} (hne : ds ≠ [])
    (hd : ∀ c ∈ ds, c.isDigit = true) (e : ℤ) :
    Writes (layout style ds e) (natural ds * 10 ^ (e + 1 - ds.length)) := by
  unfold layout
  split
  · split
    · rename_i he
      exact writes_below_one hd he
    · rename_i he
      obtain ⟨k, rfl⟩ := Int.eq_ofNat_of_zero_le (Int.not_lt.1 he)
      exact writes_from_one hne hd k
  · rcases ds with _ | ⟨c, _ | ⟨c', cs⟩⟩
    · exact absurd rfl hne
    · have h := writes_scientific c [] (hd c (by simp)) (by simp) e
      refine h.congr ?_
      simp
    · have h := writes_scientific c (c' :: cs) (hd c (by simp))
        (fun d hdm => hd d (by simp [hdm])) e
      refine h.congr ?_
      congr 2
      simp only [List.length_cons]
      push_cast
      ring

/-- A decimal is written as a literal of its value. -/
theorem writes_decimal (style : Style) (d : Decimal) : Writes (writeDecimal style d) d.toRat := by
  have h := writes_layout style (numerals_ne_nil d.stripped.digits) (isDigit_numerals _)
    (d.stripped.exponent + d.stripped.width - 1)
  refine h.congr ?_
  rw [← d.stripped_toRat, natural_numerals, Decimal.toRat, Decimal.width]
  congr 2
  ring

end Number
end Reckoner
