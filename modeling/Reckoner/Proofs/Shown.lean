import Reckoner.Proofs.Acceptance
import Reckoner.Proofs.Double.Significant
import Reckoner.Proofs.Double.Value
import Reckoner.Proofs.Grammar.Placement
import Reckoner.Proofs.Lines
import Reckoner.Proofs.OnePass

/-!
# Shown numbers

What is shown of a finite double is a literal, perhaps behind a minus. Typed in again it is read as
a number, and as the value of the same number by an evaluation over any context. With seventeen
significant digits or more this number is the double that was shown.
-/
namespace Reckoner

open Double

/-- The characters of literals one by one. -/
theorem Literal.isPart_cases {c : Char} (h : isPart c = true) :
    (∃ d : Fin 10, c = Char.ofNat (48 + d)) ∨ c ∈ ['.', 'e', 'E', '+', '-'] := by
  simp only [isPart, Bool.or_eq_true, decide_eq_true_eq] at h
  refine h.imp (fun hdigit => ?_) id
  simp only [Char.isDigit, Bool.and_eq_true, decide_eq_true_eq, ge_iff_le,
    UInt32.le_iff_toNat_le] at hdigit
  have hlow : 48 ≤ c.toNat := hdigit.1
  have hhigh : c.toNat ≤ 57 := hdigit.2
  refine ⟨⟨c.toNat - 48, by omega⟩, ?_⟩
  rw [Nat.add_sub_cancel' hlow, Char.ofNat_toNat]

namespace Text

theorem plain_of_isPart {c : Char} (h : Literal.isPart c = true) : plain c = c := by
  rcases Literal.isPart_cases h with ⟨d, rfl⟩ | hmem
  · revert d
    decide
  · fin_cases hmem <;> decide

end Text

namespace Number

/-- Without underscores there are none to remove. -/
theorem withoutUnderscores?_of_forall {last : Char} {cs : List Char} (hl : last ≠ '_')
    (h : ∀ c ∈ cs, c ≠ '_') : withoutUnderscores? last cs = some cs := by
  induction cs generalizing last with
  | nil => simp [withoutUnderscores?, hl]
  | cons c cs ih =>
    obtain ⟨hc, hcs⟩ := List.forall_mem_cons.1 h
    simp [withoutUnderscores?, hl, ih hc hcs]

theorem toLower_ne_of_isPart {c : Char} (h : Literal.isPart c = true) : c.toLower ≠ 'n' := by
  rcases Literal.isPart_cases h with ⟨d, rfl⟩ | hmem
  · revert d
    decide
  · fin_cases hmem <;> decide

/-- No literal is the word for infinity or not-a-number. -/
theorem named?_chars (l : Literal) : named? l.chars = none := by
  have hword (word : String) (hn : 'n' ∈ word.toList) :
      String.ofList (l.chars.map Char.toLower) ≠ word := by
    rintro rfl
    rw [String.toList_ofList, List.mem_map] at hn
    obtain ⟨c, hc, hlower⟩ := hn
    exact toLower_ne_of_isPart (l.isPart_of_mem c hc) hlower
  simp [named?, hword "inf" (by decide), hword "infinity" (by decide), hword "nan" (by decide)]

theorem splitSign_signed (negative : Bool) (l : Literal) :
    splitSign (signed negative l.chars) = (negative, l.chars) := by
  cases negative with
  | true => rfl
  | false =>
    obtain ⟨c, cs, hcs, hc⟩ := Grammar.exists_head_literal l
    have hplus : c ≠ '+' := by
      rintro rfl
      exact absurd hc (by decide)
    have hminus : c ≠ '-' := by
      rintro rfl
      exact absurd hc (by decide)
    simp [signed, hcs, splitSign, hplus, hminus]

/-- A literal behind a sign is typed as its value with that sign. -/
theorem typed?_signed (negative : Bool) (l : Literal) :
    typed? (String.ofList (signed negative l.chars)) =
      some (if negative then -l.value else l.value) := by
  have hpart : ∀ c ∈ signed negative l.chars, Literal.isPart c = true := by
    cases negative with
    | false => exact l.isPart_of_mem
    | true => exact List.forall_mem_cons.2 ⟨by decide, l.isPart_of_mem⟩
  have hplain : (signed negative l.chars).map Text.plain = signed negative l.chars :=
    (List.map_congr_left fun c hc => Text.plain_of_isPart (hpart c hc)).trans (List.map_id _)
  have hblank : ∀ c ∈ signed negative l.chars, (c == ' ') = false := by
    intro c hc
    rw [beq_eq_false_iff_ne]
    rintro rfl
    exact absurd (hpart _ hc) (by decide)
  have htrim := Text.trim_eq_self (stops_of_forall hblank)
    (stops_of_forall fun c hc => hblank c (List.mem_reverse.1 hc))
  have hunderscore : ∀ c ∈ signed negative l.chars, c ≠ '_' := by
    rintro _ hc rfl
    exact absurd (hpart _ hc) (by decide)
  have hliteral : literal? l.chars = some l.decimal := literal?_eq_some_iff.2 ⟨l, rfl, rfl⟩
  rw [typed?, String.toList_ofList, hplain, htrim,
    withoutUnderscores?_of_forall (by decide) hunderscore]
  simp only [Option.bind_some, signedLiteral?, splitSign_signed, named?_chars, hliteral]
  rfl

end Number

/-! ## Evaluation -/

namespace Grammar

/-- The phrase of a literal with a sign. -/
def Phrase.signed (negative : Bool) (l : Literal) : Phrase .expression :=
  .operand (l := .sum) (.operand (l := .product)
    (if negative then .sign ⟨'-', by simp⟩ (.base (.number l)) else .base (.number l)))

theorem Phrase.spells_signed (negative : Bool) (l : Literal) :
    Spells (signed negative l).tokens (Number.signed negative l.chars) := by
  cases negative with
  | false => exact .one .nil (.number l)
  | true => exact .token .nil (.one .nil (.number l))

/-- A sign and the literal behind it are two factors. -/
theorem Phrase.admitted_signed (negative : Bool) (l : Literal) {n : Nesting}
    (h : n.refuses { factors := 2 } = false) : (signed negative l).Admitted n {} := by
  have hone : n.refuses { factors := 1 } = false :=
    Depth.refuses_mono (k := { factors := 2 }) ⟨by decide, le_rfl⟩ h
  cases negative with
  | false => exact ⟨hone, trivial⟩
  | true => exact ⟨hone, h, trivial⟩

theorem Phrase.value_signed (negative : Bool) (l : Literal) (E : Elementary) (c : Context) :
    (signed negative l).tree.value E c [] =
      .ok (if negative then -l.value else l.value) := by
  cases negative <;> rfl

end Grammar

open Grammar in
/-- A literal behind a sign has its value with that sign in every context. -/
theorem Reading.evaluate_signed (negative : Bool) (l : Literal) (E : Elementary) (c : Context)
    {n : Nesting} (h : n.refuses { factors := 2 } = false) :
    (⟨n, true⟩ : Reading).evaluate E c (String.ofList (Number.signed negative l.chars)) =
      .ok (if negative then -l.value else l.value) := by
  have hparse : (⟨n, true⟩ : Reading).parse (String.ofList (Number.signed negative l.chars)) =
      .ok (Phrase.signed negative l).tree := by
    rw [parse_eq_ok_iff_phrase, String.toList_ofList]
    exact ⟨_, Phrase.spells_signed negative l, rfl, Phrase.admitted_signed negative l h⟩
  have hvalue := Phrase.value_signed negative l E c
  obtain ⟨v, hv, he⟩ | ⟨_, _, _, hv, -⟩ := evaluate_of_parse (E := E) (c := c) hparse
  · rw [he, ← hv, hvalue]
  · rw [hvalue] at hv
    cases hv

/-! ## What is shown -/

namespace Number

variable {x : Float} {p : ℕ}

/-- What is shown of a finite double is a literal with its sign. -/
theorem exists_literal_generalChars (h : x.isFinite = true) (p : ℕ) :
    ∃ l : Literal, generalChars p x = signed (isNegative x) l.chars ∧
      (17 ≤ p → l.value = x.abs) := by
  obtain ⟨_, negative, m, q, hx, -⟩ := isFinite_iff.1 h
  obtain ⟨l, hl, hv⟩ := writes_decimal (generalStyle p) ((Decimal.ofDyadic m q).toSignificant p)
  refine ⟨l, ?_, fun hp => ?_⟩
  · rw [isNegative_of_parts hx, hl]
    simp only [generalChars, hx]
  · have habs := ofFloat_abs hx
    by_cases hm : m = 0
    · rw [hm] at habs hv
      have hzero : (Decimal.ofDyadic 0 q).digits = 0 := by
        unfold Decimal.ofDyadic
        split <;> exact Nat.zero_mul _
      rw [Decimal.toSignificant, Decimal.toRat_nearest_of_digits_eq_zero hzero] at hv
      have hdigits : l.decimal.digits = 0 := by
        by_contra hne
        exact (Decimal.toRat_pos_iff.2 hne).ne' hv
      rw [Literal.value, Decimal.toFloat_of_digits_eq_zero hdigits]
      exact (eq_zero habs).symm
    · have hm := Nat.pos_of_ne_zero hm
      have hread := Decimal.toFloat_toSignificant hm habs hp
      rw [Literal.value, ← hread]
      exact (Decimal.toFloat_congr (Decimal.digits_ne_zero hm habs hread) hv.symm).symm

/-- The literal of a zero. -/
theorem value_of_chars_eq_zero {l : Literal} (h : l.chars = ['0']) : l.value = 0.0 := by
  have hd : literal? ['0'] = some l.decimal := literal?_eq_some_iff.2 ⟨l, h, rfl⟩
  have hzero : l.decimal = ⟨0, 0⟩ := by
    have : literal? ['0'] = some ⟨0, 0⟩ := by decide
    rw [this] at hd
    exact (Option.some.inj hd).symm
  rw [Literal.value, hzero, toFloat_zero]

end Number

open Number

variable {x : Float} {p : ℤ} {text : String}

/-- The text of a finite double is a literal behind a minus or without one. -/
theorem exists_literal_formatNumber (hx : x.isFinite = true) (h : formatNumber x p = .ok text) :
    ∃ (negative : Bool) (l : Literal), text = String.ofList (signed negative l.chars) ∧
      (17 ≤ p → ((if negative then -l.value else l.value) == x) = true) := by
  obtain ⟨v, hv⟩ := isFinite_iff.1 hx
  obtain ⟨l, hl, hvalue⟩ := exists_literal_generalChars hx p.toNat
  have htext : text = if generalText p.toNat x = "-0" then "0" else generalText p.toNat x := by
    simp only [formatNumber] at h
    split_ifs at h <;> simp_all
  rw [generalText, hl] at htext
  by_cases hz : String.ofList (signed (isNegative x) l.chars) = "-0"
  · rw [if_pos hz] at htext
    have hchars : signed (isNegative x) l.chars = ['-', '0'] := by
      rw [← String.toList_ofList (l := signed _ _), hz]
      rfl
    have hsplit := splitSign_signed (isNegative x) l
    rw [hchars] at hsplit
    have hchars : l.chars = ['0'] := (congrArg Prod.snd hsplit).symm
    have hzero := value_of_chars_eq_zero hchars
    refine ⟨false, l, by rw [htext, hchars]; rfl, fun hp => ?_⟩
    have habs : Holds 0.0 |v| := hzero ▸ hvalue (by omega) ▸ hv.abs
    rw [if_neg Bool.false_ne_true, hzero, holds_zero.beq_iff hv, eq_comm, ← abs_eq_zero]
    exact habs.unique holds_zero
  · rw [if_neg hz] at htext
    refine ⟨isNegative x, l, htext, fun hp => ?_⟩
    have hself : (if isNegative x then -x.abs else x.abs) = x := hv.copySign_self
    rw [hvalue (by omega), hself]
    exact beq_self hv.not_isNaN

/-- There is a greatest precision that numbers can be shown to. -/
theorem exists_formatNumber_iff (x : Float) (hp : 0 ≤ p) :
    (∃ text, formatNumber x p = .ok text) ↔ p ≤ 2147483647 := by
  refine ⟨fun ⟨text, h⟩ => ?_, fun hle => (exists_formatNumber x hp hle).imp fun _ h => h.1⟩
  simp only [formatNumber] at h
  split_ifs at h <;> omega

/-- What is shown of a finite double can be typed in: as a number and, with room for a sign, as an
expression it comes to the same double. Seventeen significant digits are enough for this to be the
one that was shown. -/
theorem shown_reads_back (hx : x.isFinite = true) (hp : 0 ≤ p) :
    ((∃ text, formatNumber x p = .ok text) ↔ p ≤ 2147483647) ∧
    ∀ text, formatNumber x p = .ok text → ∃ y, typed? text = some y ∧
      (∀ (E : Elementary) (c : Context) (n : Nesting), n.refuses { factors := 2 } = false →
        (⟨n, true⟩ : Reading).evaluate E c text = .ok y) ∧
      (17 ≤ p → (y == x) = true) := by
  refine ⟨exists_formatNumber_iff x hp, fun text htext => ?_⟩
  obtain ⟨negative, l, rfl, hvalue⟩ := exists_literal_formatNumber hx htext
  exact ⟨_, typed?_signed negative l, fun E c n hn => Reading.evaluate_signed negative l E c hn,
    hvalue⟩

/-- A sign, a point and an exponent under the least guard that takes a sign. -/
theorem shown_reads_back_small :
    (-1.5e-7 : Float).isFinite = true ∧ (0 : ℤ) ≤ 17 ∧
      formatNumber (-1.5e-7) 17 = .ok "-1.4999999999999999e-07" ∧
      ∃ y, typed? "-1.4999999999999999e-07" = some y ∧ (y == -1.5e-7) = true ∧
        ∀ (E : Elementary) (c : Context),
          (⟨⟨2, none⟩, true⟩ : Reading).evaluate E c "-1.4999999999999999e-07" = .ok y := by
  have hx : (-1.5e-7 : Float).isFinite = true := by decide +kernel
  have hp : (0 : ℤ) ≤ 17 := by decide
  have htext : formatNumber (-1.5e-7) 17 = .ok "-1.4999999999999999e-07" := by decide +kernel
  obtain ⟨y, hy, hvalue, hsame⟩ := (shown_reads_back hx hp).2 _ htext
  exact ⟨hx, hp, htext, y, hy, hsame (by decide),
    fun E c => hvalue E c ⟨2, none⟩ rfl⟩

end Reckoner
