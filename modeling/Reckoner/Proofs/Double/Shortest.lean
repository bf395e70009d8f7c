import Reckoner.Proofs.Double.Value

/-!
# Shortest texts

The shortest text of a finite double is a literal with its sign, and the literal stands for the
absolute value. It has no zeros before other digits, and digits on both sides of a point. From zero
on no two doubles share a text.
-/
namespace Reckoner

open Double Parts

/-- A literal with digits on both sides of a point and no zero before other digits. -/
structure Literal.IsStandard (l : Literal) : Prop where
  whole : l.whole = ['0'] ∨ ∃ c cs, l.whole = c :: cs ∧ c ≠ '0'
  fraction : l.fraction ≠ some []

namespace Literal

variable {l l' : Literal}

/-- A text is at most one literal. -/
theorem value_eq_of_chars (h : l.chars = l'.chars) : l.value = l'.value := by
  have hl : Number.literal? l.chars = some l.decimal := Number.literal?_eq_some_iff.2 ⟨l, rfl, rfl⟩
  have hl' : Number.literal? l.chars = some l'.decimal :=
    Number.literal?_eq_some_iff.2 ⟨l', h.symm, rfl⟩
  rw [hl, Option.some.injEq] at hl'
  rw [value, hl', value]

end Literal

namespace Number

theorem exists_numerals_cons {n : ℕ} (hn : n ≠ 0) :
    ∃ c cs, Decimal.numerals n = c :: cs ∧ c ≠ '0' := by
  induction n using Nat.strong_induction_on with
  | _ n ih =>
    rw [Decimal.numerals, Nat.toDigits_eq_if (by norm_num)]
    split
    · exact ⟨_, [], rfl, by simpa using hn⟩
    · rename_i hge
      obtain ⟨c, cs, hcs, hc⟩ := ih (n / 10) (by omega) (by omega)
      rw [Decimal.numerals] at hcs
      exact ⟨c, cs ++ [(n % 10).digitChar], by rw [hcs]; rfl, hc⟩

/-- A text that is a standard literal. -/
def IsStandardText (cs : List Char) : Prop := ∃ l : Literal, l.chars = cs ∧ l.IsStandard

theorem isStandardText_positional {c : Char} {cs : List Char} (fraction : Option (List Char))
    (hc : c ≠ '0' ∨ cs = []) (hcs : ∀ d ∈ c :: cs, d.isDigit = true)
    (hf : ∀ ds ∈ fraction, ∀ d ∈ ds, d.isDigit = true) (hne : fraction ≠ some []) :
    IsStandardText (c :: cs ++ Literal.point fraction) := by
  have hwhole : c :: cs = ['0'] ∨ ∃ d ds, c :: cs = d :: ds ∧ d ≠ '0' := by
    by_cases hzero : c = '0'
    · rw [hzero, hc.resolve_left (not_not.2 hzero)]
      exact .inl rfl
    · exact .inr ⟨c, cs, rfl, hzero⟩
  exact ⟨⟨c :: cs, fraction, none, hcs, hf, by simp⟩, by simp [Literal.chars, Literal.mantissa],
    hwhole, hne⟩

theorem isStandardText_scientific {c : Char} (fraction : Option (List Char))
    (hc : c.isDigit = true) (hf : ∀ ds ∈ fraction, ∀ d ∈ ds, d.isDigit = true)
    (hne : fraction ≠ some []) (e : ℤ) :
    IsStandardText (c :: (Literal.point fraction ++ scientificExponent e)) := by
  have hwhole : [c] = ['0'] ∨ ∃ d ds, [c] = d :: ds ∧ d ≠ '0' := by
    by_cases hzero : c = '0'
    · exact .inl (by rw [hzero])
    · exact .inr ⟨c, [], rfl, hzero⟩
  exact ⟨⟨[c], fraction, some (scientific e), by simpa using hc, hf, by simp⟩,
    by simp [Literal.chars, Literal.mantissa, chars_scientific], hwhole, hne⟩

/-- Digits that do not start with a zero, and a zero alone, are laid out as a standard literal. -/
theorem isStandardText_layout (style : Style) {c : Char} {cs : List Char} {e : ℤ}
    (hd : ∀ d ∈ c :: cs, d.isDigit = true) (hc : c ≠ '0' ∨ cs = [] ∧ e = 0) :
    IsStandardText (layout style (c :: cs) e) := by
  have hdigits {ds : List Char} (h : ds ⊆ c :: cs) : ∀ d ∈ ds, d.isDigit = true :=
    fun d hm => hd d (h hm)
  unfold layout
  split
  · split
    · rename_i he
      have hzeros := isDigit_append (isDigit_zeros (-e - 1).toNat) hd
      have hzero : ∀ d ∈ ['0'], d.isDigit = true := by simp
      exact isStandardText_positional (some _) (.inr rfl) hzero (by simpa using hzeros) (by simp)
    · rename_i he
      obtain ⟨k, rfl⟩ := Int.eq_ofNat_of_zero_le (Int.not_lt.1 he)
      dsimp only
      rw [show (k : ℤ).toNat = k from rfl]
      simp only [List.take_succ_cons, List.drop_succ_cons, List.length_cons,
        Nat.add_sub_add_right, List.cons_append]
      have hwhole : ∀ d ∈ c :: (cs.take k ++ List.replicate (k - cs.length) '0'),
          d.isDigit = true := by
        refine List.forall_mem_cons.2 ⟨hd c List.mem_cons_self, isDigit_append ?_ (isDigit_zeros _)⟩
        exact hdigits fun d hm => List.mem_cons_of_mem c (List.mem_of_mem_take hm)
      have hfirst : c ≠ '0' ∨ cs.take k ++ List.replicate (k - cs.length) '0' = [] := by
        refine hc.imp id ?_
        rintro ⟨rfl, hk⟩
        obtain rfl : k = 0 := by exact_mod_cast hk
        rfl
      split
      · split
        · exact isStandardText_positional (some ['0']) hfirst hwhole (by simp) (by simp)
        · have h := isStandardText_positional none hfirst hwhole (by simp) (by simp)
          rwa [Literal.point, List.append_nil] at h
      · rename_i hrest
        refine isStandardText_positional (some (cs.drop k)) hfirst hwhole ?_
          (by simpa only [ne_eq, Option.some.injEq] using hrest)
        simpa using hdigits fun d hm => List.mem_cons_of_mem c (List.mem_of_mem_drop hm)
  · rcases cs with _ | ⟨c', cs⟩
    · have h := isStandardText_scientific none (hd c (by simp)) (by simp) (by simp) e
      rwa [Literal.point, List.nil_append] at h
    · refine isStandardText_scientific (some (c' :: cs)) (hd c (by simp)) ?_ (by simp) e
      simpa using hdigits fun d hm => List.mem_cons_of_mem c hm

theorem isStandardText_decimal (style : Style) (d : Decimal) :
    IsStandardText (writeDecimal style d) := by
  unfold writeDecimal
  by_cases hz : d.stripped.digits = 0
  · have hd : d.digits = 0 := by
      by_contra hne
      have hrat := d.stripped_toRat
      rw [Decimal.toRat, hz, Nat.cast_zero, zero_mul] at hrat
      exact (Decimal.toRat_pos_iff.2 hne).ne hrat
    have hstripped : d.stripped = ⟨0, 0⟩ := by rw [Decimal.stripped, if_pos hd]
    rw [hstripped]
    have hzero : ∀ d ∈ ['0'], d.isDigit = true := by simp
    exact isStandardText_layout style hzero (.inr ⟨rfl, rfl⟩)
  · obtain ⟨c, cs, hcs, hc⟩ := exists_numerals_cons hz
    have hdigits := isDigit_numerals d.stripped.digits
    rw [hcs] at hdigits
    simp only [hcs]
    exact isStandardText_layout style hdigits (.inl hc)

/-- No digits but a zero are left of a zero. -/
theorem shortest_zero (q : ℤ) : Decimal.shortest 0 q = ⟨0, 0⟩ := by
  have hdigits : (Decimal.ofDyadic 0 q).digits = 0 := by
    unfold Decimal.ofDyadic
    split <;> exact Nat.zero_mul _
  have hwidth : (Decimal.ofDyadic 0 q).width - 1 = 0 := by
    rw [Decimal.width, hdigits]
    rfl
  simp only [Decimal.shortest, hwidth, Decimal.shortestFrom, Decimal.stripped, hdigits, if_true]

/-- A shortest text is told from an integer by a point or an exponent. -/
theorem exists_not_isDigit (d : Decimal) :
    ∃ c ∈ writeDecimal shortestStyle d, c.isDigit = false := by
  unfold writeDecimal layout
  dsimp only
  split
  · split
    · exact ⟨'.', by simp, rfl⟩
    · split
      · exact ⟨'.', by simp [shortestStyle], rfl⟩
      · exact ⟨'.', by simp, rfl⟩
  · split
    · rename_i hnil
      exact absurd hnil (numerals_ne_nil _)
    · exact ⟨'e', by simp [scientificExponent], rfl⟩
    · exact ⟨'e', by simp [scientificExponent], rfl⟩

/-- The shortest text of a finite double is a standard literal of the absolute value, with the sign
of the double. -/
theorem exists_literal_shortestChars {x : Float} (h : x.isFinite = true) :
    ∃ l : Literal, shortestChars x = signed (isNegative x) l.chars ∧ l.IsStandard ∧
      (∃ c ∈ l.chars, c.isDigit = false) ∧ l.value = x.abs := by
  obtain ⟨_, negative, m, q, hx, -⟩ := isFinite_iff.1 h
  have habs := ofFloat_abs hx
  obtain ⟨l, hl, hstandard⟩ := isStandardText_decimal shortestStyle (Decimal.shortest m q)
  refine ⟨l, ?_, hstandard, hl ▸ exists_not_isDigit _, ?_⟩
  · rw [isNegative_of_parts hx, hl]
    simp only [shortestChars, hx]
  · by_cases hm : m = 0
    · rw [hm] at habs hl
      rw [shortest_zero] at hl
      have hzero : l.chars = (⟨['0'], some ['0'], none, by simp, by simp, by simp⟩ :
        Literal).chars := hl
      rw [eq_zero habs, Literal.value_eq_of_chars hzero]
      decide +kernel
    · have hm := Nat.pos_of_ne_zero hm
      have hread := Decimal.toFloat_shortest hm habs
      have hwrites := (writes_decimal shortestStyle (Decimal.shortest m q)).reads
        (Decimal.digits_ne_zero hm habs hread) hread
      obtain ⟨l', hl', hvalue⟩ := hwrites
      rw [← hvalue]
      exact Literal.value_eq_of_chars (hl.trans hl'.symm)

/-- From zero on the shortest text is a word or a literal. -/
theorem shortestChars_cases {x : Float} (h : FromZero x) :
    (shortestChars x = ['i', 'n', 'f'] ∧ x = infinity) ∨
      ∃ l : Literal, shortestChars x = l.chars ∧ l.value = x := by
  rcases fromZero_iff.1 h with hx | ⟨m, q, hx⟩
  · refine .inl ⟨?_, eq_infinity hx⟩
    simp only [shortestChars, hx]
    rfl
  · obtain ⟨l, hl, -, -, hvalue⟩ := exists_literal_shortestChars (isFinite_iff.2 ⟨_, holds_of_parts hx⟩)
    have habs : x.abs = x := eq_of_unpack (by
      rw [unpack_toModel, unpack_toModel, ofFloat_abs hx, hx])
    rw [isNegative_of_parts hx] at hl
    exact .inr ⟨l, hl, hvalue.trans habs⟩

/-- From zero on doubles are told apart by their shortest texts. -/
theorem eq_of_shortestChars {x y : Float} (hx : FromZero x) (hy : FromZero y)
    (h : shortestChars x = shortestChars y) : x = y := by
  have hword (l : Literal) : ['i', 'n', 'f'] ≠ l.chars := fun heq =>
    absurd (l.isPart_of_mem 'i' (heq ▸ by simp)) (by decide)
  rcases shortestChars_cases hx with ⟨hxs, hxv⟩ | ⟨l, hxs, hxv⟩ <;>
    rcases shortestChars_cases hy with ⟨hys, hyv⟩ | ⟨l', hys, hyv⟩ <;> rw [hxs, hys] at h
  · rw [hxv, hyv]
  · exact absurd h (hword l')
  · exact absurd h.symm (hword l)
  · rw [← hxv, ← hyv, Literal.value_eq_of_chars h]

end Number
end Reckoner
