import Reckoner.Proofs.Parentheses

/-!
# Equal trees

Trees that compare equal are the same but for the signs of zeros. These signs matter: a negative
zero has a value of its own. Where they agree, equal trees have the same value or fail alike under
all bindings. So do equal trees that were read, since no literal stands for a negative zero.
-/
namespace Reckoner

open Double Grammar

namespace Double

open Float.Model Float.Model.UnpackedFloat Parts

theorem beq_zero_iff {x : Float} : (x == 0.0) = true ↔ x = 0.0 ∨ x = -0.0 := by
  constructor
  · intro h
    rw [beq_eq, unpack_zero, UnpackedFloat.beq] at h
    obtain ⟨s, hs⟩ := exists_zero_of_compare (by simpa using h)
    cases s with
    | positive => exact .inl (eq_of_unpack hs)
    | negative => exact .inr (eq_of_unpack hs)
  · rintro (rfl | rfl) <;> decide +kernel

/-- What compares equal is the same, but for the sign of a zero. -/
theorem eq_or_zeros_of_beq {x y : Float} (h : (x == y) = true) :
    x = y ∨ (x == 0.0) = true ∧ (y == 0.0) = true := by
  have hc : x.toModel.unpack.compare y.toModel.unpack = some .eq := by
    rw [beq_eq, UnpackedFloat.beq] at h
    simpa using h
  have hu := unpack_toModel y
  cases hp : ofFloat y with
  | nan =>
    rw [hu, hp, unpacked] at hc
    cases hx : x.toModel.unpack <;> rw [hx] at hc <;> cases hc
  | infinite negative =>
    rw [hp] at hu
    rw [hu] at hc
    exact .inl (eq_of_unpack ((eq_infinity_of_compare hc).trans hu.symm))
  | finite negative m q =>
    by_cases hm : m = 0
    · rw [hp, unpacked, dif_pos hm] at hu
      rw [hu] at hc
      obtain ⟨s, hs⟩ := exists_zero_of_compare hc
      refine .inr ⟨?_, ?_⟩
      · rw [beq_eq, hs]
        rfl
      · rw [beq_eq, hu]
        rfl
    · exact .inl (eq_of_beq (Nat.pos_of_ne_zero hm) hp h)

end Double

namespace Expr

/-- The signs of the zeros among the numbers of a tree, from left to right. -/
def zeroSigns : Expr → List Bool
  | number x => if x == 0.0 then [Number.isNegative x] else []
  | constant _ => []
  | unary _ a | call _ a => a.zeroSigns
  | binary a _ b => a.zeroSigns ++ b.zeroSigns

/-- Equal numbers are both zeros or both not. -/
theorem length_zeroSigns {a b : Expr} (h : a.same b = true) :
    a.zeroSigns.length = b.zeroSigns.length := by
  induction a generalizing b with
  | number x =>
    cases b <;> simp only [same, Bool.false_eq_true] at h
    rcases eq_or_zeros_of_beq h with rfl | ⟨hx, hy⟩
    · rfl
    · simp only [zeroSigns, hx, hy, if_true, List.length_singleton]
  | constant name => cases b <;> simp_all [same, zeroSigns]
  | unary op a ih =>
    cases b <;> simp only [same, Bool.and_eq_true, Bool.false_eq_true] at h
    simpa only [zeroSigns] using ih h.2
  | binary a op b iha ihb =>
    cases b <;> simp only [same, Bool.and_eq_true, Bool.false_eq_true] at h
    simp only [zeroSigns, List.length_append, iha h.1.1, ihb h.2]
  | call f a ih =>
    cases b <;> simp only [same, Bool.and_eq_true, Bool.false_eq_true] at h
    simpa only [zeroSigns] using ih h.2

/-- Nothing but the signs of zeros sets equal trees apart. -/
theorem eq_of_same {a b : Expr} (h : a.same b = true) (hz : a.zeroSigns = b.zeroSigns) :
    a = b := by
  induction a generalizing b with
  | number x =>
    cases b <;> simp only [same, Bool.false_eq_true] at h
    rename_i y
    rcases eq_or_zeros_of_beq h with rfl | ⟨hx, hy⟩
    · rfl
    · simp only [zeroSigns, hx, hy, if_true, List.cons.injEq, and_true] at hz
      rcases beq_zero_iff.1 hx with rfl | rfl <;> rcases beq_zero_iff.1 hy with rfl | rfl <;>
        first | rfl | exact absurd hz (by decide +kernel)
  | constant name => cases b <;> simp_all [same]
  | unary op a ih =>
    cases b <;> simp only [same, Bool.and_eq_true, beq_iff_eq, Bool.false_eq_true] at h
    rw [h.1, ih h.2 hz]
  | binary a op b iha ihb =>
    cases b <;> simp only [same, Bool.and_eq_true, beq_iff_eq, Bool.false_eq_true] at h
    obtain ⟨⟨ha, rfl⟩, hb⟩ := h
    obtain ⟨hza, hzb⟩ := List.append_inj hz (length_zeroSigns ha)
    rw [iha ha hza, ihb hb hzb]
  | call f a ih =>
    cases b <;> simp only [same, Bool.and_eq_true, beq_iff_eq, Bool.false_eq_true] at h
    rw [h.1, ih h.2 hz]

/-- From zero on there is no zero with a sign. -/
theorem zeroSigns_eq_replicate {t : Expr} (h : t.Numbers FromZero) :
    t.zeroSigns = List.replicate t.zeroSigns.length false := by
  induction t with
  | number x =>
    by_cases hx : (x == 0.0) = true
    · obtain rfl : x = 0.0 := (beq_zero_iff.1 hx).resolve_right h.2
      decide +kernel
    · simp only [zeroSigns, if_neg hx, List.length_nil, List.replicate_zero]
  | constant name => rfl
  | unary op a ih => simpa only [zeroSigns] using ih h
  | binary a op b iha ihb =>
    rw [zeroSigns, List.length_append, List.replicate_add, ← iha h.1, ← ihb h.2]
  | call f a ih => simpa only [zeroSigns] using ih h

/-- Trees of numbers from zero on that compare equal are the same. -/
theorem eq_of_same_of_fromZero {a b : Expr} (ha : a.Numbers FromZero) (hb : b.Numbers FromZero)
    (h : a.same b = true) : a = b := by
  refine eq_of_same h ?_
  rw [zeroSigns_eq_replicate ha, zeroSigns_eq_replicate hb, length_zeroSigns h]

end Expr

theorem Reading.fromZero_of_parse {r : Reading} {text : String} {t : Expr}
    (h : r.parse text = .ok t) : t.Numbers FromZero := by
  obtain ⟨p, -, -, -, rfl, -, -, -⟩ := exists_phrase h
  exact p.fromZero_tree

namespace Expr

/-- Equal trees have values of their own where a zero has a sign in only one of them. -/
theorem value_ne_of_same_zero :
    (.number 0.0 : Expr).same (.number (-0.0)) = true ∧
      (.number 0.0 : Expr).value .native .standard [] ≠
        (.number (-0.0) : Expr).value .native .standard [] := by
  refine ⟨by decide +kernel, fun h => ?_⟩
  have hzero : (0.0 : Float) = -0.0 := by simpa only [value, Except.ok.injEq] using h
  exact absurd hzero (by decide +kernel)

/-- Equal trees whose zeros have the same signs evaluate alike under all bindings, and so do equal
trees that were read. -/
theorem value_eq_of_same {a b : Expr} (h : a.same b = true) :
    (a.zeroSigns = b.zeroSigns →
      ∀ (E : Elementary) (c : Context) (bs : Bindings), a.value E c bs = b.value E c bs) ∧
    ∀ (r r' : Reading) (s s' : String), r.parse s = .ok a → r'.parse s' = .ok b →
      ∀ (E : Elementary) (c : Context) (bs : Bindings), a.value E c bs = b.value E c bs := by
  refine ⟨fun hz E c bs => ?_, fun r r' s s' ha hb E c bs => ?_⟩
  · rw [eq_of_same h hz]
  · rw [eq_of_same_of_fromZero (Reading.fromZero_of_parse ha) (Reading.fromZero_of_parse hb) h]

/-- Two texts of one tree, whose negative power of zero is taken from the same side. -/
theorem value_eq_of_same_texts :
    ∃ a b : Expr, (⟨.unlimited, true⟩ : Reading).parse "0^-1" = .ok a ∧
      (⟨.unlimited, true⟩ : Reading).parse "0.0^-1." = .ok b ∧ a.same b = true ∧
      a.zeroSigns = b.zeroSigns ∧
      ∀ (E : Elementary) (c : Context) (bs : Bindings), a.value E c bs = b.value E c bs := by
  have hminus : '-' ∈ ['-', '+'] := by decide
  have hread (zero one : Literal) (text : String)
      (htext : text.toList = zero.chars ++ '^' :: '-' :: one.chars) :
      (⟨.unlimited, true⟩ : Reading).parse text =
        .ok (.binary (.number zero.value) "^" (.unary "-" (.number one.value))) := by
    refine Reading.parse_unlimited_iff.2 ⟨(Phrase.power (.number zero)
      (.sign ⟨'-', hminus⟩ (.base (.number one)))).expression, ?_, rfl⟩
    have hone : Spells [.number one] one.chars := .one .nil (.number one)
    rw [htext]
    exact .token .nil (.token .nil (.token .nil hone))
  have ha := hread ⟨['0'], none, none, by simp, by simp, by simp⟩
    ⟨['1'], none, none, by simp, by simp, by simp⟩ "0^-1" rfl
  have hb := hread ⟨['0'], some ['0'], none, by simp, by simp, by simp⟩
    ⟨['1'], some [], none, by simp, by simp, by simp⟩ "0.0^-1." rfl
  have hsame : (.binary (.number (⟨0, 0⟩ : Decimal).toFloat) "^"
      (.unary "-" (.number (⟨1, 0⟩ : Decimal).toFloat)) : Expr).same
        (.binary (.number (⟨0, -1⟩ : Decimal).toFloat) "^"
          (.unary "-" (.number (⟨1, 0⟩ : Decimal).toFloat))) = true := by decide +kernel
  exact ⟨_, _, ha, hb, hsame, by decide +kernel, (value_eq_of_same hsame).2 _ _ _ _ ha hb⟩

end Expr
end Reckoner
