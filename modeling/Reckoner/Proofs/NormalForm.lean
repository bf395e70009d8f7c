import Reckoner.Proofs.Rendering

/-!
# The normal form of a text

What the text of a tree is read as has that same text. The tree may have changed where a number is
negative, a negative zero or not a number, but every such number binds as what takes its place does,
so the same operands are enclosed.
-/
namespace Reckoner

open Double

namespace Expr

/-- What a number is read as has the text of the number. -/
theorem render_ofNumber (x : Float) : (ofNumber x).render = .ok (Number.rendered x) := by
  rw [ofNumber]
  by_cases hnan : x.isNaN = true
  · rw [if_pos hnan, Number.rendered, Number.renderedChars_nan hnan]
    rfl
  · rw [if_neg hnan]
    by_cases hlt : x < 0.0
    · have hneg : ¬-x < 0.0 := (fromZero_neg hlt).not_lt
      rw [if_pos hlt, Number.rendered, Number.renderedChars_negative hlt]
      simp only [render, strength, if_neg hneg, bind, Except.bind]
      simp [pure, Except.pure, enclose, atomStrength, Sign.strength, Number.rendered]
    · rw [if_neg hlt]
      by_cases hz : x = -0.0
      · have hsame : Number.rendered 0.0 = Number.rendered (-0.0) := by decide +kernel
        rw [if_pos hz, render, hz, hsame]
      · rw [if_neg hz, render]

/-- What a number is read as binds as the number does. -/
theorem strength_ofNumber (x : Float) : (ofNumber x).strength = (number x).strength := by
  have hzero : ¬(0.0 : Float) < 0.0 := by decide +kernel
  have hnegative : ¬(-0.0 : Float) < 0.0 := by decide +kernel
  rw [ofNumber]
  by_cases hnan : x.isNaN = true
  · have hlt : ¬x < 0.0 := fun h => absurd hnan (Bool.eq_false_iff.1 (not_isNaN_of_lt h))
    simp only [if_pos hnan, strength, if_neg hlt]
  · rw [if_neg hnan]
    by_cases hlt : x < 0.0
    · simp only [if_pos hlt, strength]
    · rw [if_neg hlt]
      by_cases hz : x = -0.0
      · rw [if_pos hz, hz, strength, strength, if_neg hzero, if_neg hnegative]
      · rw [if_neg hz]

theorem strength_reread (t : Expr) : t.reread.strength = t.strength := by
  cases t with
  | number x => exact strength_ofNumber x
  | _ => rfl

/-- What the text of a tree is read as has the text of the tree, if that has one. -/
theorem render_reread (t : Expr) : t.reread.render = t.render := by
  induction t with
  | number x => exact render_ofNumber x
  | constant name => rfl
  | unary op a ih => simp only [reread, render, ih, strength_reread]
  | binary a op b iha ihb => simp only [reread, render, iha, ihb, strength_reread]
  | call f a ih => simp only [reread, render, ih]

/-- Rendering gives a normal form: the text of a tree of any numbers is read, and what it is read as
is rendered as the same text. -/
theorem render_parse_render (t : Expr) (h : t.WellFormed) :
    ∃ text u, t.render = .ok text ∧ (⟨.unlimited, true⟩ : Reading).parse text = .ok u ∧
      u.render = .ok text := by
  obtain ⟨text, n, hr⟩ := exists_rendered h
  exact ⟨text, t.reread, hr.render_eq, hr.parse_eq, (render_reread t).trans hr.render_eq⟩

/-- Negative zero loses its sign and a negative base keeps its parentheses, in the tree of its sign
as in its own. -/
theorem render_parse_render_signs :
    ∃ u, (⟨.unlimited, true⟩ : Reading).parse "(-2.5)^-1e999 - 0 * nan" = .ok u ∧
      u.render = .ok "(-2.5)^-1e999 - 0 * nan" := by
  obtain ⟨text, u, ht, hp, hu⟩ := render_parse_render
    (.binary (.binary (.number (-2.5)) "^" (.number (-Number.infinity))) "-"
      (.binary (.number (-0.0)) "*" (.number Number.nan))) (by decide)
  have htext : (.binary (.binary (.number (-2.5)) "^" (.number (-Number.infinity))) "-"
      (.binary (.number (-0.0)) "*" (.number Number.nan)) : Expr).render =
        .ok "(-2.5)^-1e999 - 0 * nan" := by decide +kernel
  rw [htext] at ht
  cases ht
  exact ⟨u, hp, hu⟩

end Expr
end Reckoner
