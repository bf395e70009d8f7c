import Reckoner.Proofs.Acceptance
import Reckoner.Proofs.Grammar.Lexemes
import Reckoner.Proofs.OnePass

/-!
# Spacing

Blanks do not matter but for telling tokens apart: texts that spell the same tokens have the same
tree, and so the same value or the same failure but for its position.
-/
namespace Reckoner

namespace Reading

open Grammar

/-- What is reported of a failure in two texts differs in the position at most. -/
theorem unlocated_eq_of_reports {c : Context} {r : Reading} {text text' : String}
    {e e₀ e₁ e₀' e₁' : Failure} (hl : e₀.Locates e) (hl' : e₁.Locates e)
    (h : r.Reports c text e₀ e₀') (h' : r.Reports c text' e₁ e₁') :
    e₁'.report.unlocated = e₀'.report.unlocated := by
  have hexhausts : e₁.exhausts = e₀.exhausts := hl'.exhausts_eq.trans hl.exhausts_eq.symm
  obtain ⟨he, rfl⟩ | ⟨p, hp, rfl⟩ := h
  · rw [h'.eq_of_not_exhausts (hexhausts.trans he), hl'.report_eq, hl.report_eq]
  · obtain ⟨he, -⟩ | ⟨p', -, rfl⟩ := h'
    · simp [hexhausts, hp.exhausts] at he
    · simp [Failure.report, Report.parse, Report.unlocated]

/-- Texts with the same tree evaluate alike. -/
theorem evaluate_congr_of_parse (E : Elementary) (c : Context) {r : Reading} {text text' : String}
    {t : Expr} (h : r.parse text = .ok t) (h' : r.parse text' = .ok t) :
    (∀ v, r.evaluate E c text' = .ok v ↔ r.evaluate E c text = .ok v) ∧
      ∀ e, r.evaluate E c text = .error e → ∃ e', r.evaluate E c text' = .error e' ∧
        e'.report.unlocated = e.report.unlocated := by
  obtain ⟨v, hv, hrun⟩ | ⟨e, e₀, e₀', he, hl, hreports, hrun⟩ :=
    evaluate_of_parse (E := E) (c := c) h
  · obtain ⟨v', hv', hrun'⟩ | ⟨e, _, _, he, -⟩ := evaluate_of_parse (E := E) (c := c) h'
    · obtain rfl : v' = v := by simpa [hv] using hv'.symm
      simp [hrun, hrun']
    · simp [hv] at he
  · obtain ⟨v, hv, -⟩ | ⟨e', e₁, e₁', he', hl', hreports', hrun'⟩ :=
      evaluate_of_parse (E := E) (c := c) h'
    · simp [he] at hv
    · obtain rfl : e' = e := by simpa [he] using he'.symm
      refine ⟨by simp [hrun, hrun'], fun err herr => ⟨e₁', hrun', ?_⟩⟩
      obtain rfl : e₀' = err := by simpa [hrun] using herr
      exact unlocated_eq_of_reports hl hl' hreports hreports'

/-- An accepted text consists of the tokens of a phrase with its tree, and of no others. Every text
with the same tokens, whatever blanks there are before, between and behind them, is accepted with
the same tree. So it has the same value, or fails in the same way but for the position. The text
without its blanks is such a text, and so are those with blanks around each token. -/
theorem parse_of_same_tokens {n : Nesting} {text : String} {t : Expr}
    (h : (⟨n, true⟩ : Reading).parse text = .ok t) :
    ∃ p : Phrase .expression, p.tree = t ∧ Lexical p.tokens ∧ Spells p.tokens text.toList ∧
      (∀ ts, Lexical ts → Spells ts text.toList →
        ts.map Token.chars = p.tokens.map Token.chars) ∧
      (∀ text' : String, Spells p.tokens text'.toList →
        (⟨n, true⟩ : Reading).parse text' = .ok t ∧ ∀ E c,
          (∀ v, (⟨n, true⟩ : Reading).evaluate E c text' = .ok v ↔
            (⟨n, true⟩ : Reading).evaluate E c text = .ok v) ∧
          ∀ e, (⟨n, true⟩ : Reading).evaluate E c text = .error e →
            ∃ e', (⟨n, true⟩ : Reading).evaluate E c text' = .error e' ∧
              e'.report.unlocated = e.report.unlocated) ∧
      Spells p.tokens (text.toList.filter fun ch => !isBlank ch) ∧
      ∀ bs bs', Blanks bs → Blanks bs' →
        Spells p.tokens (p.tokens.flatMap fun token => bs ++ (token.chars ++ bs')) := by
  obtain ⟨p, hs, ht, hf⟩ := parse_eq_ok_iff_phrase.1 h
  refine ⟨p, ht, p.lexical, hs, fun ts hts h' => hts.chars_eq p.lexical h' hs,
    fun text' hs' => ?_, p.lexical.spells_filter hs,
    fun bs bs' hb hb' => .surrounded hb hb' p.tokens⟩
  have h' : (⟨n, true⟩ : Reading).parse text' = .ok t :=
    parse_eq_ok_iff_phrase.2 ⟨p, hs', ht, hf⟩
  exact ⟨h', fun E c => evaluate_congr_of_parse E c h h'⟩

/-- Without its blanks a difference of constants touches its operator. -/
theorem parse_of_same_tokens_difference :
    (⟨.unlimited, true⟩ : Reading).parse "e - e" =
        .ok (.binary (.constant "e") "-" (.constant "e")) ∧
      (⟨.unlimited, true⟩ : Reading).parse "e-e" =
        .ok (.binary (.constant "e") "-" (.constant "e")) := by
  have hdifference : Parses Expr.productions .unlimited (call "e - e")
      (.binary (.constant "e") "-" (.constant "e")) ⟨5, []⟩ :=
    .chain (.chain (.base rfl rfl rfl (.constant rfl rfl rfl) rfl) (.last rfl))
      (.more rfl (.chain (.base rfl rfl rfl (.constant rfl rfl rfl) rfl) (.last rfl)) rfl
        (.last rfl))
  have h : (⟨.unlimited, true⟩ : Reading).parse "e - e" =
      .ok (.binary (.constant "e") "-" (.constant "e")) :=
    run_eq_ok_iff.2 ⟨_, hdifference, fun _ => rfl⟩
  obtain ⟨p, -, -, -, -, hsame, hunspaced, -⟩ := parse_of_same_tokens h
  exact ⟨h, (hsame "e-e" hunspaced).1⟩

end Reading
end Reckoner
