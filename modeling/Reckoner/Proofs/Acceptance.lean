import Reckoner.Proofs.Grammar.Completeness
import Reckoner.Proofs.Reading

/-!
# Accepted texts

A text has a tree under a limit on nesting exactly when it spells a phrase with that tree which the
limit admits. Without a limit these are the texts of the grammar.
-/
namespace Reckoner

namespace Grammar

/-- Where nothing is refused every phrase is admitted. -/
theorem Phrase.admitted_unlimited {l : Level} (p : Phrase l) (k : Depth) :
    p.Admitted .unlimited k := by
  induction p generalizing k with
  | operand _ ih => exact ih k
  | join _ _ _ ih₁ ih₂ => exact ⟨ih₁ k, ih₂ k⟩
  | sign _ _ ih => exact ⟨rfl, ih _⟩
  | base _ ih => exact ⟨rfl, ih _⟩
  | power _ _ ih₁ ih₂ => exact ⟨rfl, ih₁ _, ih₂ _⟩
  | group _ ih => exact ih _
  | call _ _ ih => exact ih _
  | constant _ => trivial
  | number _ => trivial

end Grammar

namespace Reading

open Grammar

variable {n : Nesting} {text : String} {t : Expr}

/-- What is read of a text spells a phrase; all of the text, if nothing may be left over. -/
theorem exists_phrase {r : Reading} (h : r.parse text = .ok t) :
    ∃ (p : Phrase .expression) (s rest : List Char), Spells p.tokens s ∧ p.tree = t ∧
      p.Admitted r.nesting {} ∧ text.toList = s ++ rest ∧ (r.full = true → rest = []) := by
  obtain ⟨d, hp, hd⟩ := run_eq_ok_iff.1 h
  obtain ⟨p, s, ht, hs, hc, hf⟩ := hp.sound
  obtain ⟨bs, hb, hr⟩ := d.exists_blanks
  refine ⟨p, s ++ bs, d.skipBlanks.rest, ?_, ht, hf, ?_, hd⟩
  · simpa using hs.append (.blanks hb)
  · rw [List.append_assoc, ← hr, ← hc]
    rfl

/-- A limit refuses what nests too deep and nothing else. -/
theorem parse_eq_ok_iff_phrase :
    (⟨n, true⟩ : Reading).parse text = .ok t ↔
      ∃ p : Phrase .expression, Spells p.tokens text.toList ∧ p.tree = t ∧ p.Admitted n {} := by
  constructor
  · intro h
    obtain ⟨p, s, rest, hs, ht, hf, htext, hrest⟩ := exists_phrase h
    rw [hrest rfl, List.append_nil] at htext
    exact ⟨p, htext ▸ hs, ht, hf⟩
  · rintro ⟨p, hs, rfl, hf⟩
    obtain ⟨d, hd, hp⟩ := (complete p).expression (c := .ofText text 0) (k := {}) (r := []) hs
      (by simp [Cursor.ofText]) (ends_nil _) hf
    exact run_eq_ok_iff.2 ⟨d, hp, fun _ => by simpa using hd⟩

theorem parse_unlimited_iff :
    (⟨.unlimited, true⟩ : Reading).parse text = .ok t ↔ Derives text t := by
  rw [parse_eq_ok_iff_phrase]
  constructor
  · rintro ⟨p, hs, ht, -⟩
    exact ⟨p, hs, ht⟩
  · rintro ⟨p, hs, ht⟩
    exact ⟨p, hs, ht, p.admitted_unlimited _⟩

/-- Without a guard the tree builder accepts exactly the texts of the grammar and gives each the
one tree that the grammar prescribes. -/
theorem parse_eq_ok_iff_derives (text : String) :
    (∀ t, (⟨.unlimited, true⟩ : Reading).parse text = .ok t ↔ Derives text t) ∧
      { t | Derives text t }.Subsingleton := by
  refine ⟨fun t => parse_unlimited_iff, fun t ht u hu => ?_⟩
  have hparse := (parse_unlimited_iff.2 ht).symm.trans (parse_unlimited_iff.2 hu)
  simpa using hparse

end Reading
end Reckoner
