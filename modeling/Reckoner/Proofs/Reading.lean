import Reckoner.Evaluation
import Reckoner.Proofs.Grammar.Reporting

/-!
# Readings of a text

A reading is the call for an expression, where the calls of functions are reported, followed by a
check of what is left over. So it gives a result if the call parses and the check passes, and fails
if the call fails or the check does.
-/
namespace Reckoner

theorem Cursor.length_ofText (text : String) (q : Nat) :
    (ofText text q).rest.length = text.length - q := by
  rw [ofText, List.length_drop, String.length_toList]

namespace Reading

open Grammar

variable {α : Type} {r : Reading} {P : Productions α} {text : String}

/-- What comes of a result once what is left over has been checked. -/
def finish (r : Reading) (a : α) (d : Cursor) : Except Failure α :=
  if !r.full then .ok a
  else match d.skipBlanks.peek? with
    | none => .ok a
    | some ')' => .error (.mismatchedParentheses d.skipBlanks.position false)
    | some ch => .error (.trailingInput ch d.skipBlanks.position)

/-- The call that reads a text. -/
abbrev call (text : String) : Call α := .expression (.ofText text 0) {}

variable (r P text)

theorem run_eq : r.run P text =
    ((call text).run (P.reporting r.nesting.guard) r.nesting).bind fun x => r.finish x.1 x.2 := by
  simp only [run, Call.run]
  cases Grammar.expression (P.reporting r.nesting.guard) r.nesting (.ofText text 0) {} <;> rfl

variable {r P text}

theorem finish_eq_ok_iff {a b : α} {d : Cursor} :
    r.finish a d = .ok b ↔ a = b ∧ (r.full = true → d.skipBlanks.rest = []) := by
  unfold finish
  cases r.full with
  | false => simp
  | true =>
    simp only [Bool.not_true, Bool.false_eq_true, if_false, forall_const]
    cases hr : d.skipBlanks.rest with
    | nil => simp [Cursor.peek?, hr]
    | cons ch cs =>
      simp only [Cursor.peek?, hr, List.head?_cons, reduceCtorEq, and_false, iff_false]
      split <;> simp_all

/-- A failing check has found a character that is left over. -/
theorem finish_error_cases {a : α} {d : Cursor} {e : Failure} (h : r.finish a d = .error e) :
    (d.skipBlanks.peek? = some ')' ∧ e = .mismatchedParentheses d.skipBlanks.position false) ∨
      ∃ ch, ch ≠ ')' ∧ d.skipBlanks.peek? = some ch ∧
        e = .trailingInput ch d.skipBlanks.position := by
  unfold finish at h
  split at h
  · cases h
  · split at h
    · cases h
    · rename_i hp
      cases h
      exact .inl ⟨hp, rfl⟩
    · rename_i ch hne hp
      cases h
      exact .inr ⟨ch, hne, hp, rfl⟩

/-- Whether the check passes, and how it fails, does not depend on the result. -/
theorem finish_eq_error_iff {β : Type} {a : α} {b : β} {d : Cursor} {e : Failure} :
    r.finish a d = .error e ↔ r.finish b d = .error e := by
  unfold finish
  cases r.full with
  | false => simp
  | true =>
    simp only [Bool.not_true, Bool.false_eq_true, if_false]
    split <;> simp

theorem run_eq_ok_iff {a : α} : r.run P text = .ok a ↔
    ∃ d, Parses P r.nesting (call text) a d ∧ (r.full = true → d.skipBlanks.rest = []) := by
  rw [run_eq]
  constructor
  · intro h
    cases hx : (call text).run (P.reporting r.nesting.guard) r.nesting with
    | error e => rw [hx] at h; cases h
    | ok x =>
      rw [hx] at h
      obtain ⟨rfl, hd⟩ := finish_eq_ok_iff.1 h
      exact ⟨x.2, parses_reporting_iff.1 (Grammar.run_eq_ok_iff.1 hx), hd⟩
  · rintro ⟨d, hp, hd⟩
    rw [(parses_reporting_iff.2 hp).run]
    exact finish_eq_ok_iff.2 ⟨rfl, hd⟩

theorem run_eq_error_iff {e : Failure} : r.run P text = .error e ↔
    Fails (P.reporting r.nesting.guard) r.nesting (call text) e ∨
      ∃ a d, Parses P r.nesting (call text) a d ∧ r.finish a d = .error e := by
  rw [run_eq]
  constructor
  · intro h
    cases hx : (call text).run (P.reporting r.nesting.guard) r.nesting with
    | error e' =>
      rw [hx] at h
      cases h
      exact .inl (Grammar.run_eq_error_iff.1 hx)
    | ok x =>
      rw [hx] at h
      exact .inr ⟨x.1, x.2, parses_reporting_iff.1 (Grammar.run_eq_ok_iff.1 hx), h⟩
  · rintro (h | ⟨a, d, hp, hd⟩)
    · rw [h.run]; rfl
    · rw [(parses_reporting_iff.2 hp).run]; exact hd

theorem parse_eq_error_iff {e : Failure} : r.parse text = .error e ↔
    Fails Expr.productions r.nesting (call text) e ∨
      ∃ t d, Parses Expr.productions r.nesting (call text) t d ∧ r.finish t d = .error e :=
  run_eq_error_iff

end Reading
end Reckoner
