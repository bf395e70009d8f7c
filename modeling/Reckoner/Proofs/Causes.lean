import Reckoner.Proofs.Library
import Reckoner.Proofs.Malformed
import Reckoner.Proofs.OnePass

/-!
# Causes of failures

A reading fails for one of three causes: the text has no phrase of the grammar, a factor is too deep
for the limit, or a production fails. Productions that build trees never do; those that compute
values do where a name is unknown, an operator refuses its operands, or a called function fails.
-/
namespace Reckoner

/-- A failure of the productions themselves. -/
inductive Productions.Raises {α : Type} (P : Productions α) : Failure → Prop
  | constant {name : String} {position : Nat} {e : Failure} :
    P.constant name position = .error e → Raises P e
  | call {name : String} {a : α} {start stop : Nat} {e : Failure} :
    P.call name a start stop = .error e → Raises P e
  | unary {s : Sign} {a : α} {e : Failure} : P.unary s a = .error e → Raises P e
  | binary {op : BinaryOperator} {a b : α} {e : Failure} : P.binary op a b = .error e → Raises P e

/-- What is reported of a call is its own failure, or a text that is too deep. -/
theorem Productions.Raises.of_reporting {α : Type} {P : Productions α} {limit : Int} {e : Failure}
    (h : (P.reporting limit).Raises e) : P.Raises e ∨ ∃ p, e = .nestingTooDeep p limit := by
  cases h with
  | constant h => exact .inl (.constant h)
  | unary h => exact .inl (.unary h)
  | binary h => exact .inl (.binary h)
  | @call name a start stop _ h =>
    cases hcall : P.call name a start stop with
    | ok b => cases (reporting_call_eq_ok_iff.2 hcall).symm.trans h
    | error e₀ =>
      cases (reporting_call_of_error hcall).symm.trans h
      cases he : e₀.exhausts with
      | false =>
        rw [Failure.reported_eq_self he]
        exact .inl (.call hcall)
      | true => exact .inr ⟨stop, Failure.reported_of_exhausts he⟩

/-- The failures of a text without a phrase. -/
def Failure.isSyntax : Failure → Bool
  | unexpectedEnd _ | mismatchedParentheses _ _ | invalidNumber _ _ | expectedNumber _
  | trailingInput _ _ => true
  | _ => false

theorem Cursor.isSyntax_of_scanNumber {c d : Cursor} {e : Failure}
    (h : c.scanNumber = (.error e, d)) : e.isSyntax = true := by
  cases scanNumber_malformed h <;> rfl

/-- Why a reading under a limit fails. -/
inductive Cause {α : Type} (P : Productions α) (n : Nesting) : Failure → Prop
  | text {e : Failure} : e.isSyntax = true → Cause P n e
  | depth {k : Depth} (position : Nat) : n.refuses k = true →
    Cause P n (.nestingTooDeep position n.guard)
  | production {e : Failure} : P.Raises e → Cause P n e

section

variable {α : Type} {P : Productions α} {n : Nesting} {e : Failure}

theorem Grammar.Refuses.cause {q : Call α} (h : Refuses P n q e) : Cause P n e := by
  cases h with
  | binary _ _ hb => exact .production (.binary hb)
  | atEnd _ => exact .text rfl
  | tooDeep _ hn => exact .depth _ hn
  | unary _ _ _ hu => exact .production (.unary hu)
  | power _ _ _ _ _ _ hb => exact .production (.binary hb)
  | group _ _ _ => exact .text rfl
  | constant _ _ hc => exact .production (.constant hc)
  | argument _ _ _ _ => exact .text rfl
  | call _ _ _ _ hc => exact .production (.call hc)
  | number _ _ hs => exact .text (Cursor.isSyntax_of_scanNumber hs)

theorem Grammar.Fails.cause {q : Call α} (h : Fails P n q e) : Cause P n e := by
  induction h with
  | here h => exact h.cause
  | within _ _ ih => exact ih

namespace Reading

variable {r : Reading} {text : String}

theorem isSyntax_of_finish {a : α} {d : Cursor} (h : r.finish a d = .error e) :
    e.isSyntax = true := by
  obtain ⟨-, rfl⟩ | ⟨ch, -, -, rfl⟩ := finish_error_cases h <;> rfl

theorem cause_of_run (h : r.run P text = .error e) :
    Cause (P.reporting r.nesting.guard) r.nesting e := by
  obtain hf | ⟨a, d, -, hd⟩ := run_eq_error_iff.1 h
  · exact hf.cause
  · exact .text (isSyntax_of_finish hd)

end Reading

end

theorem Expr.not_raises {e : Failure} : ¬productions.Raises e := by
  rintro (h | h | h | h) <;> cases h

/-- How productions that compute values fail. -/
theorem Context.raises_of_productions {E : Elementary} {c : Context} {e : Failure}
    (h : (c.productions E).Raises e) : c.Raises E e := by
  cases h with
  | constant h =>
    simp only [productions] at h
    split at h <;> cases h
    exact .identifier ‹_›
  | call h =>
    simp only [productions] at h
    split at h
    · exact .call ‹_› h
    · cases h
      exact .function ‹_›
  | unary h => cases h
  | binary h =>
    obtain ⟨fault, rfl⟩ := BinaryOperator.exists_fault h
    exact .operator h

end Reckoner
