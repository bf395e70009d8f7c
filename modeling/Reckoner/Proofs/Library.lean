import Reckoner.Context

/-!
# Failures of calculations

Library functions, operators and conversions to a double fail only by refusing an argument or with a
fault of the host. They do not use up the stack.
-/
namespace Reckoner

/-- The failures of calculations: a refused argument, or a fault of the host that leaves the stack
alone. -/
def Failure.isNumeric : Failure → Bool
  | domain _ => true
  | host fault _ => fault ≠ .recursion
  | _ => false

namespace Library

variable {E : Elementary} {x : Float} {e : Failure}

theorem escaping_error {r : Except MathFault Float} (h : escaping r = .error e) :
    e.isNumeric = true := by
  cases r with
  | ok y => cases h
  | error fault => cases fault <;> cases h <;> rfl

theorem saturating_error {limit : Float} {r : Except MathFault Float}
    (h : saturating limit r = .error e) : e.isNumeric = true := by
  unfold saturating at h
  split at h
  · cases h
  · exact escaping_error h

/-- What is computed on a restricted domain. -/
theorem restricted_error {p : Prop} [Decidable p] {r : Except Failure Float}
    {s : Except MathFault Float}
    (hr : ∀ e, r = .error e → e.isNumeric = true)
    (h : (if p then r else escaping s) = .error e) : e.isNumeric = true := by
  split at h
  · exact hr e h
  · exact escaping_error h

theorem refuse_error {fault : DomainFault} (e : Failure) (h : refuse fault = .error e) :
    e.isNumeric = true := by
  cases h
  rfl

end Library

open Library in
theorem LibraryFunction.apply_error {E : Elementary} {f : LibraryFunction} {x : Float}
    {e : Failure} (h : f.apply E x = .error e) : e.isNumeric = true := by
  cases f with
  | sin | cos | tan => exact restricted_error (fun _ h => by cases h) h
  | asin | acos | acosh | atanh | sqrt | ln | log | log2 => exact restricted_error refuse_error h
  | atan | tanh | asinh | cbrt => exact escaping_error h
  | sinh | cosh | exp | exp2 => exact saturating_error h
  | abs | floor | ceil | round => cases h

theorem Datum.toFloat_error {d : Datum} {e : Failure} (h : d.toFloat = .error e) :
    e.isNumeric = true := by
  cases d with
  | bool b => cases h
  | float x => cases h
  | int n =>
    simp only [toFloat] at h
    split at h <;> cases h
    rfl
  | text s =>
    simp only [toFloat] at h
    split at h <;> cases h
    rfl
  | _ =>
    cases h
    rfl

/-- An operator fails only by refusing its operands. -/
theorem BinaryOperator.exists_fault {E : Elementary} {op : BinaryOperator} {x y : Float}
    {e : Failure} (h : op.apply E x y = .error e) : ∃ fault, e = .domain fault := by
  cases op <;> simp only [apply, reduceCtorEq] at h
  · simp only [Library.divide, Library.refuse] at h
    split at h <;> cases h
    exact ⟨_, rfl⟩
  · simp only [Library.modulo, Library.refuse] at h
    split at h <;> cases h
    exact ⟨_, rfl⟩

/-- A function fails by a value, or as the host does. -/
theorem Callable.apply_error {E : Elementary} {f : Callable} {x : Float} {e : Failure}
    (h : f.apply E x = .error e) :
    e.isNumeric = true ∨ ∃ run, f = .host run ∧ run x = .error e := by
  cases f with
  | library g => exact .inl (LibraryFunction.apply_error h)
  | host run =>
    cases hrun : run x with
    | ok d =>
      rw [apply, hrun] at h
      exact .inl (Datum.toFloat_error h)
    | error e' =>
      rw [apply, hrun] at h
      cases h
      exact .inr ⟨run, rfl, hrun⟩

theorem Failure.not_exhausts_of_isNumeric {e : Failure} (h : e.isNumeric = true) :
    e.exhausts = false := by
  cases e with
  | host fault _ => cases fault <;> first | rfl | cases h
  | _ => rfl

/-- Failures of calculations do not concern the text. -/
theorem Failure.not_isParse_of_isNumeric {e : Failure} (h : e.isNumeric = true) :
    e.kind.isParse = false := by
  cases e with
  | domain _ | host _ _ => rfl
  | _ => cases h

end Reckoner
