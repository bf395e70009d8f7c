import Reckoner.Calculator
import Reckoner.Proofs.Causes
import Reckoner.Proofs.Table

/-!
# What an evaluation comes to

Over the functions of the library an evaluation gives a double, or it fails for the text or because
an argument is refused. Nothing else escapes: where an elementary function has no value its argument
has been refused before, and where a value is too great an infinity stands for it. So every outcome
is captured.
-/
namespace Reckoner

/-- Where an elementary function has no value. -/
def Primitive.isUndefinedAt : Primitive → Float → Bool
  | sin, x | cos, x | tan, x => x.isInf
  | asin, x | acos, x => x < -1.0 || x > 1.0
  | acosh, x => x < 1.0
  | atanh, x => x ≤ -1.0 || x ≥ 1.0
  | sqrt, x => x < 0.0
  | log, x | log10, x | log2, x => x ≤ 0.0
  | atan, _ | sinh, _ | cosh, _ | tanh, _ | asinh, _ | cbrt, _ | exp, _ | exp2, _ => false

/-- That elementary functions fail only as they are documented to: a domain fault where there is no
value, a range fault where the value for a finite argument can be too great. -/
structure Elementary.Documented (E : Elementary) : Prop where
  domain {f : Primitive} {x : Float} : E.unary f x = .error .domain → f.isUndefinedAt x = true
  range {f : Primitive} {x : Float} : E.unary f x = .error .range →
    f.overflows = true ∧ x.isFinite = true

/-- The machine's functions with faults where they are documented and nowhere else. -/
def Elementary.checked : Elementary where
  unary f x :=
    if f.isUndefinedAt x then .error .domain
    else if f.overflows && x.isFinite && (f.native x).isInf then .error .range
    else .ok (f.native x)
  power := native.power
  arctangent2 := native.arctangent2

theorem Elementary.checked_documented : checked.Documented where
  domain {f x} h := by
    simp only [checked] at h
    split at h
    · assumption
    · split at h <;> cases h
  range {f x} h := by
    simp only [checked] at h
    split at h
    · cases h
    · split at h
      · rename_i hrange
        simp only [Bool.and_eq_true] at hrange
        exact hrange.1
      · cases h

namespace Library

variable {E : Elementary} {f : Primitive} {x limit : Float} {e : Failure}

/-- A function without great values does not fail where it has one. -/
theorem not_escaping_error (hE : E.Documented) (ho : f.overflows = false)
    (hu : f.isUndefinedAt x = false) : escaping (E.unary f x) ≠ .error e := by
  intro h
  cases hr : E.unary f x with
  | ok y =>
    rw [hr] at h
    cases h
  | error fault =>
    cases fault with
    | domain => exact Bool.noConfusion (hu.symm.trans (hE.domain hr))
    | range => exact Bool.noConfusion (ho.symm.trans (hE.range hr).1)

/-- Where a limit stands for values that are too great, no function fails where it has one. -/
theorem not_saturating_error (hE : E.Documented) (hu : f.isUndefinedAt x = false) :
    saturating limit (E.unary f x) ≠ .error e := by
  intro h
  cases hr : E.unary f x with
  | ok y =>
    rw [hr] at h
    cases h
  | error fault =>
    rw [hr] at h
    cases fault with
    | domain => exact Bool.noConfusion (hu.symm.trans (hE.domain hr))
    | range => cases h

/-- A function whose domain is checked first fails only as the check does. -/
theorem eq_of_restricted_error {p : Prop} [Decidable p] {r : Except Failure Float}
    (hE : E.Documented) (ho : f.overflows = false) (hu : ¬p → f.isUndefinedAt x = false)
    (h : (if p then r else escaping (E.unary f x)) = .error e) : r = .error e := by
  split at h
  · exact h
  · rename_i hp
    exact absurd h (not_escaping_error hE ho (hu hp))

end Library

open Library in
/-- A library function fails only by refusing its argument. -/
theorem LibraryFunction.exists_fault {E : Elementary} (hE : E.Documented) {f : LibraryFunction}
    {x : Float} {e : Failure} (h : f.apply E x = .error e) : ∃ fault, e = .domain fault := by
  have refused {fault : DomainFault} (h : refuse fault = .error e) :
      ∃ fault, e = .domain fault := by
    cases h
    exact ⟨fault, rfl⟩
  cases f with
  | sin | cos | tan =>
    cases eq_of_restricted_error hE rfl (fun hp => by simpa [Primitive.isUndefinedAt] using hp) h
  | asin | acos | acosh | atanh | sqrt | ln | log | log2 =>
    exact refused
      (eq_of_restricted_error hE rfl (fun hp => by simpa [Primitive.isUndefinedAt] using hp) h)
  | atan | tanh | asinh | cbrt => exact absurd h (not_escaping_error hE rfl rfl)
  | sinh | cosh | exp | exp2 => exact absurd h (not_saturating_error hE rfl)
  | abs | floor | ceil | round => cases h

/-- All functions of a context are those of the library, under whatever names. -/
def Context.IsLibrary (c : Context) : Prop :=
  ∀ {name f}, c.function? name = some f → ∃ g, f = .library g

theorem Context.isLibrary_standard : standard.IsLibrary := by
  intro name f h
  obtain ⟨g, -, hg⟩ := List.mem_map.1 (Table.mem_of_get? h)
  cases hg
  exact ⟨g, rfl⟩

theorem Context.IsLibrary.keepsStack {c : Context} (h : c.IsLibrary) : c.KeepsStack := by
  intro name run x e hf _
  obtain ⟨g, hg⟩ := h hf
  cases hg

/-- The kinds of failures that an evaluation is documented to have: those of texts, and refused
arguments. -/
def Kind.documented : List Kind :=
  [.unexpectedEnd, .mismatchedParentheses, .invalidNumber, .expectedNumber, .unknownFunction,
    .unknownIdentifier, .trailingInput, .nestingTooDeep, .domain]

theorem Kind.isCaptured_of_mem_documented {k : Kind} (h : k ∈ documented) :
    k.isCaptured = true := by
  revert k
  decide

section

variable {E : Elementary} {c : Context} {e : Failure}

theorem Context.Raises.documented (hE : E.Documented) (hc : c.IsLibrary) (h : c.Raises E e) :
    e.kind ∈ Kind.documented := by
  cases h with
  | function _ => simp [Kind.documented, Failure.kind, Failure.report, Report.parse]
  | identifier _ => simp [Kind.documented, Failure.kind, Failure.report, Report.parse]
  | operator _ => simp [Kind.documented, Failure.kind, Failure.report]
  | call hf hx =>
    obtain ⟨g, rfl⟩ := hc hf
    obtain ⟨fault, rfl⟩ := LibraryFunction.exists_fault hE hx
    simp [Kind.documented, Failure.kind, Failure.report]

theorem Failure.documented_of_isSyntax (h : e.isSyntax = true) : e.kind ∈ Kind.documented := by
  cases e with
  | unexpectedEnd _ | mismatchedParentheses _ _ | invalidNumber _ _ | expectedNumber _
  | trailingInput _ _ => simp [Kind.documented, kind, report, Report.parse]
  | _ => cases h

theorem Reading.evaluate_documented {r : Reading} {text : String} (hE : E.Documented)
    (hc : c.IsLibrary) (h : r.evaluate E c text = .error e) : e.kind ∈ Kind.documented := by
  cases cause_of_run h with
  | text hsyntax => exact Failure.documented_of_isSyntax hsyntax
  | depth _ _ => simp [Kind.documented, Failure.kind, Failure.report, Report.parse]
  | production hraises =>
    obtain hraises | ⟨p, rfl⟩ := hraises.of_reporting
    · exact (Context.raises_of_productions hraises).documented hE hc
    · simp [Kind.documented, Failure.kind, Failure.report, Report.parse]

end

namespace Calculator

open Grammar

variable (E : Elementary)

theorem Evaluator.tryEvaluate_outcome (v : Evaluator) (text : String) :
    (v.tryEvaluate E text).outcome = match (v.evaluate E text).outcome with
      | .ok x => .ok { expression := text, value := some x }
      | .error e => if e.kind.isCaptured then .ok (Outcome.ofFailure text e) else .error e := by
  simp only [tryEvaluate, Act.attempt, bind, pure]
  cases (v.evaluate E text).outcome with
  | ok x => rfl
  | error e =>
    dsimp only
    split <;> rfl

/-- Over the functions of the library an evaluation gives a double or fails in a documented way, and
the outcome is never a failure: it has the value, or it has the message, the type and the details of
the failure. -/
theorem Evaluator.tryEvaluate_total (hE : E.Documented) (v : Evaluator)
    (hc : v.context.IsLibrary) (text : String) :
    (∃ x, (v.evaluate E text).outcome = .ok x ∧ (v.tryEvaluate E text).outcome =
      .ok { expression := text, value := some x,
            error := none, errorType := none, details := [] }) ∨
    ∃ e, (v.evaluate E text).outcome = .error e ∧ e.kind ∈ Kind.documented ∧
      (v.tryEvaluate E text).outcome =
        .ok { expression := text, value := none, error := some e.report.text,
              errorType := some e.kind.label,
              details := e.report.details.map fun d => (.text d.1, d.2) } := by
  rw [v.tryEvaluate_outcome]
  cases h : (v.evaluate E text).outcome with
  | ok x => exact .inl ⟨x, rfl, rfl⟩
  | error e =>
    have hkind : e.kind ∈ Kind.documented := Reading.evaluate_documented hE hc h
    exact .inr ⟨e, rfl, hkind, if_pos (Kind.isCaptured_of_mem_documented hkind)⟩

/-- The logarithm of zero is refused before the machine is asked for it. -/
theorem Evaluator.tryEvaluate_total_log :
    ((⟨.standard, ⟨⟨100, none⟩, true⟩⟩ : Evaluator).tryEvaluate .checked "log(0)").outcome =
      .ok { expression := "log(0)", value := none,
            error := some "Logarithm of non-positive number",
            errorType := some "MathDomainError",
            details := [(.text "function", .text "log10")] } := by
  have h : (⟨⟨100, none⟩, true⟩ : Reading).evaluate .checked .standard "log(0)" =
      .error (.domain .log10) := by
    refine Reading.run_eq_error_iff.2 (.inl (.within .first (.within .first ?_)))
    have hzero : Parses ((Context.productions .checked .standard).reporting 100) ⟨100, none⟩
        (.expression ⟨4, ['0', ')']⟩ ⟨1, 1⟩) 0.0 ⟨5, [')']⟩ :=
      .chain (.chain (.base rfl rfl rfl (.number rfl rfl) rfl) (.last rfl)) (.last rfl)
    exact .within (.base rfl rfl rfl) (.here (.call (g := ⟨6, []⟩) rfl rfl hzero rfl rfl))
  obtain ⟨x, hx, -⟩ | ⟨e, he, -, houtcome⟩ :=
    Evaluator.tryEvaluate_total .checked Elementary.checked_documented
      ⟨.standard, ⟨⟨100, none⟩, true⟩⟩ Context.isLibrary_standard "log(0)"
  · exact absurd (h.symm.trans hx) (by simp)
  · cases h.symm.trans he
    exact houtcome

end Calculator
end Reckoner
