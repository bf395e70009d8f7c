import Reckoner.Expr
import Reckoner.Proofs.Grammar.Progress

/-!
# Calls that are reported

Where calls that have used up the stack are reported, nothing is returned that was not returned
before, and nothing else is called: only what a call fails by is another.
-/
namespace Reckoner

namespace Failure

variable {e : Failure} {p : Nat} {limit : Int}

theorem reported_of_exhausts (h : e.exhausts = true) :
    e.reported p limit = nestingTooDeep p limit := if_pos h

theorem reported_eq_self (h : e.exhausts = false) : e.reported p limit = e := by
  rw [reported, h]
  rfl

end Failure

namespace Productions

variable {α : Type} {P P' : Productions α}

/-- That everything which `P` returns is returned by `P'` too. -/
structure ReturnsAll (P P' : Productions α) : Prop where
  number : P.number = P'.number
  constant {name p a} : P.constant name p = .ok a → P'.constant name p = .ok a
  call {name argument start stop a} : P.call name argument start stop = .ok a →
    P'.call name argument start stop = .ok a
  unary {s x a} : P.unary s x = .ok a → P'.unary s x = .ok a
  binary {op x y a} : P.binary op x y = .ok a → P'.binary op x y = .ok a

theorem reporting_call_eq_ok_iff {limit : Int} {name : String} {argument a : α} {start stop : Nat} :
    (P.reporting limit).call name argument start stop = .ok a ↔
      P.call name argument start stop = .ok a := by
  simp only [reporting]
  cases P.call name argument start stop <;> simp [Except.mapError]

theorem reporting_call_of_error {limit : Int} {name : String} {argument : α} {start stop : Nat}
    {e : Failure} (h : P.call name argument start stop = .error e) :
    (P.reporting limit).call name argument start stop = .error (e.reported stop limit) := by
  simp only [reporting, h]
  rfl

variable (P) in
theorem returnsAll_reporting (limit : Int) : P.ReturnsAll (P.reporting limit) where
  number := rfl
  constant := id
  call := reporting_call_eq_ok_iff.2
  unary := id
  binary := id

variable (P) in
theorem reporting_returnsAll (limit : Int) : (P.reporting limit).ReturnsAll P where
  number := rfl
  constant := id
  call := reporting_call_eq_ok_iff.1
  unary := id
  binary := id

end Productions

/-- Trees are built without calling anything. -/
@[simp] theorem Expr.reporting_productions (limit : Int) :
    productions.reporting limit = productions := rfl

namespace Grammar

variable {α : Type} {P P' : Productions α} {n : Nesting}

theorem Parses.returnsAll {q : Call α} {a : α} {d : Cursor} (h : Parses P n q a d)
    (hP : P.ReturnsAll P') : Parses P' n q a d := by
  induction h with
  | chain _ _ ih₁ ih₂ => exact .chain ih₁ ih₂
  | last h => exact .last h
  | more h _ hb _ ih₁ ih₂ => exact .more h ih₁ (hP.binary hb) ih₂
  | sign h hn _ hu ih => exact .sign h hn ih (hP.unary hu)
  | base hp hs hn _ ha ih => exact .base hp hs hn ih ha
  | power hp hs hn _ ha _ hb ih₁ ih₂ => exact .power hp hs hn ih₁ ha ih₂ (hP.binary hb)
  | group hp _ ha ih => exact .group hp ih ha
  | constant hi ha hc => exact .constant hi ha (hP.constant hc)
  | call hi ha _ hb hc ih => exact .call hi ha ih hb (hP.call hc)
  | number hi hs =>
    rw [hP.number]
    exact .number hi hs

theorem parses_reporting_iff {limit : Int} {q : Call α} {a : α} {d : Cursor} :
    Parses (P.reporting limit) n q a d ↔ Parses P n q a d :=
  ⟨fun h => h.returnsAll (P.reporting_returnsAll limit),
    fun h => h.returnsAll (P.returnsAll_reporting limit)⟩

theorem Calls.returnsAll {q q' : Call α} (h : Calls P n q q') (hP : P.ReturnsAll P') :
    Calls P' n q q' := by
  cases h with
  | first => exact .first
  | tail hp => exact .tail (hp.returnsAll hP)
  | operand h => exact .operand h
  | more h hp hb => exact .more h (hp.returnsAll hP) (hP.binary hb)
  | sign h hn => exact .sign h hn
  | base hp hs hn => exact .base hp hs hn
  | exponent hp hs hn hb he => exact .exponent hp hs hn (hb.returnsAll hP) he
  | group hp => exact .group hp
  | argument hi he => exact .argument hi he

end Grammar
end Reckoner
