import Reckoner.Proofs.Grammar.Call

/-!
# The descent as rules

What the productions do, as relations on their calls: a call that returns a result (`Parses`), a
call inside another one (`Calls`), and a call that fails on its own (`Refuses`) or in a call that it
makes (`Fails`). Each rule is borne out by the functions.
-/
namespace Reckoner.Grammar

variable {α : Type} (P : Productions α) (n : Nesting)

/-- A call that returns `a` with a cursor behind it. -/
inductive Parses : Call α → α → Cursor → Prop
  | chain {l c k left d a e} : Parses (l.operand c k) left d → Parses (.tail l left d k) a e →
      Parses (.chain l c k) a e
  | last {l left c k} : next? l.read c = none → Parses (.tail l left c k) left c.skipBlanks
  | more {l left c k op right d result a e} : next? l.read c = some op →
      Parses (l.operand (c.skipBlanks.drop 1) k) right d → P.binary op left right = .ok result →
      Parses (.tail l result d k) a e → Parses (.tail l left c k) a e
  | sign {c k s operand d a} : next? Sign.ofChar? c = some s → n.refuses k.inFactor = false →
      Parses (.factor (c.skipBlanks.drop 1) k.inFactor) operand d → P.unary s operand = .ok a →
      Parses (.factor c k) a d
  | base {c k ch a d e} : c.skipBlanks.peek? = some ch → Sign.ofChar? ch = none →
      n.refuses k.inFactor = false → Parses (.primary c.skipBlanks k.inFactor) a d →
      d.accept (some '^') = (false, e) → Parses (.factor c k) a e
  | power {c k ch base d e exponent f a} : c.skipBlanks.peek? = some ch → Sign.ofChar? ch = none →
      n.refuses k.inFactor = false → Parses (.primary c.skipBlanks k.inFactor) base d →
      d.accept (some '^') = (true, e) → Parses (.factor e k.inFactor) exponent f →
      P.binary .power base exponent = .ok a → Parses (.factor c k) a f
  | group {c k a d e} : c.peek? = some '(' → Parses (.expression (c.drop 1) k.inGroup) a d →
      d.accept (some ')') = (true, e) → Parses (.primary c k) a e
  | constant {c k name d e a} : c.scanIdentifier = some (name, d) →
      d.accept (some '(') = (false, e) → P.constant name c.position = .ok a →
      Parses (.primary c k) a e
  | call {c k name d e argument f g a} : c.scanIdentifier = some (name, d) →
      d.accept (some '(') = (true, e) → Parses (.expression e k.inGroup) argument f →
      f.accept (some ')') = (true, g) → P.call name argument c.position g.position = .ok a →
      Parses (.primary c k) a g
  | number {c k x d} : c.scanIdentifier = none → c.scanNumber = (.ok x, d) →
      Parses (.primary c k) (P.number x) d

/-- A call and one that it makes, after all that it does before has succeeded. -/
inductive Calls : Call α → Call α → Prop
  | first {l c k} : Calls (.chain l c k) (l.operand c k)
  | tail {l c k left d} : Parses P n (l.operand c k) left d →
      Calls (.chain l c k) (.tail l left d k)
  | operand {l left c k op} : next? l.read c = some op →
      Calls (.tail l left c k) (l.operand (c.skipBlanks.drop 1) k)
  | more {l left c k op right d result} : next? l.read c = some op →
      Parses P n (l.operand (c.skipBlanks.drop 1) k) right d →
      P.binary op left right = .ok result → Calls (.tail l left c k) (.tail l result d k)
  | sign {c k s} : next? Sign.ofChar? c = some s → n.refuses k.inFactor = false →
      Calls (.factor c k) (.factor (c.skipBlanks.drop 1) k.inFactor)
  | base {c k ch} : c.skipBlanks.peek? = some ch → Sign.ofChar? ch = none →
      n.refuses k.inFactor = false → Calls (.factor c k) (.primary c.skipBlanks k.inFactor)
  | exponent {c k ch base d e} : c.skipBlanks.peek? = some ch → Sign.ofChar? ch = none →
      n.refuses k.inFactor = false → Parses P n (.primary c.skipBlanks k.inFactor) base d →
      d.accept (some '^') = (true, e) → Calls (.factor c k) (.factor e k.inFactor)
  | group {c k} : c.peek? = some '(' → Calls (.primary c k) (.expression (c.drop 1) k.inGroup)
  | argument {c k name d e} : c.scanIdentifier = some (name, d) →
      d.accept (some '(') = (true, e) → Calls (.primary c k) (.expression e k.inGroup)

/-- A call that fails on its own, with all that it calls before in order. -/
inductive Refuses : Call α → Failure → Prop
  | binary {l left c k op right d e} : next? l.read c = some op →
      Parses P n (l.operand (c.skipBlanks.drop 1) k) right d → P.binary op left right = .error e →
      Refuses (.tail l left c k) e
  | atEnd {c k} : c.skipBlanks.peek? = none →
      Refuses (.factor c k) (.unexpectedEnd c.skipBlanks.position)
  | tooDeep {c k ch} : c.skipBlanks.peek? = some ch → n.refuses k.inFactor = true →
      Refuses (.factor c k) (.nestingTooDeep c.skipBlanks.position n.guard)
  | unary {c k s operand d e} : next? Sign.ofChar? c = some s → n.refuses k.inFactor = false →
      Parses P n (.factor (c.skipBlanks.drop 1) k.inFactor) operand d →
      P.unary s operand = .error e → Refuses (.factor c k) e
  | power {c k ch base d e exponent f err} : c.skipBlanks.peek? = some ch →
      Sign.ofChar? ch = none → n.refuses k.inFactor = false →
      Parses P n (.primary c.skipBlanks k.inFactor) base d → d.accept (some '^') = (true, e) →
      Parses P n (.factor e k.inFactor) exponent f → P.binary .power base exponent = .error err →
      Refuses (.factor c k) err
  | group {c k a d e} : c.peek? = some '(' → Parses P n (.expression (c.drop 1) k.inGroup) a d →
      d.accept (some ')') = (false, e) →
      Refuses (.primary c k) (.mismatchedParentheses e.position false)
  | constant {c k name d e err} : c.scanIdentifier = some (name, d) →
      d.accept (some '(') = (false, e) → P.constant name c.position = .error err →
      Refuses (.primary c k) err
  | argument {c k name d e a f g} : c.scanIdentifier = some (name, d) →
      d.accept (some '(') = (true, e) → Parses P n (.expression e k.inGroup) a f →
      f.accept (some ')') = (false, g) →
      Refuses (.primary c k) (.mismatchedParentheses g.position true)
  | call {c k name d e a f g err} : c.scanIdentifier = some (name, d) →
      d.accept (some '(') = (true, e) → Parses P n (.expression e k.inGroup) a f →
      f.accept (some ')') = (true, g) → P.call name a c.position g.position = .error err →
      Refuses (.primary c k) err
  | number {c k d err} : c.peek? ≠ some '(' → c.scanIdentifier = none →
      c.scanNumber = (.error err, d) → Refuses (.primary c k) err

/-- A call that fails, on its own or in a call that it makes. -/
inductive Fails : Call α → Failure → Prop
  | here {q e} : Refuses P n q e → Fails q e
  | within {q q' e} : Calls P n q q' → Fails q' e → Fails q e

variable {P n}

theorem scanIdentifier_group {c : Cursor} (h : c.peek? = some '(') : c.scanIdentifier = none := by
  rcases c with ⟨p, _ | ⟨ch, cs⟩⟩
  · rfl
  · obtain rfl : ch = '(' := by simpa [Cursor.peek?] using h
    rfl

theorem scanNumber_group {c : Cursor} (h : c.peek? = some '(') :
    c.scanNumber = (.error (.expectedNumber c.position), c) := by
  rcases c with ⟨p, _ | ⟨ch, cs⟩⟩
  · simp [Cursor.peek?] at h
  · obtain rfl : ch = '(' := by simpa [Cursor.peek?] using h
    rfl

theorem peek?_ne_group_of_scanIdentifier {c d : Cursor} {name : String}
    (h : c.scanIdentifier = some (name, d)) : c.peek? ≠ some '(' := by
  intro hp
  rw [scanIdentifier_group hp] at h
  exact absurd h (by simp)

theorem peek?_ne_group_of_scanNumber {c d : Cursor} {x : Float}
    (h : c.scanNumber = (.ok x, d)) : c.peek? ≠ some '(' := by
  intro hp
  rw [scanNumber_group hp] at h
  exact absurd h (by simp)

theorem Parses.run {q : Call α} {a : α} {d : Cursor} (h : Parses P n q a d) :
    q.run P n = .ok (a, d) := by
  induction h with
  | chain _ _ ih₁ ih₂ => rw [Call.run_chain, ih₁]; exact ih₂
  | last h => rw [Call.run_tail, h]
  | more h _ hb _ ih₁ ih₂ =>
    rw [Call.run_tail, h]
    simp only [ih₁, Except.bind, hb, ih₂]
  | sign h hn _ hu ih =>
    obtain ⟨ch, hp, hs⟩ := Option.bind_eq_some_iff.1 h
    rw [Call.run_factor, hp]
    simp [hn, hs, ih, Except.bind, hu, Except.map]
  | base hp hs hn _ ha ih =>
    rw [Call.run_factor, hp]
    simp [hn, hs, ih, Except.bind, ha]
  | power hp hs hn _ ha _ hb ih₁ ih₂ =>
    rw [Call.run_factor, hp]
    simp [hn, hs, ih₁, Except.bind, ha, ih₂, hb, Except.map]
  | group hp _ ha ih =>
    rw [Call.run_primary, if_pos hp, ih]
    simp [Except.bind, ha]
  | constant hi ha hc =>
    rw [Call.run_primary, if_neg (peek?_ne_group_of_scanIdentifier hi)]
    simp [hi, ha, hc, Except.map]
  | call hi ha _ hb hc ih =>
    rw [Call.run_primary, if_neg (peek?_ne_group_of_scanIdentifier hi)]
    simp [hi, ha, ih, Except.bind, hb, hc, Except.map]
  | number hi hs =>
    rw [Call.run_primary, if_neg (peek?_ne_group_of_scanNumber hs)]
    simp [hi, hs]

theorem Refuses.run {q : Call α} {e : Failure} (h : Refuses P n q e) : q.run P n = .error e := by
  cases h with
  | binary h hr hb =>
    rw [Call.run_tail, h]
    simp [hr.run, Except.bind, hb]
  | atEnd hp => rw [Call.run_factor, hp]
  | tooDeep hp hn => rw [Call.run_factor, hp]; simp [hn]
  | unary h hn ho hu =>
    obtain ⟨ch, hp, hs⟩ := Option.bind_eq_some_iff.1 h
    rw [Call.run_factor, hp]
    simp [hn, hs, ho.run, Except.bind, hu, Except.map]
  | power hp hs hn hb ha he hf =>
    rw [Call.run_factor, hp]
    simp [hn, hs, hb.run, Except.bind, ha, he.run, hf, Except.map]
  | group hp hr ha =>
    rw [Call.run_primary, if_pos hp, hr.run]
    simp [Except.bind, ha]
  | constant hi ha hc =>
    rw [Call.run_primary, if_neg (peek?_ne_group_of_scanIdentifier hi)]
    simp [hi, ha, hc, Except.map]
  | argument hi ha hr hb =>
    rw [Call.run_primary, if_neg (peek?_ne_group_of_scanIdentifier hi)]
    simp [hi, ha, hr.run, Except.bind, hb]
  | call hi ha hr hb hc =>
    rw [Call.run_primary, if_neg (peek?_ne_group_of_scanIdentifier hi)]
    simp [hi, ha, hr.run, Except.bind, hb, hc, Except.map]
  | number hp hi hs =>
    rw [Call.run_primary, if_neg hp]
    simp [hi, hs]

/-- A call passes the failure of an inner call on. -/
theorem Calls.run {q q' : Call α} (h : Calls P n q q') {e : Failure}
    (he : q'.run P n = .error e) : q.run P n = .error e := by
  cases h with
  | first => rw [Call.run_chain, he]; rfl
  | tail hl => rw [Call.run_chain, hl.run]; exact he
  | operand h =>
    rw [Call.run_tail, h]
    simp [he, Except.bind]
  | more h hr hb =>
    rw [Call.run_tail, h]
    simp [hr.run, Except.bind, hb, he]
  | sign h hn =>
    obtain ⟨ch, hp, hs⟩ := Option.bind_eq_some_iff.1 h
    rw [Call.run_factor, hp]
    simp [hn, hs, he, Except.bind]
  | base hp hs hn =>
    rw [Call.run_factor, hp]
    simp [hn, hs, he, Except.bind]
  | exponent hp hs hn hb ha =>
    rw [Call.run_factor, hp]
    simp [hn, hs, hb.run, Except.bind, ha, he]
  | group hp => rw [Call.run_primary, if_pos hp, he]; rfl
  | argument hi ha =>
    rw [Call.run_primary, if_neg (peek?_ne_group_of_scanIdentifier hi)]
    simp [hi, ha, he, Except.bind]

theorem Fails.run {q : Call α} {e : Failure} (h : Fails P n q e) : q.run P n = .error e := by
  induction h with
  | here h => exact h.run
  | within h _ ih => exact h.run ih

end Reckoner.Grammar
