import Reckoner.Proofs.Exhaustion
import Reckoner.Proofs.Value

/-!
# Evaluation in one pass

The value of a text in one pass is the value of its tree. The two descents run side by side as long
as the values before them exist; the first value that fails ends the descent that computes values,
even if the text goes wrong later on.
-/
namespace Reckoner

/-- The same failure, where an unknown name may have got a position. -/
inductive Failure.Locates : Failure → Failure → Prop
  | same (e : Failure) : Locates e e
  | function (name : String) (p : Nat) :
    Locates (.unknownFunction name (some p)) (.unknownFunction name none)
  | identifier (name : String) (p : Nat) :
    Locates (.unknownIdentifier name (some p)) (.unknownIdentifier name none)

/-- A report without its position. -/
def Report.unlocated (r : Report) : Report :=
  { r with position := none, details := r.details.filter (·.1 != "position") }

theorem Failure.Locates.report_eq {e' e : Failure} (h : e'.Locates e) :
    e'.report.unlocated = e.report.unlocated := by
  cases h with
  | same => rfl
  | function name p => simp [report, Report.parse, Report.unlocated]
  | identifier name p => simp [report, Report.parse, Report.unlocated]

theorem Failure.Locates.exhausts_eq {e' e : Failure} (h : e'.Locates e) :
    e'.exhausts = e.exhausts := by cases h <;> rfl

/-- The failures of values: a name that the context lacks, operands that an operator refuses, and
whatever a called function raises. -/
inductive Context.Raises (E : Elementary) (c : Context) : Failure → Prop
  | function {name : String} {p : Nat} : c.function? name = none →
    Raises E c (.unknownFunction name (some p))
  | identifier {name : String} {p : Nat} : c.constant? name = none →
    Raises E c (.unknownIdentifier name (some p))
  | operator {op : BinaryOperator} {x y : Float} {fault : DomainFault} :
    op.apply E x y = .error (.domain fault) → Raises E c (.domain fault)
  | call {name : String} {f : Callable} {x : Float} {e : Failure} : c.function? name = some f →
    f.apply E x = .error e → Raises E c e

namespace Grammar

variable (E : Elementary) (c : Context) (n : Nesting)

/-- A call that computes values and fails as the value of a tree does, by `e`. -/
def FailsAs (q : Call Float) (e : Failure) : Prop :=
  ∃ e', Fails (c.productions E) n q e' ∧ e'.Locates e ∧ c.Raises E e'

/-- What a call that computes values does where the tree builder returns `a`: it returns the value
of `a`, or it fails as that value does. -/
def Follows (q : Call Float) (a : Expr) (d : Cursor) : Prop :=
  match a.value E c [] with
  | .ok v => Parses (c.productions E) n q v d
  | .error e => FailsAs E c n q e

/-- That values are computed as trees are built. In a chain this is so from any value of what is
before; if that has none, nothing behind it makes up for it. -/
def Simulates : Call Expr → Expr → Cursor → Prop
  | .chain l s k, a, d => Follows E c n (.chain l s k) a d
  | .factor s k, a, d => Follows E c n (.factor s k) a d
  | .primary s k, a, d => Follows E c n (.primary s k) a d
  | .tail l left s k, a, d =>
    (∀ x, left.value E c [] = .ok x → Follows E c n (.tail l x s k) a d) ∧
      ∀ e, left.value E c [] = .error e → a.value E c [] = .error e

variable {E c n}

theorem FailsAs.within {q q' : Call Float} {e : Failure} (h : FailsAs E c n q' e)
    (hq : Calls (c.productions E) n q q') : FailsAs E c n q e := by
  obtain ⟨e', hf, hl, hr⟩ := h
  exact ⟨e', .within hq hf, hl, hr⟩

/-- An operator that refuses its operands. -/
theorem Refuses.failsAs {q : Call Float} {e : Failure} {op : BinaryOperator} {x y : Float}
    (h : Refuses (c.productions E) n q e) (hop : op.apply E x y = .error e) :
    FailsAs E c n q e := by
  obtain ⟨fault, rfl⟩ := BinaryOperator.exists_fault hop
  exact ⟨_, .here h, .same _, .operator hop⟩

theorem Follows.cases {q : Call Float} {a : Expr} {d : Cursor} (h : Follows E c n q a d) :
    (∃ v, a.value E c [] = .ok v ∧ Parses (c.productions E) n q v d) ∨
      ∃ e, a.value E c [] = .error e ∧ FailsAs E c n q e := by
  unfold Follows at h
  split at h
  · exact .inl ⟨_, by assumption, h⟩
  · exact .inr ⟨_, by assumption, h⟩

theorem Follows.ok {q : Call Float} {a : Expr} {d : Cursor} {v : Float}
    (ha : a.value E c [] = .ok v) (h : Parses (c.productions E) n q v d) :
    Follows E c n q a d := by
  unfold Follows
  rw [ha]
  exact h

theorem Follows.error {q : Call Float} {a : Expr} {d : Cursor} {e : Failure}
    (ha : a.value E c [] = .error e) (h : FailsAs E c n q e) : Follows E c n q a d := by
  unfold Follows
  rw [ha]
  exact h

theorem simulates_operand {l : Chain} {s d : Cursor} {k : Depth} {a : Expr} :
    Simulates E c n (l.operand s k) a d ↔ Follows E c n (l.operand s k) a d := by cases l <;> rfl

theorem simulates_chain {l : Chain} {s d e : Cursor} {k : Depth} {left a : Expr}
    (hl : Follows E c n (l.operand s k) left d) (ha : Simulates E c n (.tail l left d k) a e) :
    Follows E c n (.chain l s k) a e := by
  obtain ⟨x, hx, hp⟩ | ⟨err, hx, hf⟩ := hl.cases
  · obtain ⟨v, hv, hq⟩ | ⟨err, hv, hf⟩ := (ha.1 x hx).cases
    · exact .ok hv (.chain hp hq)
    · exact .error hv (hf.within (.tail hp))
  · exact .error (ha.2 err hx) (hf.within .first)

theorem simulates_more {l : Chain} {s d e : Cursor} {k : Depth} {left right a : Expr}
    {op : BinaryOperator} (h : next? l.read s = some op)
    (hr : Follows E c n (l.operand (s.skipBlanks.drop 1) k) right d)
    (ha : Simulates E c n (.tail l (.binary left op.symbol right) d k) a e) :
    Simulates E c n (.tail l left s k) a e := by
  have hvalue := Expr.value_binary E c [] op left right
  constructor
  · intro x hx
    obtain ⟨y, hy, hp⟩ | ⟨err, hy, hf⟩ := hr.cases
    · simp only [hx, hy, Except.bind] at hvalue
      cases hop : op.apply E x y with
      | error err =>
        exact .error (ha.2 err (hvalue.trans hop)) (Refuses.failsAs (.binary h hp hop) hop)
      | ok z =>
        obtain ⟨v, hv, hq⟩ | ⟨err, hv, hf⟩ := (ha.1 z (hvalue.trans hop)).cases
        · exact .ok hv (.more h hp hop hq)
        · exact .error hv (hf.within (.more h hp hop))
    · simp only [hx, hy, Except.bind] at hvalue
      exact .error (ha.2 err hvalue) (hf.within (.operand h))
  · intro err hx
    simp only [hx, Except.bind] at hvalue
    exact ha.2 err hvalue

theorem simulates_sign {s d : Cursor} {k : Depth} {o : Sign} {operand : Expr}
    (h : next? Sign.ofChar? s = some o) (hn : n.refuses k.inFactor = false)
    (ho : Follows E c n (.factor (s.skipBlanks.drop 1) k.inFactor) operand d) :
    Follows E c n (.factor s k) (.unary o.symbol operand) d := by
  have hvalue := Expr.value_unary E c [] o operand
  obtain ⟨x, hx, hp⟩ | ⟨err, hx, hf⟩ := ho.cases
  · rw [hx] at hvalue
    exact .ok hvalue (.sign h hn hp rfl)
  · rw [hx] at hvalue
    exact .error hvalue (hf.within (.sign h hn))

theorem simulates_base {s d e : Cursor} {k : Depth} {ch : Char} {a : Expr}
    (hp : s.skipBlanks.peek? = some ch) (hs : Sign.ofChar? ch = none)
    (hn : n.refuses k.inFactor = false) (hb : Follows E c n (.primary s.skipBlanks k.inFactor) a d)
    (ha : d.accept (some '^') = (false, e)) : Follows E c n (.factor s k) a e := by
  obtain ⟨x, hx, hq⟩ | ⟨err, hx, hf⟩ := hb.cases
  · exact .ok hx (.base hp hs hn hq ha)
  · exact .error hx (hf.within (.base hp hs hn))

theorem simulates_power {s d e f : Cursor} {k : Depth} {ch : Char} {base exponent : Expr}
    (hp : s.skipBlanks.peek? = some ch) (hs : Sign.ofChar? ch = none)
    (hn : n.refuses k.inFactor = false)
    (hb : Follows E c n (.primary s.skipBlanks k.inFactor) base d)
    (ha : d.accept (some '^') = (true, e))
    (he : Follows E c n (.factor e k.inFactor) exponent f) :
    Follows E c n (.factor s k) (.binary base BinaryOperator.power.symbol exponent) f := by
  have hvalue := Expr.value_binary E c [] .power base exponent
  obtain ⟨x, hx, hq⟩ | ⟨err, hx, hf⟩ := hb.cases
  · obtain ⟨y, hy, hq'⟩ | ⟨err, hy, hf⟩ := he.cases
    · simp only [hx, hy, Except.bind] at hvalue
      cases hop : BinaryOperator.power.apply E x y with
      | error err =>
        exact .error (hvalue.trans hop) (Refuses.failsAs (.power hp hs hn hq ha hq' hop) hop)
      | ok z => exact .ok (hvalue.trans hop) (.power hp hs hn hq ha hq' hop)
    · simp only [hx, hy, Except.bind] at hvalue
      exact .error hvalue (hf.within (.exponent hp hs hn hq ha))
  · simp only [hx, Except.bind] at hvalue
    exact .error hvalue (hf.within (.base hp hs hn))

theorem simulates_group {s d e : Cursor} {k : Depth} {a : Expr} (hp : s.peek? = some '(')
    (h : Follows E c n (.expression (s.drop 1) k.inGroup) a d)
    (ha : d.accept (some ')') = (true, e)) : Follows E c n (.primary s k) a e := by
  obtain ⟨x, hx, hq⟩ | ⟨err, hx, hf⟩ := h.cases
  · exact .ok hx (.group hp hq ha)
  · exact .error hx (hf.within (.group hp))

theorem simulates_constant {s d e : Cursor} {k : Depth} {name : String}
    (hi : s.scanIdentifier = some (name, d)) (ha : d.accept (some '(') = (false, e)) :
    Follows E c n (.primary s k) (.constant name) e := by
  cases hc : c.constant? name with
  | some x =>
    have hx : (Expr.constant name).value E c [] = .ok x := by
      simp [Expr.value, Expr.constantValue, Table.get?, hc]
    exact .ok hx (.constant hi ha (by simp [Context.productions, hc]))
  | none =>
    have hx : (Expr.constant name).value E c [] = .error (.unknownIdentifier name none) := by
      simp [Expr.value, Expr.constantValue, Table.get?, hc]
    exact .error hx ⟨_, .here (.constant hi ha (by simp [Context.productions, hc])),
      .identifier name s.position, .identifier hc⟩

theorem simulates_call {s d e f g : Cursor} {k : Depth} {name : String} {argument : Expr}
    (hi : s.scanIdentifier = some (name, d)) (ha : d.accept (some '(') = (true, e))
    (h : Follows E c n (.expression e k.inGroup) argument f)
    (hb : f.accept (some ')') = (true, g)) :
    Follows E c n (.primary s k) (.call name argument) g := by
  have hvalue := Expr.value_call E c [] name argument
  obtain ⟨x, hx, hp⟩ | ⟨err, hx, hf⟩ := h.cases
  · simp only [hx, Except.bind] at hvalue
    cases hc : c.function? name with
    | none =>
      rw [hc] at hvalue
      exact .error hvalue ⟨_, .here (.call hi ha hp hb (by simp [Context.productions, hc])),
        .function name s.position, .function hc⟩
    | some fn =>
      rw [hc] at hvalue
      cases hfn : fn.apply E x with
      | ok y =>
        exact .ok (hvalue.trans hfn) (.call hi ha hp hb (by simp [Context.productions, hc, hfn]))
      | error err =>
        exact .error (hvalue.trans hfn)
          ⟨_, .here (.call hi ha hp hb (by simp [Context.productions, hc, hfn])), .same _,
            .call hc hfn⟩
  · simp only [hx, Except.bind] at hvalue
    exact .error hvalue (hf.within (.argument hi ha))

theorem simulates_number {s d : Cursor} {k : Depth} {x : Float} (hi : s.scanIdentifier = none)
    (hs : s.scanNumber = (.ok x, d)) : Follows E c n (.primary s k) (.number x) d :=
  .ok rfl (.number hi hs)

/-- Where the tree builder returns a tree, the values are those of the tree. -/
theorem Parses.simulates {q : Call Expr} {a : Expr} {d : Cursor}
    (h : Parses Expr.productions n q a d) : Simulates E c n q a d := by
  induction h with
  | chain _ _ ih₁ ih₂ => exact simulates_chain (simulates_operand.1 ih₁) ih₂
  | last h => exact ⟨fun x hx => .ok hx (.last h), fun e he => he⟩
  | more h _ hb _ ih₁ ih₂ =>
    cases hb
    exact simulates_more h (simulates_operand.1 ih₁) ih₂
  | sign h hn _ hu ih =>
    cases hu
    exact simulates_sign h hn ih
  | base hp hs hn _ ha ih => exact simulates_base hp hs hn ih ha
  | power hp hs hn _ ha _ hb ih₁ ih₂ =>
    cases hb
    exact simulates_power hp hs hn ih₁ ha ih₂
  | group hp _ ha ih => exact simulates_group hp ih ha
  | constant hi ha hc =>
    cases hc
    exact simulates_constant hi ha
  | call hi ha _ hb hc ih =>
    cases hc
    exact simulates_call hi ha ih hb
  | number hi hs => exact simulates_number hi hs

variable (E c n)

/-- That computing values goes wrong where the tree builder fails with `e`: in the same way, unless
a value has failed before. In a chain this is so from any value of what is before. -/
def FailsBefore (q : Call Float) (e : Failure) : Prop :=
  ∃ e', Fails (c.productions E) n q e' ∧ (e' = e ∨ c.Raises E e')

/-- `FailsBefore` for the calls of the tree builder. -/
def FailsToo : Call Expr → Failure → Prop
  | .chain l s k, e => FailsBefore E c n (.chain l s k) e
  | .factor s k, e => FailsBefore E c n (.factor s k) e
  | .primary s k, e => FailsBefore E c n (.primary s k) e
  | .tail l left s k, e => ∀ x, left.value E c [] = .ok x → FailsBefore E c n (.tail l x s k) e

variable {E c n}

theorem FailsBefore.within {q q' : Call Float} {e : Failure} (h : FailsBefore E c n q' e)
    (hq : Calls (c.productions E) n q q') : FailsBefore E c n q e := by
  obtain ⟨e', hf, he⟩ := h
  exact ⟨e', .within hq hf, he⟩

theorem FailsAs.before {q : Call Float} {e e' : Failure} (h : FailsAs E c n q e') :
    FailsBefore E c n q e := by
  obtain ⟨e', hf, -, hr⟩ := h
  exact ⟨e', hf, .inr hr⟩

theorem Refuses.before {q : Call Float} {e : Failure} (h : Refuses (c.productions E) n q e) :
    FailsBefore E c n q e := ⟨e, .here h, .inl rfl⟩

theorem failsToo_operand {l : Chain} {s : Cursor} {k : Depth} {e : Failure} :
    FailsToo E c n (l.operand s k) e ↔ FailsBefore E c n (l.operand s k) e := by cases l <;> rfl

theorem Parses.follows_operand {l : Chain} {s d : Cursor} {k : Depth} {a : Expr}
    (h : Parses Expr.productions n (l.operand s k) a d) : Follows E c n (l.operand s k) a d :=
  simulates_operand.1 h.simulates

/-- Building a tree only fails in the text: no production does. -/
theorem Refuses.failsToo {q : Call Expr} {e : Failure} (h : Refuses Expr.productions n q e) :
    FailsToo E c n q e := by
  cases h with
  | binary _ _ hb => cases hb
  | atEnd hp => exact Refuses.before (.atEnd hp)
  | tooDeep hp hn => exact Refuses.before (.tooDeep hp hn)
  | unary _ _ _ hu => cases hu
  | power _ _ _ _ _ _ hb => cases hb
  | group hp h ha =>
    obtain ⟨x, -, hq⟩ | ⟨err, -, hf⟩ := Follows.cases (E := E) (c := c) h.simulates
    · exact Refuses.before (.group hp hq ha)
    · exact (hf.within (.group hp)).before
  | constant _ _ hc => cases hc
  | argument hi ha h hb =>
    obtain ⟨x, -, hq⟩ | ⟨err, -, hf⟩ := Follows.cases (E := E) (c := c) h.simulates
    · exact Refuses.before (.argument hi ha hq hb)
    · exact (hf.within (.argument hi ha)).before
  | call _ _ _ _ hc => cases hc
  | number hp hi hs => exact Refuses.before (.number hp hi hs)

theorem Calls.failsToo {q q' : Call Expr} {e : Failure} (h : Calls Expr.productions n q q')
    (ih : FailsToo E c n q' e) : FailsToo E c n q e := by
  cases h with
  | first => exact (failsToo_operand.1 ih).within .first
  | tail hl =>
    obtain ⟨x, hx, hp⟩ | ⟨err, -, hf⟩ := hl.follows_operand (E := E) (c := c) |>.cases
    · exact (ih x hx).within (.tail hp)
    · exact (hf.within .first).before
  | operand h => exact fun x _ => (failsToo_operand.1 ih).within (.operand h)
  | @more l left s k op right d _ h hr hb =>
    cases hb
    intro x hx
    have hvalue := Expr.value_binary E c [] op left right
    obtain ⟨y, hy, hp⟩ | ⟨err, -, hf⟩ := hr.follows_operand (E := E) (c := c) |>.cases
    · simp only [hx, hy, Except.bind] at hvalue
      cases hop : op.apply E x y with
      | error err => exact (Refuses.failsAs (.binary h hp hop) hop).before
      | ok z => exact (ih z (hvalue.trans hop)).within (.more h hp hop)
    · exact (hf.within (.operand h)).before
  | sign h hn => exact ih.within (.sign h hn)
  | base hp hs hn => exact ih.within (.base hp hs hn)
  | exponent hp hs hn hb ha =>
    obtain ⟨x, -, hq⟩ | ⟨err, -, hf⟩ := Follows.cases (E := E) (c := c) hb.simulates
    · exact ih.within (.exponent hp hs hn hq ha)
    · exact (hf.within (.base hp hs hn)).before
  | group hp => exact ih.within (.group hp)
  | argument hi ha => exact ih.within (.argument hi ha)

/-- Where the tree builder fails, so does computing values. -/
theorem Fails.failsToo {q : Call Expr} {e : Failure} (h : Fails Expr.productions n q e) :
    FailsToo E c n q e := by
  induction h with
  | here h => exact h.failsToo
  | within h _ ih => exact h.failsToo ih

end Grammar

namespace Reading

open Grammar

variable {E : Elementary} {c : Context} {r : Reading} {text : String}

/-- A text has the value of its tree, or reports the failure of that value. -/
theorem evaluate_of_parse {t : Expr} (h : r.parse text = .ok t) :
    (∃ v, t.value E c [] = .ok v ∧ r.evaluate E c text = .ok v) ∨
      ∃ e e₀ e', t.value E c [] = .error e ∧ e₀.Locates e ∧ r.Reports c text e₀ e' ∧
        r.evaluate E c text = .error e' := by
  obtain ⟨d, hp, hd⟩ := run_eq_ok_iff.1 h
  have hf : Follows E c r.nesting (call text) t d := hp.simulates
  obtain ⟨v, hv, hq⟩ | ⟨e, he, e₀, hf, hl, -⟩ := hf.cases
  · exact .inl ⟨v, hv, run_eq_ok_iff.2 ⟨d, hq, hd⟩⟩
  · obtain ⟨e', hreports, hrun⟩ := exists_reports hf
    exact .inr ⟨e, e₀, e', he, hl, hreports, hrun⟩

/-- A text without a tree does not use up the stack. -/
theorem not_exhausts_of_parse {e : Failure} (h : r.parse text = .error e) :
    e.exhausts = false := by
  obtain hf | ⟨t, d, -, hd⟩ := parse_eq_error_iff.1 h
  · by_contra he
    rw [Bool.not_eq_false] at he
    obtain ⟨p, hp, -⟩ := hf.exhausted Expr.exhaustsInCalls he (ahead_call text)
    exact Expr.not_exhaustedAt hp
  · obtain ⟨-, rfl⟩ | ⟨ch, -, -, rfl⟩ := finish_error_cases hd <;> rfl

/-- A text without a tree has no value. -/
theorem evaluate_of_parse_error {e : Failure} (h : r.parse text = .error e) :
    ∃ e', r.evaluate E c text = .error e' ∧
      (e' = e ∨ ∃ e₀, c.Raises E e₀ ∧ r.Reports c text e₀ e') := by
  obtain hf | ⟨t, d, hp, hd⟩ := parse_eq_error_iff.1 h
  · obtain ⟨e₀, hf₀, he⟩ : FailsBefore E c r.nesting (call text) e := hf.failsToo
    obtain ⟨e', hreports, hrun⟩ := exists_reports hf₀
    obtain rfl | hraises := he
    · exact ⟨e', hrun, .inl (hreports.eq_of_not_exhausts (not_exhausts_of_parse h))⟩
    · exact ⟨e', hrun, .inr ⟨e₀, hraises, hreports⟩⟩
  · have hf : Follows E c r.nesting (call text) t d := hp.simulates
    obtain ⟨v, -, hq⟩ | ⟨_, -, e₀, hf, -, hraises⟩ := hf.cases
    · exact ⟨e, run_eq_error_iff.2 (.inr ⟨v, d, hq, finish_eq_error_iff.1 hd⟩), .inl rfl⟩
    · obtain ⟨e', hreports, hrun⟩ := exists_reports hf
      exact ⟨e', hrun, .inr ⟨e₀, hraises, hreports⟩⟩

/-- A value is that of a tree. -/
theorem exists_parse_of_evaluate {x : Float} (h : r.evaluate E c text = .ok x) :
    ∃ t, r.parse text = .ok t ∧ t.value E c [] = .ok x := by
  cases ht : r.parse text with
  | error e =>
    obtain ⟨e', he, -⟩ := evaluate_of_parse_error (E := E) (c := c) ht
    rw [h] at he
    cases he
  | ok t =>
    obtain ⟨v, hv, he⟩ | ⟨_, _, e', -, -, -, he⟩ := evaluate_of_parse (E := E) (c := c) ht
    · rw [h] at he
      exact ⟨t, rfl, hv.trans he.symm⟩
    · rw [h] at he
      cases he

variable (E c r text)

/-- A text has the value of its tree, or reports the failure of that value; the positions of unknown
names come on top. A text without a tree has no value: the failure is that of the text, unless a
value in front of it has failed before. Only where a function of the host uses up the stack does the
report differ from the failure. -/
theorem evaluate_agrees_parse :
    (∀ t, r.parse text = .ok t →
      (∀ v, r.evaluate E c text = .ok v ↔ t.value E c [] = .ok v) ∧
      ∀ e, t.value E c [] = .error e → ∃ e₀ e', r.evaluate E c text = .error e' ∧
        r.Reports c text e₀ e' ∧ e₀.Locates e ∧ e₀.report.unlocated = e.report.unlocated) ∧
    (∀ e, r.parse text = .error e → ∃ e', r.evaluate E c text = .error e' ∧
      (e' = e ∨ ∃ e₀, c.Raises E e₀ ∧ r.Reports c text e₀ e')) ∧
    (c.KeepsStack →
      (∀ t, r.parse text = .ok t → ∀ e, t.value E c [] = .error e →
        ∃ e', r.evaluate E c text = .error e' ∧
          e'.Locates e ∧ e'.report.unlocated = e.report.unlocated) ∧
      ∀ e, r.parse text = .error e →
        ∃ e', r.evaluate E c text = .error e' ∧ (e' = e ∨ c.Raises E e')) := by
  have hfails : ∀ t, r.parse text = .ok t → ∀ e, t.value E c [] = .error e →
      ∃ e₀ e', r.evaluate E c text = .error e' ∧ r.Reports c text e₀ e' ∧ e₀.Locates e ∧
        e₀.report.unlocated = e.report.unlocated := by
    intro t ht e he
    obtain ⟨v, hv, -⟩ | ⟨err, e₀, e', herr, hl, hreports, hrun⟩ :=
      evaluate_of_parse (E := E) (c := c) ht
    · simp [he] at hv
    · obtain rfl : err = e := by simpa [he] using herr.symm
      exact ⟨e₀, e', hrun, hreports, hl, hl.report_eq⟩
  refine ⟨fun t ht => ⟨fun v => ?_, hfails t ht⟩, fun e => evaluate_of_parse_error,
    fun hc => ⟨fun t ht e he => ?_, fun e h => ?_⟩⟩
  · obtain ⟨w, hw, hrun⟩ | ⟨e, _, e', he, -, -, hrun⟩ := evaluate_of_parse (E := E) (c := c) ht
    · simp [hrun, hw]
    · simp [hrun, he]
  · obtain ⟨e₀, e', hrun, hreports, hl⟩ := hfails t ht e he
    obtain rfl := hreports.eq_of_keepsStack hc
    exact ⟨e', hrun, hl⟩
  · obtain ⟨e', hrun, rfl | ⟨e₀, hraises, hreports⟩⟩ := evaluate_of_parse_error (E := E) (c := c) h
    · exact ⟨e', hrun, .inl rfl⟩
    · obtain rfl := hreports.eq_of_keepsStack hc
      exact ⟨e', hrun, .inr hraises⟩

end Reading

/-- A context whose only function uses up the stack. -/
def Context.exhausting : Context where
  name := "Exhausting"
  functions :=
    [("f", .host fun _ => .error (.host .recursion "maximum recursion depth exceeded"))]

/-- The argument of the call that fails. -/
theorem Grammar.parses_zero {α : Type} (P : Productions α) {n : Nesting}
    (h : n.refuses { factors := 2, groups := 1 } = false) :
    Parses P n (.expression ⟨2, ['0', ')']⟩ ⟨1, 1⟩) (P.number 0.0) ⟨3, [')']⟩ :=
  .chain (.chain (.base rfl rfl h (.number rfl rfl) rfl) (.last rfl)) (.last rfl)

theorem Reading.evaluate_exhausting {n : Nesting} {full : Bool}
    (h : n.refuses { factors := 1 } = false)
    (h' : n.refuses { factors := 2, groups := 1 } = false) :
    (⟨n, full⟩ : Reading).evaluate .native .exhausting "f(0)" =
      .error (.nestingTooDeep 4 n.guard) := by
  have hzero :=
    Grammar.parses_zero ((Context.exhausting.productions .native).reporting n.guard) h'
  refine run_eq_error_iff.2 (.inl (.within .first (.within .first ?_)))
  exact .within (.base rfl rfl h) (.here (.call (g := ⟨4, []⟩) rfl rfl hzero rfl rfl))

/-- The tree of a call fails as its function does. Read in one pass, the call is reported as a text
that is too deep, far below the limit. -/
theorem Reading.evaluate_exhausted :
    (⟨⟨100, none⟩, true⟩ : Reading).parse "f(0)" = .ok (.call "f" (.number 0.0)) ∧
      (Expr.call "f" (.number 0.0)).value .native .exhausting [] =
        .error (.host .recursion "maximum recursion depth exceeded") ∧
      (⟨⟨100, none⟩, true⟩ : Reading).evaluate .native .exhausting "f(0)" =
        .error (.nestingTooDeep 4 100) ∧
      (Failure.nestingTooDeep 4 100).kind ≠
        (Failure.host .recursion "maximum recursion depth exceeded").kind := by
  have hzero : Grammar.Parses Expr.productions ⟨100, none⟩ _ (.number 0.0) _ :=
    Grammar.parses_zero Expr.productions rfl
  have htree : Grammar.Parses Expr.productions ⟨100, none⟩ (call "f(0)")
      (.call "f" (.number 0.0)) ⟨4, []⟩ :=
    .chain (.chain (.base rfl rfl rfl (.call rfl rfl hzero rfl rfl) rfl) (.last rfl)) (.last rfl)
  exact ⟨run_eq_ok_iff.2 ⟨_, htree, fun _ => rfl⟩, rfl, evaluate_exhausting rfl rfl, by decide⟩

end Reckoner
