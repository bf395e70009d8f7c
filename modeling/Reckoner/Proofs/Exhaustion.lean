import Reckoner.Proofs.Library
import Reckoner.Proofs.Viable

/-!
# Functions that use up the stack

A function of the host may use up the stack. A reading reports that as it reports a text that is too
deep: with its limit, at the position behind the call, which is where the descent has got to. All
other failures are passed on as they are.
-/
namespace Reckoner

open Grammar

/-- A call by a name, with an expression in parentheses, ends right before the position. -/
def CallEndsAt (text name : String) (p : Nat) : Prop :=
  ∃ before bs inside after,
    text.toList = before ++ (name.toList ++ (bs ++ '(' :: (inside ++ ')' :: after))) ∧
    isIdentifier name = true ∧ Blanks bs ∧ Phrased .expression inside ∧
    p = (before ++ (name.toList ++ (bs ++ '(' :: (inside ++ [')'])))).length

theorem CallEndsAt.le_length {text name : String} {p : Nat} (h : CallEndsAt text name p) :
    p ≤ text.length := by
  obtain ⟨before, bs, inside, after, htext, -, -, -, rfl⟩ := h
  rw [← String.length_toList, htext]
  simp only [List.length_append, List.length_cons, List.length_nil]
  omega

namespace Productions

variable {α : Type}

/-- That nothing but calls uses up the stack. -/
structure ExhaustsInCalls (P : Productions α) : Prop where
  constant {name p e} : P.constant name p = .error e → e.exhausts = false
  unary {s a e} : P.unary s a = .error e → e.exhausts = false
  binary {op a b e} : P.binary op a b = .error e → e.exhausts = false

/-- A call of the text that ends right before the position fails because it uses up the stack. -/
def ExhaustedAt (P : Productions α) (text : String) (p : Nat) (e : Failure) : Prop :=
  ∃ name argument start, P.call name argument start p = .error e ∧ e.exhausts = true ∧
    CallEndsAt text name p

end Productions

namespace Grammar

variable {α : Type} {P : Productions α} {n : Nesting} {text : String} {e : Failure}

/-- Failures that do not come from an exhausted stack are passed on. -/
theorem Refuses.reporting {q : Call α} (h : Refuses P n q e) (he : e.exhausts = false)
    (limit : Int) : Refuses (P.reporting limit) n q e := by
  cases h with
  | binary h hr hb => exact .binary h (parses_reporting_iff.2 hr) hb
  | atEnd hp => exact .atEnd hp
  | tooDeep hp hn => exact .tooDeep hp hn
  | unary h hn ho hu => exact .unary h hn (parses_reporting_iff.2 ho) hu
  | power hp hs hn hb ha hx hop =>
    exact .power hp hs hn (parses_reporting_iff.2 hb) ha (parses_reporting_iff.2 hx) hop
  | group hp hi ha => exact .group hp (parses_reporting_iff.2 hi) ha
  | constant hi ha hc => exact .constant hi ha hc
  | argument hi ha harg hb => exact .argument hi ha (parses_reporting_iff.2 harg) hb
  | call hi ha harg hb hc =>
    refine .call hi ha (parses_reporting_iff.2 harg) hb ?_
    rw [Productions.reporting_call_of_error hc, Failure.reported_eq_self he]
  | number hp hi hs => exact .number hp hi hs

theorem Fails.reporting {q : Call α} (h : Fails P n q e) (he : e.exhausts = false)
    (limit : Int) : Fails (P.reporting limit) n q e := by
  induction h with
  | here h => exact .here (h.reporting he limit)
  | within hcalls _ ih => exact .within (hcalls.returnsAll (P.returnsAll_reporting limit)) (ih he)

/-- Where a call ends that stands in a text. -/
theorem callEndsAt {c d f g b : Cursor} {k : Depth} {name : String} {a : α}
    (hc : (Cursor.ofText text 0).Ahead c) (hi : c.scanIdentifier = some (name, d))
    (ha : d.accept (some '(') = (true, f)) (harg : Parses P n (.expression f k) a g)
    (hb : g.accept (some ')') = (true, b)) : CallEndsAt text name b.position := by
  obtain ⟨before, hbefore⟩ := hc.exists_passes
  obtain ⟨bs, hbs, hopen⟩ := Cursor.exists_passes_accept ha
  obtain ⟨inside, hinside, hargument⟩ := Parses.phrased (l := .expression) harg
  obtain ⟨bs', hbs', hclose⟩ := Cursor.exists_passes_accept hb
  have hall := (hbefore.trans (Cursor.passes_of_scanIdentifier hi)).trans
    (hopen.trans (hargument.trans hclose))
  refine ⟨before, bs, inside ++ bs', b.rest, ?_, (Cursor.scanIdentifier_some hi).1, hbs,
    hinside.trailing hbs', ?_⟩
  · rw [hall.toList]
    simp
  · rw [← hall.length]
    simp

/-- An exhausted stack is that of a call, and reported behind it. -/
theorem Refuses.exhausted (hP : P.ExhaustsInCalls) {q : Call α} (h : Refuses P n q e)
    (he : e.exhausts = true) (hq : (Cursor.ofText text 0).Ahead q.cursor) :
    ∃ p, P.ExhaustedAt text p e ∧
      ∀ limit, Refuses (P.reporting limit) n q (.nestingTooDeep p limit) := by
  cases h with
  | binary _ _ hb | power _ _ _ _ _ _ hb => simp [hP.binary hb] at he
  | unary _ _ _ hu => simp [hP.unary hu] at he
  | constant _ _ hc => simp [hP.constant hc] at he
  | atEnd | tooDeep | group | argument => cases he
  | number _ _ hs => cases Cursor.scanNumber_malformed hs <;> cases he
  | @call c _ name _ _ _ _ g _ hi ha harg hb hc =>
    refine ⟨g.position, ⟨name, _, c.position, hc, he, callEndsAt hq hi ha harg hb⟩,
      fun limit => .call hi ha (parses_reporting_iff.2 harg) hb ?_⟩
    rw [Productions.reporting_call_of_error hc, Failure.reported_of_exhausts he]

theorem Fails.exhausted (hP : P.ExhaustsInCalls) {q : Call α} (h : Fails P n q e)
    (he : e.exhausts = true) (hq : (Cursor.ofText text 0).Ahead q.cursor) :
    ∃ p, P.ExhaustedAt text p e ∧
      ∀ limit, Fails (P.reporting limit) n q (.nestingTooDeep p limit) := by
  induction h with
  | here h =>
    obtain ⟨p, hp, hrefuses⟩ := h.exhausted hP he hq
    exact ⟨p, hp, fun limit => .here (hrefuses limit)⟩
  | within hcalls _ ih =>
    obtain ⟨p, hp, hfails⟩ := ih he (hq.trans hcalls.ahead)
    exact ⟨p, hp, fun limit =>
      .within (hcalls.returnsAll (P.returnsAll_reporting limit)) (hfails limit)⟩

/-- What is reported of a call is its own failure, or that it uses up the stack. -/
theorem Fails.of_reporting (hP : P.ExhaustsInCalls) {limit : Int} {q : Call α} {e' : Failure}
    (h : Fails (P.reporting limit) n q e') (hq : (Cursor.ofText text 0).Ahead q.cursor) :
    ∃ e, Fails P n q e ∧ (e.exhausts = false ∧ e' = e ∨
      ∃ p, P.ExhaustedAt text p e ∧ e' = .nestingTooDeep p limit) := by
  obtain ⟨a, d, hp⟩ | ⟨e, hf⟩ := settles P n q
  · cases h.run.symm.trans (parses_reporting_iff.2 hp).run
  · refine ⟨e, hf, ?_⟩
    cases he : e.exhausts with
    | false =>
      cases h.run.symm.trans (hf.reporting he limit).run
      exact .inl ⟨rfl, rfl⟩
    | true =>
      obtain ⟨p, hp, hreported⟩ := hf.exhausted hP he hq
      cases h.run.symm.trans (hreported limit).run
      exact .inr ⟨p, hp, rfl⟩

end Grammar

/-! ## Productions that compute values -/

theorem Expr.not_exhaustedAt {text : String} {p : Nat} {e : Failure} :
    ¬productions.ExhaustedAt text p e := by
  rintro ⟨name, argument, start, h, -, -⟩
  cases h

theorem Expr.exhaustsInCalls : productions.ExhaustsInCalls where
  constant h := by cases h
  unary h := by cases h
  binary h := by cases h

namespace Context

/-- The functions of the host do not use up the stack. -/
def KeepsStack (c : Context) : Prop :=
  ∀ {name run x e}, c.function? name = some (.host run) → run x = .error e → e.exhausts = false

/-- A function of the host fails because it uses up the stack, in a call of the text that ends right
before the position. -/
def ExhaustedAt (c : Context) (text : String) (p : Nat) (e : Failure) : Prop :=
  ∃ name run x, c.function? name = some (.host run) ∧ run x = .error e ∧ e.exhausts = true ∧
    CallEndsAt text name p

variable {E : Elementary} {c : Context} {text : String} {p : Nat} {e : Failure}

theorem KeepsStack.not_exhaustedAt (hc : c.KeepsStack) : ¬c.ExhaustedAt text p e := by
  rintro ⟨name, run, x, hf, hrun, he, -⟩
  simp [hc hf hrun] at he

theorem ExhaustedAt.exhausts (h : c.ExhaustedAt text p e) : e.exhausts = true := by
  obtain ⟨name, run, x, -, -, he, -⟩ := h
  exact he

theorem ExhaustedAt.le_length (h : c.ExhaustedAt text p e) : p ≤ text.length := by
  obtain ⟨name, run, x, -, -, -, hends⟩ := h
  exact hends.le_length

theorem exhaustsInCalls (E : Elementary) (c : Context) : (c.productions E).ExhaustsInCalls where
  constant h := by
    simp only [productions] at h
    split at h <;> cases h
    rfl
  unary h := by cases h
  binary h := by
    obtain ⟨fault, rfl⟩ := BinaryOperator.exists_fault h
    rfl

/-- Of the functions of a context only those of the host use up the stack. -/
theorem exhaustedAt_of_productions (h : (c.productions E).ExhaustedAt text p e) :
    c.ExhaustedAt text p e := by
  obtain ⟨name, x, start, hcall, he, hends⟩ := h
  simp only [productions] at hcall
  split at hcall
  · rename_i f hf
    obtain hnumeric | ⟨run, rfl, hrun⟩ := Callable.apply_error hcall
    · simp [Failure.not_exhausts_of_isNumeric hnumeric] at he
    · exact ⟨name, run, x, hf, hrun, he, hends⟩
  · cases hcall
    cases he

end Context

namespace Reading

theorem ahead_call {α : Type} (text : String) :
    (Cursor.ofText text 0).Ahead (call text : Call α).cursor := Cursor.ahead_drop (Nat.zero_le _)

/-- What a reading reports of a failure: the failure itself, or of an exhausted stack that the text
is too deep, at the position behind the call that uses it up. -/
def Reports (r : Reading) (c : Context) (text : String) (e e' : Failure) : Prop :=
  e.exhausts = false ∧ e' = e ∨
    ∃ p, c.ExhaustedAt text p e ∧ e' = .nestingTooDeep p r.nesting.guard

variable {E : Elementary} {c : Context} {r : Reading} {text : String} {e e' : Failure}

theorem Reports.eq_of_not_exhausts (h : r.Reports c text e e') (he : e.exhausts = false) :
    e' = e := by
  obtain ⟨-, rfl⟩ | ⟨p, hp, -⟩ := h
  · rfl
  · simp [hp.exhausts] at he

theorem Reports.eq_of_keepsStack (h : r.Reports c text e e') (hc : c.KeepsStack) : e' = e := by
  obtain ⟨-, rfl⟩ | ⟨p, hp, -⟩ := h
  · rfl
  · exact absurd hp hc.not_exhaustedAt

theorem exists_reports (h : Fails (c.productions E) r.nesting (call text) e) :
    ∃ e', r.Reports c text e e' ∧ r.evaluate E c text = .error e' := by
  cases he : e.exhausts with
  | false =>
    exact ⟨e, .inl ⟨he, rfl⟩, run_eq_error_iff.2 (.inl (h.reporting he _))⟩
  | true =>
    obtain ⟨p, hp, hreported⟩ := h.exhausted (c.exhaustsInCalls E) he (ahead_call text)
    exact ⟨_, .inr ⟨p, Context.exhaustedAt_of_productions hp, rfl⟩,
      run_eq_error_iff.2 (.inl (hreported _))⟩

/-- An evaluation fails as the descent does, as reported, or in the last check. -/
theorem evaluate_error_cases (h : r.evaluate E c text = .error e') :
    (∃ e, Fails (c.productions E) r.nesting (call text) e ∧ r.Reports c text e e') ∨
      ∃ x d, Parses (c.productions E) r.nesting (call text) x d ∧ r.finish x d = .error e' := by
  obtain hf | hfinish := run_eq_error_iff.1 h
  · obtain ⟨e, he, hreport⟩ := hf.of_reporting (c.exhaustsInCalls E) (ahead_call text)
    refine .inl ⟨e, he, hreport.imp_right ?_⟩
    rintro ⟨p, hp, rfl⟩
    exact ⟨p, Context.exhaustedAt_of_productions hp, rfl⟩
  · exact .inr hfinish

end Reading
end Reckoner
