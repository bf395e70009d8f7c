import Reckoner.Proofs.Grammar.Rules

/-!
# Progress of the descent

Every call that returns has moved on, and every inner call has less to do, so that each call parses
or fails. Hence a call returns a result exactly when it parses, and an error exactly when it fails.
-/
namespace Reckoner.Grammar

variable {α : Type} {P : Productions α} {n : Nesting}

/-- The cursor that a call starts from. -/
def Call.cursor : Call α → Cursor
  | chain _ c _ | tail _ _ c _ | factor c _ | primary c _ => c

/-- How far a production is from the primaries. -/
def Call.rank : Call α → Nat
  | chain .sum .. => 3
  | chain .product .. => 2
  | factor .. => 1
  | tail .. | primary .. => 0

@[simp] theorem cursor_operand (l : Chain) (c : Cursor) (k : Depth) :
    (l.operand c k : Call α).cursor = c := by cases l <;> rfl

theorem next?_length_lt {β : Type} {read : Char → Option β} {c : Cursor} {b : β}
    (h : next? read c = some b) : (c.skipBlanks.drop 1).rest.length < c.rest.length := by
  obtain ⟨ch, hp, -⟩ := Option.bind_eq_some_iff.1 h
  exact lt_of_lt_of_le (Cursor.drop_one_length_lt hp) c.skipBlanks_length_le

/-- What a call leaves is less than this. Only the rest of a chain may take nothing. -/
def Call.bound : Call α → Nat
  | tail _ _ c _ => c.rest.length + 1
  | chain _ c _ | factor c _ | primary c _ => c.rest.length

@[simp] theorem bound_operand (l : Chain) (c : Cursor) (k : Depth) :
    (l.operand c k : Call α).bound = c.rest.length := by cases l <;> rfl

theorem Parses.length_lt {q : Call α} {a : α} {d : Cursor} (h : Parses P n q a d) :
    d.rest.length < q.bound := by
  induction h with
  | @chain l c k _ d _ _ _ _ ih₁ ih₂ =>
    rw [bound_operand] at ih₁
    simp only [Call.bound] at *
    omega
  | @last l left c k _ =>
    have := c.skipBlanks_length_le
    simp only [Call.bound]
    omega
  | more h _ _ _ ih₁ ih₂ =>
    have := next?_length_lt h
    rw [bound_operand] at ih₁
    simp only [Call.bound] at *
    omega
  | sign h _ _ _ ih =>
    have := next?_length_lt h
    simp only [Call.bound] at *
    omega
  | @base c _ _ _ _ _ _ _ _ _ ha ih =>
    have := c.skipBlanks_length_le
    have := Cursor.accept_false_length_le ha
    simp only [Call.bound] at *
    omega
  | @power c _ _ _ _ _ _ _ _ _ _ _ _ ha _ _ ih₁ ih₂ =>
    have := c.skipBlanks_length_le
    have := Cursor.accept_true_length_lt ha
    simp only [Call.bound] at *
    omega
  | group hp _ ha ih =>
    have := Cursor.drop_one_length_lt hp
    have := Cursor.accept_true_length_lt ha
    simp only [Call.bound] at *
    omega
  | constant hi ha _ =>
    have := Cursor.scanIdentifier_length_lt hi
    have := Cursor.accept_false_length_le ha
    simp only [Call.bound]
    omega
  | call hi ha _ hb _ ih =>
    have := Cursor.scanIdentifier_length_lt hi
    have := Cursor.accept_true_length_lt ha
    have := Cursor.accept_true_length_lt hb
    simp only [Call.bound] at *
    omega
  | number _ hs => exact Cursor.scanNumber_length_lt hs

/-- An inner call has fewer characters left, or as many and is nearer to the primaries. -/
theorem Calls.decreases {q q' : Call α} (h : Calls P n q q') :
    Prod.Lex (· < ·) (· < ·) (q'.cursor.rest.length, q'.rank) (q.cursor.rest.length, q.rank) := by
  cases h with
  | @first l c k =>
    rw [cursor_operand]
    exact .right _ (by cases l <;> simp [Chain.operand, Call.rank])
  | tail hl =>
    have := hl.length_lt
    rw [bound_operand] at this
    exact .left _ _ this
  | operand h =>
    rw [cursor_operand]
    exact .left _ _ (next?_length_lt h)
  | more h hr _ =>
    have := next?_length_lt h
    have := hr.length_lt
    rw [bound_operand] at this
    exact .left _ _ (by simp only [Call.cursor]; omega)
  | sign h _ => exact .left _ _ (next?_length_lt h)
  | @base c _ _ _ _ _ =>
    rcases Nat.lt_or_eq_of_le c.skipBlanks_length_le with lt | eq
    · exact .left _ _ lt
    · simp only [Call.cursor, eq]
      exact .right _ (by simp [Call.rank])
  | @exponent c _ _ _ _ _ _ _ _ hb ha =>
    have := c.skipBlanks_length_le
    have := hb.length_lt
    have := Cursor.accept_true_length_lt ha
    simp only [Call.bound] at *
    exact .left _ _ (by simp only [Call.cursor]; omega)
  | group hp => exact .left _ _ (Cursor.drop_one_length_lt hp)
  | argument hi ha =>
    have := Cursor.scanIdentifier_length_lt hi
    have := Cursor.accept_true_length_lt ha
    exact .left _ _ (by simp only [Call.cursor]; omega)

variable (P n)

/-- No call goes on for ever. -/
theorem wellFounded_calls : WellFounded fun q' q : Call α => Calls P n q q' := by
  have measure := InvImage.wf (fun q : Call α => (q.cursor.rest.length, q.rank))
    (Prod.lex Nat.lt_wfRel Nat.lt_wfRel).wf
  exact Subrelation.wf (fun h => h.decreases) measure

/-- A call that comes to an end, with a result or with a failure. -/
def Settles (q : Call α) : Prop := (∃ a d, Parses P n q a d) ∨ ∃ e, Fails P n q e

variable {P n}

theorem settles_tail {l : Chain} {left : α} {c : Cursor} {k : Depth}
    (ih : ∀ q', Calls P n (.tail l left c k) q' → Settles P n q') :
    Settles P n (.tail l left c k) := by
  cases h : next? l.read c with
  | none => exact .inl ⟨_, _, .last h⟩
  | some op =>
    obtain ⟨right, d, hr⟩ | ⟨e, he⟩ := ih _ (.operand h)
    · cases hb : P.binary op left right with
      | error e => exact .inr ⟨e, .here (.binary h hr hb)⟩
      | ok result =>
        obtain ⟨a, f, hf⟩ | ⟨e, he⟩ := ih _ (.more h hr hb)
        · exact .inl ⟨a, f, .more h hr hb hf⟩
        · exact .inr ⟨e, .within (.more h hr hb) he⟩
    · exact .inr ⟨e, .within (.operand h) he⟩

theorem settles_factor {c : Cursor} {k : Depth}
    (ih : ∀ q', Calls P n (.factor c k) q' → Settles P n q') : Settles P n (.factor c k) := by
  cases hp : c.skipBlanks.peek? with
  | none => exact .inr ⟨_, .here (.atEnd hp)⟩
  | some ch =>
    cases hn : n.refuses k.inFactor with
    | true => exact .inr ⟨_, .here (.tooDeep hp hn)⟩
    | false =>
      cases hs : Sign.ofChar? ch with
      | some s =>
        have h : next? Sign.ofChar? c = some s := by simp [next?, hp, hs]
        obtain ⟨a, d, ha⟩ | ⟨e, he⟩ := ih _ (.sign h hn)
        · cases hu : P.unary s a with
          | error e => exact .inr ⟨e, .here (.unary h hn ha hu)⟩
          | ok b => exact .inl ⟨b, d, .sign h hn ha hu⟩
        · exact .inr ⟨e, .within (.sign h hn) he⟩
      | none =>
        obtain ⟨a, d, ha⟩ | ⟨e, he⟩ := ih _ (.base hp hs hn)
        · rcases hd : d.accept (some '^') with ⟨_ | _, e⟩
          · exact .inl ⟨a, e, .base hp hs hn ha hd⟩
          · obtain ⟨b, f, hb⟩ | ⟨err, he⟩ := ih _ (.exponent hp hs hn ha hd)
            · cases hbin : P.binary .power a b with
              | error err => exact .inr ⟨err, .here (.power hp hs hn ha hd hb hbin)⟩
              | ok r => exact .inl ⟨r, f, .power hp hs hn ha hd hb hbin⟩
            · exact .inr ⟨err, .within (.exponent hp hs hn ha hd) he⟩
        · exact .inr ⟨e, .within (.base hp hs hn) he⟩

theorem settles_primary {c : Cursor} {k : Depth}
    (ih : ∀ q', Calls P n (.primary c k) q' → Settles P n q') : Settles P n (.primary c k) := by
  by_cases hp : c.peek? = some '('
  · obtain ⟨a, d, ha⟩ | ⟨e, he⟩ := ih _ (.group hp)
    · rcases hd : d.accept (some ')') with ⟨_ | _, e⟩
      · exact .inr ⟨_, .here (.group hp ha hd)⟩
      · exact .inl ⟨a, e, .group hp ha hd⟩
    · exact .inr ⟨e, .within (.group hp) he⟩
  · cases hi : c.scanIdentifier with
    | some r =>
      obtain ⟨name, d⟩ := r
      rcases hd : d.accept (some '(') with ⟨_ | _, e⟩
      · cases hc : P.constant name c.position with
        | error err => exact .inr ⟨err, .here (.constant hi hd hc)⟩
        | ok a => exact .inl ⟨a, e, .constant hi hd hc⟩
      · obtain ⟨a, f, ha⟩ | ⟨err, he⟩ := ih _ (.argument hi hd)
        · rcases hf : f.accept (some ')') with ⟨_ | _, g⟩
          · exact .inr ⟨_, .here (.argument hi hd ha hf)⟩
          · cases hc : P.call name a c.position g.position with
            | error err => exact .inr ⟨err, .here (.call hi hd ha hf hc)⟩
            | ok b => exact .inl ⟨b, g, .call hi hd ha hf hc⟩
        · exact .inr ⟨err, .within (.argument hi hd) he⟩
    | none =>
      rcases hs : c.scanNumber with ⟨e | x, d⟩
      · exact .inr ⟨e, .here (.number hp hi hs)⟩
      · exact .inl ⟨_, d, .number hi hs⟩

variable (P n)

theorem settles (q : Call α) : Settles P n q := by
  induction q using (wellFounded_calls P n).induction with
  | _ q ih =>
    cases q with
    | chain l c k =>
      obtain ⟨a, d, ha⟩ | ⟨e, he⟩ := ih _ .first
      · obtain ⟨b, f, hb⟩ | ⟨e, he⟩ := ih _ (.tail ha)
        · exact .inl ⟨b, f, .chain ha hb⟩
        · exact .inr ⟨e, .within (.tail ha) he⟩
      · exact .inr ⟨e, .within .first he⟩
    | tail l left c k => exact settles_tail ih
    | factor c k => exact settles_factor ih
    | primary c k => exact settles_primary ih

variable {P n}

theorem run_eq_ok_iff {q : Call α} {a : α} {d : Cursor} :
    q.run P n = .ok (a, d) ↔ Parses P n q a d := by
  refine ⟨fun h => ?_, Parses.run⟩
  obtain ⟨b, e, hb⟩ | ⟨e, he⟩ := settles P n q
  · rw [hb.run] at h
    obtain ⟨rfl, rfl⟩ : b = a ∧ e = d := by simpa using h
    exact hb
  · rw [he.run] at h
    cases h

theorem run_eq_error_iff {q : Call α} {e : Failure} :
    q.run P n = .error e ↔ Fails P n q e := by
  refine ⟨fun h => ?_, Fails.run⟩
  obtain ⟨b, d, hb⟩ | ⟨e', he⟩ := settles P n q
  · rw [hb.run] at h
    cases h
  · rw [he.run] at h
    obtain rfl : e' = e := by simpa using h
    exact he

/-- After a call that goes alike, what follows has to be compared for its results only. -/
theorem bind_run_eq {β : Type} {P' : Productions α} {q : Call α} (hrun : q.run P n = q.run P' n)
    {f g : α × Cursor → Except Failure β} (h : ∀ a d, Parses P n q a d → f (a, d) = g (a, d)) :
    (q.run P n).bind f = (q.run P' n).bind g := by
  rw [← hrun]
  cases hx : q.run P n with
  | error e => rfl
  | ok x => exact h x.1 x.2 (run_eq_ok_iff.1 hx)

end Reckoner.Grammar
