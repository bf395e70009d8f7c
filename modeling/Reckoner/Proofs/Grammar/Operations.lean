import Reckoner.Proofs.Grammar.Trace
import Reckoner.Proofs.Operations

/-!
# The operations of a run

All that a run does to the cursor are operations of it, one after the other: what a call asks before
it calls another production, what its inner calls ask, and what it asks when one of them returns.
The operations of a call that returns lead to where it returns, those before an inner call lead to
where that call starts, and there are none after an inner call that fails.
-/
namespace Reckoner

namespace Grammar

open Cursor (Operation after)

variable {α : Type} (P : Productions α) (n : Nesting)

namespace Call

/-- What a call asks of the cursor before it calls another production. -/
def opening : Call α → List Operation
  | chain _ _ _ => []
  | tail l _ c _ => .skipBlanks :: .peek :: if (next? l.read c).isSome then [.advance] else []
  | factor c k => .skipBlanks :: .atEnd :: match c.skipBlanks.peek? with
    | none => []
    | some ch =>
      if n.refuses k.inFactor then []
      else .peek :: if (Sign.ofChar? ch).isSome then [.advance] else []
  | primary c _ => .peek ::
    if c.peek? = some '(' then [.advance]
    else if c.scanIdentifier.isSome then [.scanIdentifier, .accept '('] else [.scanNumber]

/-- What a call asks of the cursor when an inner call returns. -/
def closing (q q' : Call α) : List Operation :=
  match q, q', q'.run P n with
  | factor .., primary .., .ok _ => [.accept '^']
  | primary .., _, .ok _ => [.accept ')']
  | _, _, _ => []

/-- All that the run of a call asks of the cursor, in order. -/
def operations (q : Call α) : List Operation :=
  q.opening n ++ (q.inner P n).attach.flatMap fun q' => q'.1.operations ++ q.closing P n q'.1
termination_by (q.cursor.rest.length, q.rank)
decreasing_by exact (calls_of_mem_inner q'.2).decreases

theorem operations_eq (q : Call α) : q.operations P n =
    q.opening n ++ (q.inner P n).flatMap fun q' => q'.operations P n ++ q.closing P n q' := by
  rw [operations]
  simp

/-- The run of a call comes to an inner one by its first operations. -/
def Reaches (q q' : Call α) : Prop :=
  ∃ os, os ++ q'.operations P n <+: q.operations P n ∧ after os q.cursor = q'.cursor

variable {P n} {q q' q'' : Call α}

theorem Reaches.refl (q : Call α) : q.Reaches P n q := ⟨[], List.prefix_rfl, rfl⟩

theorem Reaches.trans (h : q.Reaches P n q') (h' : q'.Reaches P n q'') : q.Reaches P n q'' := by
  obtain ⟨os, hos, hafter⟩ := h
  obtain ⟨os', hos', hafter'⟩ := h'
  refine ⟨os ++ os', ?_, by rw [Cursor.after_append, hafter, hafter']⟩
  rw [List.append_assoc]
  exact ((List.prefix_append_right_inj os).2 hos').trans hos

theorem reaches_of_inner (before : List (Call α)) {others : List (Call α)}
    (h : q.inner P n = before ++ q' :: others)
    (hafter : after (q.opening n ++ before.flatMap fun x => x.operations P n ++ q.closing P n x)
      q.cursor = q'.cursor) : q.Reaches P n q' := by
  refine ⟨_, ?_, hafter⟩
  rw [operations_eq P n q, h]
  simp only [List.flatMap_append, List.flatMap_cons, List.append_assoc,
    List.prefix_append_right_inj]
  exact List.prefix_append _ _

theorem reaches_first (h : (q.inner P n).head? = some q')
    (hafter : after (q.opening n) q.cursor = q'.cursor) : q.Reaches P n q' := by
  obtain ⟨others, h⟩ := List.head?_eq_some_iff.1 h
  exact reaches_of_inner [] h (by simpa using hafter)

/-! ## Inner calls -/

variable {l : Chain} {c d e : Cursor} {k : Depth}

theorem inner_chain {left : α} (h : Parses P n (l.operand c k) left d) :
    (chain l c k).inner P n = [l.operand c k, tail l left d k] := by
  simp [inner, whenDone, h.run]

theorem inner_more {left right result : α} {op : BinaryOperator} (h : next? l.read c = some op)
    (hr : Parses P n (l.operand (c.skipBlanks.drop 1) k) right d)
    (hb : P.binary op left right = .ok result) :
    (tail l left c k).inner P n = [l.operand (c.skipBlanks.drop 1) k, tail l result d k] := by
  simp [inner, h, whenDone, hr.run, hb]

theorem inner_sign {s : Sign} (h : next? Sign.ofChar? c = some s)
    (hn : n.refuses k.inFactor = false) :
    (factor c k : Call α).inner P n = [factor (c.skipBlanks.drop 1) k.inFactor] := by
  obtain ⟨ch, hp, hs⟩ := Option.bind_eq_some_iff.1 h
  simp [inner, hp, hn, hs]

theorem inner_base {ch : Char} {a : α} (hp : c.skipBlanks.peek? = some ch)
    (hs : Sign.ofChar? ch = none) (hn : n.refuses k.inFactor = false)
    (hb : Parses P n (.primary c.skipBlanks k.inFactor) a d)
    (ha : d.accept (some '^') = (false, e)) :
    (factor c k).inner P n = [primary c.skipBlanks k.inFactor] := by
  simp [inner, hp, hn, hs, whenDone, hb.run, ha]

theorem inner_power {ch : Char} {a : α} (hp : c.skipBlanks.peek? = some ch)
    (hs : Sign.ofChar? ch = none) (hn : n.refuses k.inFactor = false)
    (hb : Parses P n (.primary c.skipBlanks k.inFactor) a d)
    (ha : d.accept (some '^') = (true, e)) :
    (factor c k).inner P n = [primary c.skipBlanks k.inFactor, factor e k.inFactor] := by
  simp [inner, hp, hn, hs, whenDone, hb.run, ha]

theorem inner_group (hp : c.peek? = some '(') :
    (primary c k : Call α).inner P n = [expression (c.drop 1) k.inGroup] := by
  simp [inner, hp]

theorem inner_constant {name : String} (hi : c.scanIdentifier = some (name, d))
    (ha : d.accept (some '(') = (false, e)) : (primary c k : Call α).inner P n = [] := by
  simp [inner, peek?_ne_group_of_scanIdentifier hi, hi, ha]

theorem inner_argument {name : String} (hi : c.scanIdentifier = some (name, d))
    (ha : d.accept (some '(') = (true, e)) :
    (primary c k : Call α).inner P n = [expression e k.inGroup] := by
  simp [inner, peek?_ne_group_of_scanIdentifier hi, hi, ha]

theorem inner_number {x : Float} (hi : c.scanIdentifier = none) (hs : c.scanNumber = (.ok x, d)) :
    (primary c k : Call α).inner P n = [] := by
  simp [inner, peek?_ne_group_of_scanNumber hs, hi]

/-! ## Before inner calls -/

theorem advance_of_peek? {ch : Char} (h : c.peek? = some ch) : c.advance.2 = c.drop 1 := by
  rw [Cursor.advance, Cursor.rest_eq_of_peek? h]

theorem after_opening_last {left : α} (h : next? l.read c = none) :
    after ((tail l left c k).opening n) c = c.skipBlanks := by
  simp [opening, h, Operation.perform]

theorem after_opening_more {left : α} {op : BinaryOperator} (h : next? l.read c = some op) :
    after ((tail l left c k).opening n) c = c.skipBlanks.drop 1 := by
  obtain ⟨ch, hp, -⟩ := Option.bind_eq_some_iff.1 h
  simp [opening, h, Operation.perform, advance_of_peek? hp]

theorem after_opening_sign {s : Sign} (h : next? Sign.ofChar? c = some s)
    (hn : n.refuses k.inFactor = false) :
    after ((factor c k : Call α).opening n) c = c.skipBlanks.drop 1 := by
  obtain ⟨ch, hp, hs⟩ := Option.bind_eq_some_iff.1 h
  simp [opening, hp, hn, hs, Operation.perform, advance_of_peek? hp]

theorem after_opening_base {ch : Char} (hp : c.skipBlanks.peek? = some ch)
    (hs : Sign.ofChar? ch = none) (hn : n.refuses k.inFactor = false) :
    after ((factor c k : Call α).opening n) c = c.skipBlanks := by
  simp [opening, hp, hn, hs, Operation.perform]

theorem after_opening_group (hp : c.peek? = some '(') :
    after ((primary c k : Call α).opening n) c = c.drop 1 := by
  simp [opening, hp, Operation.perform, advance_of_peek? hp]

theorem after_opening_name {b : Bool} {name : String} (hi : c.scanIdentifier = some (name, d))
    (ha : d.accept (some '(') = (b, e)) :
    after ((primary c k : Call α).opening n) c = e := by
  simp [opening, peek?_ne_group_of_scanIdentifier hi, hi, ha, Operation.perform]

theorem after_opening_number {x : Float} (hi : c.scanIdentifier = none)
    (hs : c.scanNumber = (.ok x, d)) : after ((primary c k : Call α).opening n) c = d := by
  simp [opening, peek?_ne_group_of_scanNumber hs, hi, Operation.perform, hs]

end Call

/-! ## Where the operations lead -/

variable {P n}

theorem after_operations_of_none {q : Call α} (h : q.inner P n = []) :
    after (q.operations P n) q.cursor = after (q.opening n) q.cursor := by
  rw [Call.operations_eq, h, List.flatMap_nil, List.append_nil]

/-- A call whose one inner call leads from `first.cursor` to `d`. -/
theorem after_operations_of_one {q first : Call α} {d : Cursor} (h : q.inner P n = [first])
    (hopening : after (q.opening n) q.cursor = first.cursor)
    (hfirst : after (first.operations P n) first.cursor = d) :
    after (q.operations P n) q.cursor = after (q.closing P n first) d := by
  rw [Call.operations_eq, h, List.flatMap_singleton, Cursor.after_append, hopening,
    Cursor.after_append, hfirst]

/-- A call whose first inner call leads to `d`, and which goes on from there to a second one. -/
theorem after_operations_of_two {q first second : Call α} {d : Cursor}
    (h : q.inner P n = [first, second])
    (hopening : after (q.opening n) q.cursor = first.cursor)
    (hfirst : after (first.operations P n) first.cursor = d)
    (hclosing : after (q.closing P n first) d = second.cursor)
    (hlast : q.closing P n second = []) :
    after (q.operations P n) q.cursor = after (second.operations P n) second.cursor := by
  rw [Call.operations_eq, h, List.flatMap_cons, List.flatMap_singleton, hlast, List.append_nil,
    Cursor.after_append, hopening, Cursor.after_append, Cursor.after_append, hfirst, hclosing]

theorem Parses.after_operations {q : Call α} {a : α} {d : Cursor} (h : Parses P n q a d) :
    after (q.operations P n) q.cursor = d := by
  induction h with
  | chain h₁ _ ih₁ ih₂ =>
    exact (after_operations_of_two (Call.inner_chain h₁) (cursor_operand ..).symm ih₁ rfl rfl).trans
      ih₂
  | last h =>
    rw [after_operations_of_none (by simp [Call.inner, h])]
    exact Call.after_opening_last h
  | more h h₁ hb _ ih₁ ih₂ =>
    refine (after_operations_of_two (Call.inner_more h h₁ hb) ?_ ih₁ rfl rfl).trans ih₂
    rw [cursor_operand]
    exact Call.after_opening_more h
  | sign h hn h₁ _ ih =>
    exact after_operations_of_one (Call.inner_sign h hn) (Call.after_opening_sign h hn) ih
  | base hp hs hn h₁ ha ih =>
    rw [after_operations_of_one (Call.inner_base hp hs hn h₁ ha)
      (Call.after_opening_base hp hs hn) ih]
    simp [Call.closing, h₁.run, Operation.perform, ha]
  | power hp hs hn h₁ ha h₂ _ ih₁ ih₂ =>
    refine (after_operations_of_two (Call.inner_power hp hs hn h₁ ha)
      (Call.after_opening_base hp hs hn) ih₁ ?_ rfl).trans ih₂
    simp [Call.closing, h₁.run, Operation.perform, ha, Call.cursor]
  | group hp h₁ ha ih =>
    rw [after_operations_of_one (Call.inner_group hp) (Call.after_opening_group hp) ih]
    simp [Call.closing, h₁.run, Operation.perform, ha]
  | constant hi ha _ =>
    rw [after_operations_of_none (Call.inner_constant hi ha)]
    exact Call.after_opening_name hi ha
  | call hi ha h₁ hb _ ih =>
    rw [after_operations_of_one (Call.inner_argument hi ha) (Call.after_opening_name hi ha) ih]
    simp [Call.closing, h₁.run, Operation.perform, hb]
  | number hi hs =>
    rw [after_operations_of_none (Call.inner_number hi hs)]
    exact Call.after_opening_number hi hs

theorem reaches_second {q first second : Call α} {a : α} {d : Cursor}
    (h : q.inner P n = [first, second]) (hopening : after (q.opening n) q.cursor = first.cursor)
    (hfirst : Parses P n first a d) (hclosing : after (q.closing P n first) d = second.cursor) :
    q.Reaches P n second := by
  refine Call.reaches_of_inner [first] h ?_
  rw [List.flatMap_singleton, Cursor.after_append, hopening, Cursor.after_append,
    hfirst.after_operations, hclosing]

theorem Calls.reaches {q q' : Call α} (h : Calls P n q q') : q.Reaches P n q' := by
  cases h with
  | first => exact Call.reaches_first rfl (cursor_operand ..).symm
  | tail h₁ => exact reaches_second (Call.inner_chain h₁) (cursor_operand ..).symm h₁ rfl
  | operand h =>
    refine Call.reaches_first (by simp [Call.inner, h]) ?_
    rw [cursor_operand]
    exact Call.after_opening_more h
  | more h h₁ hb =>
    refine reaches_second (Call.inner_more h h₁ hb) ?_ h₁ rfl
    rw [cursor_operand]
    exact Call.after_opening_more h
  | sign h hn =>
    exact Call.reaches_first (by simp [Call.inner_sign h hn]) (Call.after_opening_sign h hn)
  | base hp hs hn =>
    exact Call.reaches_first (by simp [Call.inner, hp, hn, hs]) (Call.after_opening_base hp hs hn)
  | exponent hp hs hn h₁ ha =>
    refine reaches_second (Call.inner_power hp hs hn h₁ ha) (Call.after_opening_base hp hs hn)
      h₁ ?_
    simp [Call.closing, h₁.run, Operation.perform, ha, Call.cursor]
  | group hp =>
    exact Call.reaches_first (by simp [Call.inner_group hp]) (Call.after_opening_group hp)
  | argument hi ha =>
    exact Call.reaches_first (by simp [Call.inner_argument hi ha]) (Call.after_opening_name hi ha)

/-- A run comes to all calls that it enters by its first operations. -/
theorem Call.reaches_of_mem_trace {q q' : Call α} (h : q' ∈ q.trace P n) : q.Reaches P n q' := by
  rw [mem_trace_iff] at h
  induction h using Relation.ReflTransGen.head_induction_on with
  | refl => exact .refl q'
  | head hcalls _ ih => exact hcalls.reaches.trans ih

/-! ## After a failure -/

theorem Fails.suffix_of_inner {q q' : Call α} {e : Failure} (he : Fails P n q' e)
    (before : List (Call α)) (h : q.inner P n = before ++ [q']) :
    q'.operations P n <:+ q.operations P n := by
  have hclosing : q.closing P n q' = [] := by
    cases q <;> cases q' <;> simp [Call.closing, he.run]
  refine ⟨q.opening n ++ before.flatMap fun x => x.operations P n ++ q.closing P n x, ?_⟩
  rw [Call.operations_eq P n q, h, List.flatMap_append, List.flatMap_singleton, hclosing,
    List.append_nil, List.append_assoc]

/-- A call asks nothing after an inner call that fails. -/
theorem Calls.suffix_of_fails {q q' : Call α} {e : Failure} (h : Calls P n q q')
    (he : Fails P n q' e) : q'.operations P n <:+ q.operations P n := by
  have hrun := he.run
  cases h with
  | first => exact he.suffix_of_inner [] (by simp [Call.inner, Call.whenDone, hrun])
  | tail h₁ => exact he.suffix_of_inner [_] (Call.inner_chain h₁)
  | operand h => exact he.suffix_of_inner [] (by simp [Call.inner, h, Call.whenDone, hrun])
  | more h h₁ hb => exact he.suffix_of_inner [_] (Call.inner_more h h₁ hb)
  | sign h hn => exact he.suffix_of_inner [] (Call.inner_sign h hn)
  | base hp hs hn =>
    exact he.suffix_of_inner [] (by simp [Call.inner, hp, hn, hs, Call.whenDone, hrun])
  | exponent hp hs hn h₁ ha => exact he.suffix_of_inner [_] (Call.inner_power hp hs hn h₁ ha)
  | group hp => exact he.suffix_of_inner [] (Call.inner_group hp)
  | argument hi ha => exact he.suffix_of_inner [] (Call.inner_argument hi ha)

end Grammar
end Reckoner
