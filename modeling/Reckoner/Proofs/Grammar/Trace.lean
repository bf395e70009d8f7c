import Reckoner.Proofs.Grammar.Reporting

/-!
# The calls of a run

A run enters one call after another. The trace of a call lists all that its run enters, in order. A
limit on nesting stops the run at the first call of the trace that it refuses; if there is none, the
limit makes no difference.
-/
namespace Reckoner

namespace Grammar

variable {α : Type} (P : Productions α) (n : Nesting)

namespace Call

/-- The calls that the result of a call leads to. -/
def whenDone (q : Call α) (f : α → Cursor → List (Call α)) : List (Call α) :=
  match q.run P n with
  | .ok (a, d) => f a d
  | .error _ => []

/-- The calls that a call makes on its own, in order. -/
def inner : Call α → List (Call α)
  | chain l c k => l.operand c k :: (l.operand c k).whenDone P n fun left d => [.tail l left d k]
  | tail l left c k => match next? l.read c with
    | none => []
    | some op =>
      let operand := l.operand (c.skipBlanks.drop 1) k
      operand :: operand.whenDone P n fun right d => match P.binary op left right with
        | .ok result => [.tail l result d k]
        | .error _ => []
  | factor c k => match c.skipBlanks.peek? with
    | none => []
    | some ch =>
      if n.refuses k.inFactor then []
      else match Sign.ofChar? ch with
        | some _ => [.factor (c.skipBlanks.drop 1) k.inFactor]
        | none =>
          let base := primary c.skipBlanks k.inFactor
          base :: base.whenDone P n fun _ d => match d.accept (some '^') with
            | (false, _) => []
            | (true, e) => [.factor e k.inFactor]
  | primary c k =>
    if c.peek? = some '(' then [.expression (c.drop 1) k.inGroup]
    else match c.scanIdentifier with
      | none => []
      | some (_, d) => match d.accept (some '(') with
        | (false, _) => []
        | (true, e) => [.expression e k.inGroup]

variable {P n}

theorem mem_whenDone {q q' : Call α} {f : α → Cursor → List (Call α)} :
    q' ∈ q.whenDone P n f ↔ ∃ a d, Parses P n q a d ∧ q' ∈ f a d := by
  unfold whenDone
  constructor
  · intro h
    split at h
    · rename_i a d hrun
      exact ⟨a, d, run_eq_ok_iff.1 hrun, h⟩
    · cases h
  · rintro ⟨a, d, hp, h⟩
    rw [hp.run]
    exact h

theorem calls_of_mem_inner {q q' : Call α} (h : q' ∈ q.inner P n) : Calls P n q q' := by
  cases q with
  | chain l c k =>
    rcases List.mem_cons.1 h with rfl | h
    · exact .first
    · obtain ⟨left, d, hp, h⟩ := mem_whenDone.1 h
      obtain rfl := List.mem_singleton.1 h
      exact .tail hp
  | tail l left c k =>
    rw [inner] at h
    split at h
    · cases h
    · rename_i op hop
      rcases List.mem_cons.1 h with rfl | h
      · exact .operand hop
      · obtain ⟨right, d, hp, h⟩ := mem_whenDone.1 h
        split at h
        · rename_i result hb
          obtain rfl := List.mem_singleton.1 h
          exact .more hop hp hb
        · cases h
  | factor c k =>
    rw [inner] at h
    split at h
    · cases h
    · rename_i ch hp
      split at h
      · cases h
      · rename_i hn
        rw [Bool.not_eq_true] at hn
        split at h
        · rename_i s hs
          obtain rfl := List.mem_singleton.1 h
          have hnext : next? Sign.ofChar? c = some s := by simp [next?, hp, hs]
          exact .sign hnext hn
        · rename_i hs
          rcases List.mem_cons.1 h with rfl | h
          · exact .base hp hs hn
          · obtain ⟨a, d, hb, h⟩ := mem_whenDone.1 h
            split at h
            · cases h
            · rename_i e he
              obtain rfl := List.mem_singleton.1 h
              exact .exponent hp hs hn hb he
  | primary c k =>
    rw [inner] at h
    split at h
    · rename_i hp
      obtain rfl := List.mem_singleton.1 h
      exact .group hp
    · split at h
      · cases h
      · rename_i name d hi
        split at h
        · cases h
        · rename_i e he
          obtain rfl := List.mem_singleton.1 h
          exact .argument hi he

theorem mem_inner {q q' : Call α} (h : Calls P n q q') : q' ∈ q.inner P n := by
  cases h with
  | first => exact List.mem_cons_self
  | tail hp => exact List.mem_cons_of_mem _ (mem_whenDone.2 ⟨_, _, hp, List.mem_singleton_self _⟩)
  | operand hop =>
    simp only [inner, hop]
    exact List.mem_cons_self
  | more hop hp hb =>
    simp only [inner, hop]
    exact List.mem_cons_of_mem _ (mem_whenDone.2 ⟨_, _, hp, by simp [hb]⟩)
  | sign h hn =>
    obtain ⟨ch, hp, hs⟩ := Option.bind_eq_some_iff.1 h
    simp [inner, hp, hn, hs]
  | base hp hs hn => simp [inner, hp, hn, hs]
  | exponent hp hs hn hb he =>
    simp only [inner, hp, hn, hs, Bool.false_eq_true, if_false]
    exact List.mem_cons_of_mem _ (mem_whenDone.2 ⟨_, _, hb, by simp [he]⟩)
  | group hp => simp [inner, hp]
  | argument hi he =>
    simp only [inner, if_neg (peek?_ne_group_of_scanIdentifier hi), hi, he]
    exact List.mem_singleton_self _

variable (P n)

/-- All calls that the run of a call enters, in order, the call itself first. -/
def trace (q : Call α) : List (Call α) :=
  q :: (q.inner P n).attach.flatMap fun q' => q'.1.trace
termination_by (q.cursor.rest.length, q.rank)
decreasing_by exact (calls_of_mem_inner q'.2).decreases

theorem trace_eq (q : Call α) : q.trace P n = q :: (q.inner P n).flatMap (·.trace P n) := by
  rw [trace]
  simp

variable {P n}

/-- A run enters what it reaches through calls, and nothing else. -/
theorem mem_trace_iff {q q' : Call α} :
    q' ∈ q.trace P n ↔ Relation.ReflTransGen (Calls P n) q q' := by
  induction q using (wellFounded_calls P n).induction with
  | _ q ih =>
    rw [trace_eq, List.mem_cons, Relation.ReflTransGen.cases_head_iff, List.mem_flatMap]
    constructor
    · rintro (rfl | ⟨r, hr, h⟩)
      · exact .inl rfl
      · have hcalls := calls_of_mem_inner hr
        exact .inr ⟨r, hcalls, (ih r hcalls).1 h⟩
    · rintro (rfl | ⟨r, hcalls, h⟩)
      · exact .inl rfl
      · exact .inr ⟨r, mem_inner hcalls, (ih r hcalls).2 h⟩

theorem whenDone_reporting (limit : Int) (q : Call α) (f : α → Cursor → List (Call α)) :
    q.whenDone (P.reporting limit) n f = q.whenDone P n f := by
  unfold whenDone
  obtain ⟨a, d, hp⟩ | ⟨e, he⟩ := settles P n q
  · rw [hp.run, (parses_reporting_iff.2 hp).run]
  · obtain ⟨a, d, hp⟩ | ⟨e', he'⟩ := settles (P.reporting limit) n q
    · cases he.run.symm.trans (parses_reporting_iff.1 hp).run
    · rw [he.run, he'.run]

theorem inner_reporting (limit : Int) (q : Call α) :
    q.inner (P.reporting limit) n = q.inner P n := by
  cases q with
  | tail l left c k =>
    simp only [inner, whenDone_reporting]
    rfl
  | chain | factor | primary => simp only [inner, whenDone_reporting]

/-- What is reported of calls makes no difference to those that are entered. -/
theorem trace_reporting (limit : Int) (q : Call α) :
    q.trace (P.reporting limit) n = q.trace P n := by
  induction q using (wellFounded_calls P n).induction with
  | _ q ih =>
    rw [trace_eq, trace_eq, inner_reporting]
    congr 1
    exact List.flatMap_congr fun q' h => ih q' (calls_of_mem_inner h)

end Call

end Grammar

/-! ## Limits -/

namespace Nesting

open Grammar

variable {α β γ : Type} (n : Nesting)

/-- A factor that is entered with input left and that a limit refuses. -/
def stops : Call α → Bool
  | .factor c k => c.skipBlanks.peek?.isSome && n.refuses k.inFactor
  | _ => false

/-- What a limit makes of a run with this trace and this result: it fails at the first factor that
is refused, at the position behind the blanks. -/
def curb (ts : List (Call α)) (r : Except Failure β) : Except Failure β :=
  match ts.find? n.stops with
  | some q => .error (.nestingTooDeep q.cursor.skipBlanks.position n.guard)
  | none => r

variable {n}

theorem curb_append (ts us : List (Call α)) (r : Except Failure β) :
    n.curb (ts ++ us) r = n.curb ts (n.curb us r) := by
  unfold curb
  rw [List.find?_append]
  cases ts.find? n.stops <;> rfl

theorem curb_cons {q : Call α} (ts : List (Call α)) (r : Except Failure β)
    (h : n.stops q = false) : n.curb (q :: ts) r = n.curb ts r := by
  unfold curb
  rw [List.find?_cons_of_neg (by simp [h])]

theorem curb_bind (ts : List (Call α)) (r : Except Failure β) (f : β → Except Failure γ) :
    (n.curb ts r).bind f = n.curb ts (r.bind f) := by
  unfold curb
  cases ts.find? n.stops <;> rfl

end Nesting

namespace Grammar

variable {α : Type} (P : Productions α) (n : Nesting)

/-- The run under a limit is the run without one, curbed along its trace. -/
def Curbed (q : Call α) : Prop :=
  q.run P n = n.curb (q.trace P .unlimited) (q.run P .unlimited)

variable {P n}

/-- A call and what its result leads to are curbed one after the other. -/
theorem bind_curb {q : Call α} {f : α → Cursor → List (Call α)}
    {F G : α × Cursor → Except Failure (α × Cursor)}
    (hq : Curbed P n q)
    (hF : ∀ a d, Parses P .unlimited q a d →
      F (a, d) = n.curb ((f a d).flatMap (·.trace P .unlimited)) (G (a, d))) :
    (q.run P n).bind F =
      n.curb ((q :: q.whenDone P .unlimited f).flatMap (·.trace P .unlimited))
        ((q.run P .unlimited).bind G) := by
  rw [hq, Nesting.curb_bind, List.flatMap_cons, Nesting.curb_append]
  congr 1
  unfold Call.whenDone
  cases hrun : q.run P .unlimited with
  | error e => rfl
  | ok r => exact hF r.1 r.2 (run_eq_ok_iff.1 hrun)

/-- A call whose result leads to no other one. -/
theorem bind_curb_last {q : Call α} {F : α × Cursor → Except Failure (α × Cursor)}
    (hq : Curbed P n q) :
    (q.run P n).bind F =
      n.curb ([q].flatMap (·.trace P .unlimited)) ((q.run P .unlimited).bind F) := by
  rw [hq, Nesting.curb_bind, List.flatMap_singleton]

theorem curbed_tail {l : Chain} {left : α} {c : Cursor} {k : Depth}
    (ih : ∀ q', Calls P .unlimited (.tail l left c k) q' → Curbed P n q') :
    Curbed P n (.tail l left c k) := by
  rw [Curbed, Call.trace_eq, Nesting.curb_cons _ _ rfl, Call.run_tail P n,
    Call.run_tail P .unlimited, Call.inner]
  cases hop : next? l.read c with
  | none => rfl
  | some op =>
    refine bind_curb (ih _ (.operand hop)) fun right d hp => ?_
    cases hb : P.binary op left right with
    | error e => rfl
    | ok result => simpa [Except.bind, Curbed] using ih _ (.more hop hp hb)

theorem curbed_factor {c : Cursor} {k : Depth}
    (ih : ∀ q', Calls P .unlimited (.factor c k) q' → Curbed P n q') :
    Curbed P n (.factor c k) := by
  have hfree : Nesting.unlimited.refuses k.inFactor = false := rfl
  rw [Curbed, Call.trace_eq, Call.run_factor P n]
  cases hp : c.skipBlanks.peek? with
  | none =>
    rw [Nesting.curb_cons _ _ (by simp [Nesting.stops, hp]), Call.run_factor P .unlimited,
      Call.inner, hp]
    rfl
  | some ch =>
    cases hn : n.refuses k.inFactor with
    | true =>
      -- the only call that is refused itself, before anything that it leads to
      have hstops : n.stops (.factor c k : Call α) = true := by simp [Nesting.stops, hp, hn]
      rw [Nesting.curb, List.find?_cons_of_pos hstops]
      rfl
    | false =>
      rw [Nesting.curb_cons _ _ (by simp [Nesting.stops, hn]), Call.run_factor P .unlimited,
        Call.inner, hp]
      simp only [hfree, Bool.false_eq_true, if_false]
      cases hs : Sign.ofChar? ch with
      | some s =>
        have hnext : next? Sign.ofChar? c = some s := by simp [next?, hp, hs]
        exact bind_curb_last (ih _ (.sign hnext hfree))
      | none =>
        refine bind_curb (ih _ (.base hp hs hfree)) fun base d hb => ?_
        rcases hd : d.accept (some '^') with ⟨_ | _, e⟩
        · rfl
        · exact bind_curb_last (ih _ (.exponent hp hs hfree hb hd))

theorem curbed_primary {c : Cursor} {k : Depth}
    (ih : ∀ q', Calls P .unlimited (.primary c k) q' → Curbed P n q') :
    Curbed P n (.primary c k) := by
  rw [Curbed, Call.trace_eq, Nesting.curb_cons _ _ rfl, Call.run_primary P n,
    Call.run_primary P .unlimited, Call.inner]
  split
  · rename_i hp
    exact bind_curb_last (ih _ (.group hp))
  · cases hi : c.scanIdentifier with
    | none => rfl
    | some r =>
      obtain ⟨name, d⟩ := r
      dsimp only
      rcases hd : d.accept (some '(') with ⟨_ | _, e⟩
      · rfl
      · exact bind_curb_last (ih _ (.argument hi hd))

/-- Every run under a limit is curbed along its trace, and goes on as without one otherwise. -/
theorem curbed (q : Call α) : Curbed P n q := by
  induction q using (wellFounded_calls P .unlimited).induction with
  | _ q ih =>
    cases q with
    | chain l c k =>
      rw [Curbed, Call.trace_eq, Nesting.curb_cons _ _ rfl, Call.run_chain P n,
        Call.run_chain P .unlimited, Call.inner]
      exact bind_curb (ih _ .first) fun left d hp => by simpa [Curbed] using ih _ (.tail hp)
    | tail l left c k => exact curbed_tail ih
    | factor c k => exact curbed_factor ih
    | primary c k => exact curbed_primary ih

end Grammar
end Reckoner
