import Reckoner.Proofs.Causes
import Reckoner.Proofs.Grammar.Trace

/-!
# The guard against deep nesting

A guard stops the reading of a text at the first factor that would be one too many open at a time,
and does nothing else. So a reading that no guard stops is the same under every greater guard, and a
text is never too deep for a guard that is as great as the text is long.
-/
namespace Reckoner

namespace Grammar

variable {α : Type} {P : Productions α} {n : Nesting}

def Call.depth : Call α → Depth
  | chain _ _ k | tail _ _ _ k | factor _ k | primary _ k => k

@[simp] theorem depth_operand (l : Chain) (c : Cursor) (k : Depth) :
    (l.operand c k : Call α).depth = k := by cases l <;> rfl

/-- A factor that is entered with input left as the `m`-th that is open. -/
def Call.opensFactor (m : Nat) : Call α → Bool
  | .factor c k => c.skipBlanks.peek?.isSome && k.inFactor.factors == m
  | _ => false

/-- No inner call is deeper than `d` unless the call itself is a factor that gets there. -/
theorem Calls.factors_le {q q' : Call α} {d : Nat} (h : Calls P n q q')
    (hq : q.depth.factors ≤ d) (hopen : q.opensFactor (d + 1) = false) :
    q'.depth.factors ≤ d := by
  have hfactor : ∀ {c : Cursor} {k : Depth} {ch : Char}, c.skipBlanks.peek? = some ch →
      (Call.factor c k : Call α).opensFactor (d + 1) = false → k.factors ≠ d := by
    intro c k ch hp ho
    simpa [Call.opensFactor, hp, Depth.inFactor] using ho
  cases h with
  | first =>
    rw [depth_operand]
    exact hq
  | tail => exact hq
  | operand =>
    rw [depth_operand]
    exact hq
  | more => exact hq
  | sign h _ =>
    obtain ⟨ch, hp, -⟩ := Option.bind_eq_some_iff.1 h
    exact Nat.lt_of_le_of_ne hq (hfactor hp hopen)
  | base hp _ _ => exact Nat.lt_of_le_of_ne hq (hfactor hp hopen)
  | exponent hp _ _ _ _ => exact Nat.lt_of_le_of_ne hq (hfactor hp hopen)
  | group => exact hq
  | argument => exact hq

end Grammar

namespace Nesting

open Grammar

variable {α : Type} {P : Productions α}

/-- A guard, and no other limit. -/
def guarded (d : Nat) : Nesting := ⟨d, none⟩

theorem refuses_guarded {d : Nat} (hd : 1 ≤ d) (k : Depth) :
    (guarded d).refuses k = decide (d < k.factors) := by
  have : d ≠ 0 := by omega
  simp [refuses, guarded, this]

theorem stops_eq_opensFactor {d : Nat} (hd : 1 ≤ d) {q : Call α} (hq : q.depth.factors ≤ d) :
    (guarded d).stops q = q.opensFactor (d + 1) := by
  cases q with
  | factor c k =>
    have hk : k.factors ≤ d := hq
    simp only [stops, Call.opensFactor, refuses_guarded hd, Depth.inFactor]
    congr 1
    rw [Bool.eq_iff_iff, decide_eq_true_eq, beq_iff_eq]
    omega
  | chain l c k => rfl
  | tail l left c k => rfl
  | primary c k => rfl

theorem find?_flatMap_congr {β γ : Type} {l : List β} {f : β → List γ} {p p' : γ → Bool}
    (h : ∀ b ∈ l, (f b).find? p = (f b).find? p') :
    (l.flatMap f).find? p = (l.flatMap f).find? p' := by
  induction l with
  | nil => rfl
  | cons b l ih =>
    rw [List.flatMap_cons, List.find?_append, List.find?_append, h b List.mem_cons_self,
      ih fun b' hb => h b' (List.mem_cons_of_mem b hb)]

/-- The first factor that a guard refuses is the first that is one too many. -/
theorem find?_stops_eq {d : Nat} (hd : 1 ≤ d) (q : Call α) (hq : q.depth.factors ≤ d) :
    (q.trace P .unlimited).find? (guarded d).stops =
      (q.trace P .unlimited).find? (Call.opensFactor (d + 1)) := by
  induction q using (wellFounded_calls P .unlimited).induction with
  | _ q ih =>
    rw [Call.trace_eq, List.find?_cons, List.find?_cons, stops_eq_opensFactor hd hq]
    cases ho : q.opensFactor (d + 1) with
    | true => rfl
    | false =>
      -- a call that is not one too many leads to none beyond `d`, where the two tests agree
      dsimp only
      refine find?_flatMap_congr fun q' h => ?_
      have hcalls := Call.calls_of_mem_inner h
      exact ih q' hcalls (hcalls.factors_le hq ho)

end Nesting

namespace Grammar

variable {α : Type} {P : Productions α} {n : Nesting}

/-- How many factors may still be opened at most, with those that are open. A primary stands inside
a factor, which has taken no character yet. -/
def Call.reach : Call α → Nat
  | primary c k => k.factors + c.rest.length
  | chain _ c k | tail _ _ c k | factor c k => k.factors + c.rest.length + 1

@[simp] theorem reach_operand (l : Chain) (c : Cursor) (k : Depth) :
    (l.operand c k : Call α).reach = k.factors + c.rest.length + 1 := by cases l <;> rfl

/-- Every factor beyond the first takes a character. -/
theorem Calls.reach_le {q q' : Call α} (h : Calls P n q q') : q'.reach ≤ q.reach := by
  cases h with
  | first => rw [reach_operand]; exact le_rfl
  | @tail l c k left d hp =>
    have := hp.length_lt
    rw [bound_operand] at this
    simp only [Call.reach]
    omega
  | operand hop =>
    have := next?_length_lt hop
    rw [reach_operand]
    simp only [Call.reach]
    omega
  | more hop hp _ =>
    have := next?_length_lt hop
    have := hp.length_lt
    rw [bound_operand] at this
    simp only [Call.reach]
    omega
  | sign h _ =>
    have := next?_length_lt h
    simp only [Call.reach, Depth.inFactor]
    omega
  | @base c k _ _ _ _ =>
    have := c.skipBlanks_length_le
    simp only [Call.reach, Depth.inFactor]
    omega
  | @exponent c k _ _ _ _ _ _ _ hb he =>
    have := c.skipBlanks_length_le
    have := hb.length_lt
    have := Cursor.accept_true_length_lt he
    simp only [Call.bound] at *
    simp only [Call.reach, Depth.inFactor]
    omega
  | group hp =>
    have := Cursor.drop_one_length_lt hp
    simp only [Call.reach, Depth.inGroup]
    omega
  | argument hi he =>
    have := Cursor.scanIdentifier_length_lt hi
    have := Cursor.accept_true_length_lt he
    simp only [Call.reach, Depth.inGroup]
    omega

theorem reach_le_of_mem_trace {q q' : Call α} (h : q' ∈ q.trace P n) : q'.reach ≤ q.reach := by
  replace h := Call.mem_trace_iff.1 h
  induction h with
  | refl => exact le_rfl
  | tail _ hcalls ih => exact hcalls.reach_le.trans ih

theorem find?_trace_self {p : Call α → Bool} {q : Call α} (h : p q = true) :
    (q.trace P n).find? p = some q := by
  rw [Call.trace_eq, List.find?_cons_of_pos h]

/-- What is found in the first inner call is found. -/
theorem find?_trace_inner {p : Call α → Bool} {q q' r : Call α} {rest : List (Call α)}
    (hq : p q = false) (hinner : q.inner P n = q' :: rest)
    (hr : (q'.trace P n).find? p = some r) : (q.trace P n).find? p = some r := by
  rw [Call.trace_eq, List.find?_cons_of_neg (by simp [hq]), hinner, List.flatMap_cons,
    List.find?_append, hr]
  rfl

/-- A guard that is as great as the characters left never stops a run. -/
theorem find?_stops_eq_none {d : Nat} (hd : 1 ≤ d) {q : Call α} (hq : q.reach ≤ d + 1) :
    (q.trace P .unlimited).find? (Nesting.guarded d).stops = none := by
  refine List.find?_eq_none.2 fun q' h hstops => ?_
  have hle := (reach_le_of_mem_trace h).trans hq
  cases q' with
  | factor c k =>
    obtain ⟨hp, hn⟩ := (Bool.and_eq_true _ _).mp hstops
    rw [Nesting.refuses_guarded hd, decide_eq_true_eq] at hn
    obtain ⟨ch, hch⟩ := Option.isSome_iff_exists.1 hp
    have := Cursor.drop_one_length_lt hch
    have := c.skipBlanks_length_le
    simp only [Call.reach, Depth.inFactor] at hle hn
    omega
  | chain l c k => cases hstops
  | tail l left c k => cases hstops
  | primary c k => cases hstops

end Grammar

/-! ## Who says that a text is too deep -/

/-- Of the productions that compute values only a function of the host says so. -/
theorem Context.exists_host {E : Elementary} {c : Context} {position : Nat} {limit : Int}
    (h : (c.productions E).Raises (.nestingTooDeep position limit)) :
    ∃ name run x, c.function? name = some (.host run) ∧
      run x = .error (.nestingTooDeep position limit) := by
  have hraises := raises_of_productions h
  generalize he : Failure.nestingTooDeep position limit = e at hraises
  cases hraises with
  | function _ => cases he
  | identifier _ => cases he
  | operator _ => cases he
  | @call name f x _ hf hx =>
    subst he
    obtain hnumeric | ⟨run, rfl, hrun⟩ := Callable.apply_error hx
    · cases hnumeric
    · exact ⟨name, run, x, hf, hrun⟩

namespace Reading

open Grammar

variable {α : Type} {P : Productions α} {full : Bool} {text : String} {d : Nat}

/-- A reading under a guard that zero switches off. -/
def guarded (d : Nat) (full : Bool) : Reading := ⟨.guarded d, full⟩

/-- What a guard of `d` does to the reading of a text. It stops the reading without a guard at the
first factor with input left that is the `d + 1`-th open one, and if there is none, both readings
compare by `Same`. -/
structure Guarded (P : Productions α) (full : Bool) (text : String) (d : Nat)
    (Same : Except Failure α → Except Failure α → Prop) : Prop where
  stops :
    match ((call text).trace P .unlimited).find? (Call.opensFactor (d + 1)) with
    | some q =>
      (guarded d full).run P text = .error (.nestingTooDeep q.cursor.skipBlanks.position d)
    | none => Same ((guarded d full).run P text) ((guarded 0 full).run P text)
  persists : (∀ position, (guarded d full).run P text ≠ .error (.nestingTooDeep position d)) →
    ∀ m, m = 0 ∨ d ≤ m → (guarded m full).run P text = (guarded d full).run P text
  ample : text.length ≤ d → Same ((guarded d full).run P text) ((guarded 0 full).run P text)

/-- Values and failures that are the same, but for the limit which is reported of a function that
uses up the stack: a guard of `d`, or none. -/
inductive Alike (c : Context) (text : String) (d : Nat) :
    Except Failure Float → Except Failure Float → Prop
  | same (x) : Alike c text d x x
  | exhausted {p e} : c.ExhaustedAt text p e →
    Alike c text d (.error (.nestingTooDeep p d)) (.error (.nestingTooDeep p 0))

/-- What a reading comes to that nothing stops, where calls are reported with a limit. -/
def unstopped (P : Productions α) (full : Bool) (text : String) (limit : Int) :
    Except Failure α :=
  ((call text).run (P.reporting limit) .unlimited).bind fun x =>
    (⟨.unlimited, full⟩ : Reading).finish x.1 x.2

/-- A reading is the one that nothing stops, curbed along its trace. -/
theorem run_eq_curb (r : Reading) : r.run P text =
    r.nesting.curb ((call text).trace P .unlimited)
      (unstopped P r.full text r.nesting.guard) := by
  have hcurbed : Curbed (P.reporting r.nesting.guard) r.nesting (call text) := curbed _
  rw [run_eq, hcurbed, Nesting.curb_bind, Call.trace_reporting]
  rfl

/-- The limit that is reported makes a difference only where a call uses up the stack. -/
theorem unstopped_cases (hP : P.ExhaustsInCalls) (full : Bool) (text : String) :
    (∃ x, ∀ limit, unstopped P full text limit = x) ∨
      ∃ p e, P.ExhaustedAt text p e ∧
        ∀ limit, unstopped P full text limit = .error (.nestingTooDeep p limit) := by
  obtain ⟨a, b, hp⟩ | ⟨e, hf⟩ := settles P .unlimited (call text)
  · exact .inl ⟨_, fun limit => by rw [unstopped, (parses_reporting_iff.2 hp).run]⟩
  · cases he : e.exhausts with
    | false => exact .inl ⟨_, fun limit => by rw [unstopped, (hf.reporting he limit).run]⟩
    | true =>
      obtain ⟨p, hp, hreported⟩ := hf.exhausted hP he (ahead_call text)
      exact .inr ⟨p, e, hp, fun limit => by rw [unstopped, (hreported limit).run]; rfl⟩

/-- Without a guard nothing stops a reading. -/
theorem run_unguarded : (guarded 0 full).run P text = unstopped P full text 0 := by
  rw [run_eq]
  rfl

/-- A guard that stops nothing is only reported. -/
theorem run_guarded_eq
    (h : ((call text).trace P .unlimited).find? (Nesting.guarded d).stops = none) :
    (guarded d full).run P text = unstopped P full text d := by
  have hrun : (guarded d full).run P text = _ := run_eq_curb (guarded d full)
  rw [Nesting.curb, guarded, h] at hrun
  exact hrun

/-- A greater guard stops less. -/
theorem find?_stops_mono {m : Nat} (hd : 1 ≤ d) (hm : d ≤ m) {ts : List (Call α)}
    (h : ts.find? (Nesting.guarded d).stops = none) :
    ts.find? (Nesting.guarded m).stops = none := by
  refine List.find?_eq_none.2 fun q hq hstops => List.find?_eq_none.1 h q hq ?_
  cases q with
  | factor c k =>
    simp only [Nesting.stops, Nesting.refuses_guarded hd, Bool.and_eq_true,
      Nesting.refuses_guarded (hd.trans hm), decide_eq_true_eq] at hstops ⊢
    exact ⟨hstops.1, by omega⟩
  | chain l c k => cases hstops
  | tail l left c k => cases hstops
  | primary c k => cases hstops

/-- A guard as great as the text is long stops nothing. -/
theorem find?_stops_call (hd : 1 ≤ d) (h : text.length ≤ d) :
    ((call text : Call α).trace P .unlimited).find? (Nesting.guarded d).stops = none := by
  refine find?_stops_eq_none hd ?_
  have hreach : (call text : Call α).reach = text.length + 1 := by
    simp [Call.reach, Cursor.length_ofText]
  omega

/-- A reading that does not end in a report of the guard is the same under every greater one, and
under none. -/
theorem run_persists (hP : P.ExhaustsInCalls) (hd : 1 ≤ d)
    (h : ∀ position, (guarded d full).run P text ≠ .error (.nestingTooDeep position d)) {m : Nat}
    (hm : m = 0 ∨ d ≤ m) : (guarded m full).run P text = (guarded d full).run P text := by
  have hnone : ((call text).trace P .unlimited).find? (Nesting.guarded d).stops = none := by
    cases hfind : ((call text).trace P .unlimited).find? (Nesting.guarded d).stops with
    | none => rfl
    | some q =>
      refine absurd ?_ (h q.cursor.skipBlanks.position)
      rw [run_eq_curb, Nesting.curb, guarded, hfind]
      rfl
  have hrun : (guarded m full).run P text = unstopped P full text m := by
    rcases hm with rfl | hm
    · exact run_unguarded
    · exact run_guarded_eq (find?_stops_mono hd hm hnone)
  rw [run_guarded_eq hnone] at h ⊢
  rw [hrun]
  obtain ⟨x, hx⟩ | ⟨p, e, -, hexhausted⟩ := unstopped_cases hP full text
  · rw [hx, hx]
  · exact absurd (hexhausted d) (h p)

/-- The guard is exact, as far as readings compare that nothing stops. -/
theorem guarded_of_pos (hP : P.ExhaustsInCalls) (full : Bool) (text : String) (hd : 1 ≤ d)
    {Same : Except Failure α → Except Failure α → Prop}
    (hsame : Same (unstopped P full text d) (unstopped P full text 0)) :
    Guarded P full text d Same where
  stops := by
    have hroot : (call text : Call α).depth.factors ≤ d := Nat.zero_le d
    rw [← Nesting.find?_stops_eq hd _ hroot]
    split
    · rename_i q hfind
      rw [run_eq_curb, Nesting.curb, guarded, hfind]
      rfl
    · rename_i hfind
      rwa [run_guarded_eq hfind, run_unguarded]
  persists h m hm := run_persists hP hd h hm
  ample h := by rwa [run_guarded_eq (find?_stops_call hd h), run_unguarded]

theorem alike_unstopped (E : Elementary) (c : Context) (full : Bool) (text : String) (d : Nat) :
    Alike c text d (unstopped (c.productions E) full text d)
      (unstopped (c.productions E) full text 0) := by
  obtain ⟨x, hx⟩ | ⟨p, e, hp, hexhausted⟩ :=
    unstopped_cases (c.exhaustsInCalls E) full text
  · rw [hx, hx]
    exact .same x
  · rw [hexhausted, hexhausted]
    exact .exhausted (Context.exhaustedAt_of_productions hp)

theorem Alike.eq_of_keepsStack {c : Context} {x y : Except Failure Float} (h : Alike c text d x y)
    (hc : c.KeepsStack) : x = y := by
  cases h with
  | same => rfl
  | exhausted hp => exact absurd hp hc.not_exhaustedAt

/-- Where nothing stops a reading, only the productions can say that a text is too deep. -/
theorem raises_of_unstopped (hP : P.ExhaustsInCalls) {limit : Int} {e : Failure}
    (h : unstopped P full text limit = .error e) (he : e.isSyntax = false) :
    P.Raises e ∨ ∃ p e₀, P.ExhaustedAt text p e₀ ∧ e = .nestingTooDeep p limit := by
  unfold unstopped at h
  cases hrun : (call text).run (P.reporting limit) .unlimited with
  | ok x =>
    rw [hrun] at h
    simp [isSyntax_of_finish h] at he
  | error e' =>
    rw [hrun] at h
    cases h
    obtain ⟨e₀, hf, ⟨-, rfl⟩ | ⟨p, hp, rfl⟩⟩ :=
      (Grammar.run_eq_error_iff.1 hrun).of_reporting hP (ahead_call text)
    · left
      cases hf.cause with
      | text hsyntax => simp [he] at hsyntax
      | depth _ hn => cases hn
      | production hraises => exact hraises
    · exact .inr ⟨p, e₀, hp, rfl⟩

/-- The guard is exact: it stops a reading at the first factor that is too deep, and at nothing
else. What it leaves alone comes to the same, but for the limit that is reported where a function of
the host uses up the stack. A guard as great as the text is long stops nothing; then a tree never is
too deep, and a value only where a function of the host says so or uses up the stack. -/
theorem run_guarded (E : Elementary) (c : Context) (full : Bool) (text : String) (d : Nat)
    (hd : 1 ≤ d) :
    Guarded (c.productions E) full text d (Alike c text d) ∧
      (c.KeepsStack → Guarded (c.productions E) full text d Eq) ∧
      Guarded Expr.productions full text d Eq ∧
      (text.length ≤ d →
        (∀ position limit,
          (guarded d full).parse text ≠ .error (.nestingTooDeep position limit)) ∧
        ∀ position limit,
          (guarded d full).evaluate E c text = .error (.nestingTooDeep position limit) →
          (∃ name run x, c.function? name = some (.host run) ∧
            run x = .error (.nestingTooDeep position limit)) ∨
          limit = d ∧ ∃ e, c.ExhaustedAt text position e) := by
  have hvalue := alike_unstopped E c full text d
  refine ⟨guarded_of_pos (c.exhaustsInCalls E) full text hd hvalue,
    fun hc => guarded_of_pos (c.exhaustsInCalls E) full text hd (hvalue.eq_of_keepsStack hc),
    guarded_of_pos Expr.exhaustsInCalls full text hd rfl,
    fun hlength => ⟨fun position limit h => ?_, fun position limit h => ?_⟩⟩
  · rw [parse, run_guarded_eq (find?_stops_call hd hlength)] at h
    obtain hraises | ⟨p, e, hp, -⟩ := raises_of_unstopped Expr.exhaustsInCalls h rfl
    · exact Expr.not_raises hraises
    · exact Expr.not_exhaustedAt hp
  · rw [evaluate, run_guarded_eq (find?_stops_call hd hlength)] at h
    obtain hraises | ⟨p, e, hp, heq⟩ := raises_of_unstopped (c.exhaustsInCalls E) h rfl
    · exact .inl (Context.exists_host hraises)
    · cases heq
      exact .inr ⟨rfl, e, Context.exhaustedAt_of_productions hp⟩

/-- The second sign opens the second factor. -/
theorem run_guarded_signs :
    (guarded 1 true).parse "--1" = .error (.nestingTooDeep 1 1) := by
  have hstops :=
    (run_guarded Elementary.native .standard true "--1" 1 (by decide)).2.2.1.stops
  rw [find?_trace_inner (by rfl) (by rfl) (find?_trace_inner (by rfl) (by rfl)
    (find?_trace_inner (by rfl) (by rfl) (find?_trace_self (by rfl))))] at hstops
  exact hstops

/-- A function that uses up the stack makes a text too deep whose factors are not: no factor is the
101st that is open, and the guard is as great as the text is long. Without the guard another limit
is reported. -/
theorem run_guarded_exhausted :
    (∀ q ∈ (call "f(0)").trace (Context.exhausting.productions .native) .unlimited,
        q.opensFactor 101 = false) ∧
      (guarded 100 true).evaluate .native .exhausting "f(0)" = .error (.nestingTooDeep 4 100) ∧
      (guarded 0 true).evaluate .native .exhausting "f(0)" = .error (.nestingTooDeep 4 0) := by
  have hnone : ((call "f(0)").trace (Context.exhausting.productions .native) .unlimited).find?
      (Nesting.guarded 100).stops = none := find?_stops_call (by decide) (by decide)
  rw [Nesting.find?_stops_eq (by decide) _ (Nat.zero_le _)] at hnone
  refine ⟨fun q hq => ?_, evaluate_exhausting (n := .guarded 100) rfl rfl,
    evaluate_exhausting (n := .guarded 0) rfl rfl⟩
  simpa using List.find?_eq_none.1 hnone q hq

end Reading
end Reckoner
