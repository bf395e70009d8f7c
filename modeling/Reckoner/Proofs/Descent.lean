import Reckoner.Proofs.Acceptance
import Reckoner.Proofs.Grammar.Lexemes
import Reckoner.Proofs.Grammar.Operations

/-!
# Progress and end of the descent

A run enters calls in proportion to what is left of the text: a call makes a second one only after
the first has taken something, and that pays for both. Main statement: every run from a cursor in a
text comes to an end, moves the cursor neither back nor out of the text, and each production that
returns has taken something. So a tree has no more nodes than its text has characters other than
blanks.
-/
namespace Reckoner

namespace Grammar

open Cursor (Operation after)

variable {α : Type} (P : Productions α) (n : Nesting)

namespace Call

/-- The calls from a call down to a primary, with one for the rest of each chain. -/
def share : Call α → ℕ
  | chain .sum .. => 6
  | chain .product .. => 4
  | factor .. => 2
  | tail .. | primary .. => 1

/-- A bound on the calls that a run enters: a character opens a whole expression at most. -/
def budget (q : Call α) : ℕ := 6 * q.cursor.rest.length + q.share

theorem share_pos (q : Call α) : 0 < q.share := by
  rcases q with (⟨_ | _, _, _⟩ | _ | _ | _) <;> simp [share]

theorem share_le (q : Call α) : q.share ≤ 6 := by
  rcases q with (⟨_ | _, _, _⟩ | _ | _ | _) <;> simp [share]

theorem budget_pos (q : Call α) : 0 < q.budget := Nat.add_pos_right _ q.share_pos

theorem budget_chain (l : Chain) (c : Cursor) (k : Depth) :
    (chain l c k : Call α).budget = (l.operand c k : Call α).budget + 2 := by cases l <;> rfl

theorem budget_tail (l : Chain) (left : α) (c : Cursor) (k : Depth) :
    (tail l left c k).budget = 6 * c.rest.length + 1 := rfl

theorem budget_operand_le (l : Chain) (c : Cursor) (k : Depth) :
    (l.operand c k : Call α).budget ≤ 6 * c.rest.length + 4 := by
  cases l <;> simp [Chain.operand, budget, share, cursor]

theorem budget_factor (c : Cursor) (k : Depth) :
    (factor c k : Call α).budget = 6 * c.rest.length + 2 := rfl

theorem budget_primary (c : Cursor) (k : Depth) :
    (primary c k : Call α).budget = 6 * c.rest.length + 1 := rfl

theorem budget_expression (c : Cursor) (k : Depth) :
    (expression c k : Call α).budget = 6 * c.rest.length + 6 := rfl

variable {P n} {q first second : Call α}

theorem length_trace_of_none (h : q.inner P n = []) : (q.trace P n).length = 1 := by
  rw [trace_eq, h]
  rfl

theorem length_trace_of_one (h : q.inner P n = [first]) :
    (q.trace P n).length = (first.trace P n).length + 1 := by
  rw [trace_eq, h, List.length_cons, List.flatMap_singleton]

theorem length_trace_of_two (h : q.inner P n = [first, second]) :
    (q.trace P n).length = (first.trace P n).length + (second.trace P n).length + 1 := by
  rw [trace_eq, h, List.length_cons, List.flatMap_cons, List.flatMap_singleton, List.length_append]

end Call

/-! ## How many calls a run enters -/

variable {P n}

/-- A call that returns has entered six calls for each character that it has taken, at most, and
some more that depend on the production. -/
theorem Parses.length_trace_le {q : Call α} {a : α} {d : Cursor} (h : Parses P n q a d) :
    (q.trace P n).length + 6 * d.rest.length ≤ q.budget := by
  induction h with
  | chain h₁ _ ih₁ ih₂ =>
    rw [Call.budget_tail] at ih₂
    rw [Call.length_trace_of_two (Call.inner_chain h₁), Call.budget_chain]
    omega
  | @last l left c k h =>
    have := c.skipBlanks_length_le
    rw [Call.length_trace_of_none (by simp [Call.inner, h]), Call.budget_tail]
    omega
  | more h h₁ hb _ ih₁ ih₂ =>
    have := next?_length_lt h
    have := ih₁.trans (Call.budget_operand_le ..)
    rw [Call.budget_tail] at ih₂ ⊢
    rw [Call.length_trace_of_two (Call.inner_more h h₁ hb)]
    omega
  | sign h hn _ _ ih =>
    have := next?_length_lt h
    rw [Call.budget_factor] at ih ⊢
    rw [Call.length_trace_of_one (Call.inner_sign h hn)]
    omega
  | @base c _ _ _ _ _ hp hs hn h₁ ha ih =>
    have := c.skipBlanks_length_le
    have := Cursor.accept_false_length_le ha
    rw [Call.budget_primary] at ih
    rw [Call.length_trace_of_one (Call.inner_base hp hs hn h₁ ha), Call.budget_factor]
    omega
  | @power c _ _ _ _ _ _ _ _ hp hs hn h₁ ha _ _ ih₁ ih₂ =>
    have := c.skipBlanks_length_le
    have := Cursor.accept_true_length_lt ha
    rw [Call.budget_primary] at ih₁
    rw [Call.budget_factor] at ih₂ ⊢
    rw [Call.length_trace_of_two (Call.inner_power hp hs hn h₁ ha)]
    omega
  | group hp _ ha ih =>
    have := Cursor.drop_one_length_lt hp
    have := Cursor.accept_true_length_lt ha
    rw [Call.budget_expression] at ih
    rw [Call.length_trace_of_one (Call.inner_group hp), Call.budget_primary]
    omega
  | constant hi ha _ =>
    have := Cursor.scanIdentifier_length_lt hi
    have := Cursor.accept_false_length_le ha
    rw [Call.length_trace_of_none (Call.inner_constant hi ha), Call.budget_primary]
    omega
  | call hi ha _ hb _ ih =>
    have := Cursor.scanIdentifier_length_lt hi
    have := Cursor.accept_true_length_lt ha
    have := Cursor.accept_true_length_lt hb
    rw [Call.budget_expression] at ih
    rw [Call.length_trace_of_one (Call.inner_argument hi ha), Call.budget_primary]
    omega
  | number hi hs =>
    have := Cursor.scanNumber_length_lt hs
    rw [Call.length_trace_of_none (Call.inner_number hi hs), Call.budget_primary]
    omega

theorem Calls.budget_lt {q q' : Call α} (h : Calls P n q q') : q'.budget < q.budget := by
  cases h with
  | first =>
    rw [Call.budget_chain]
    omega
  | @tail l c k left d h₁ =>
    have hlt := h₁.length_lt
    rw [bound_operand] at hlt
    rw [Call.budget_tail, Call.budget]
    simp only [Call.cursor]
    omega
  | @operand l left c k op h =>
    have := next?_length_lt h
    have := Call.budget_operand_le (α := α) l (c.skipBlanks.drop 1) k
    rw [Call.budget_tail]
    omega
  | more h h₁ _ =>
    have := next?_length_lt h
    have hlt := h₁.length_lt
    rw [bound_operand] at hlt
    rw [Call.budget_tail, Call.budget_tail]
    omega
  | sign h _ =>
    have := next?_length_lt h
    rw [Call.budget_factor, Call.budget_factor]
    omega
  | @base c _ _ _ _ _ =>
    have := c.skipBlanks_length_le
    rw [Call.budget_primary, Call.budget_factor]
    omega
  | @exponent c _ _ _ _ _ _ _ _ h₁ ha =>
    have := c.skipBlanks_length_le
    have hlt := h₁.length_lt
    have := Cursor.accept_true_length_lt ha
    simp only [Call.bound] at hlt
    rw [Call.budget_factor, Call.budget_factor]
    omega
  | group hp =>
    have := Cursor.drop_one_length_lt hp
    rw [Call.budget_expression, Call.budget_primary]
    omega
  | argument hi ha =>
    have := Cursor.scanIdentifier_length_lt hi
    have := Cursor.accept_true_length_lt ha
    rw [Call.budget_expression, Call.budget_primary]
    omega

namespace Call

variable (P n)

/-- A call that makes at most two others, and the second one only after the first has returned. What
the first has taken pays for both. -/
inductive Frugal (q : Call α) : Prop
  | none : q.inner P n = [] → Frugal q
  | one {first} : q.inner P n = [first] → Frugal q
  | two {first second a d} : q.inner P n = [first, second] → Parses P n first a d →
      first.budget + second.budget < q.budget + 6 * d.rest.length → Frugal q

variable {P n}

theorem frugal_chain (l : Chain) (c : Cursor) (k : Depth) :
    (chain l c k : Call α).Frugal P n := by
  cases hrun : (l.operand c k).run P n with
  | error e =>
    have h : (chain l c k).inner P n = [l.operand c k] := by simp only [inner, whenDone, hrun]
    exact .one h
  | ok r =>
    have h₁ := run_eq_ok_iff.1 hrun
    refine .two (inner_chain h₁) h₁ ?_
    rw [budget_tail, budget_chain]
    omega

theorem frugal_tail (l : Chain) (left : α) (c : Cursor) (k : Depth) :
    (tail l left c k).Frugal P n := by
  cases hop : next? l.read c with
  | none => exact .none (by simp only [inner, hop])
  | some op =>
    cases hrun : (l.operand (c.skipBlanks.drop 1) k).run P n with
    | error e =>
      have h : (tail l left c k).inner P n = [l.operand (c.skipBlanks.drop 1) k] := by
        simp only [inner, hop, whenDone, hrun]
      exact .one h
    | ok r =>
      cases hb : P.binary op left r.1 with
      | error e =>
        have h : (tail l left c k).inner P n = [l.operand (c.skipBlanks.drop 1) k] := by
          simp only [inner, hop, whenDone, hrun, hb]
        exact .one h
      | ok result =>
        have h₁ := run_eq_ok_iff.1 hrun
        have := next?_length_lt hop
        have := budget_operand_le (α := α) l (c.skipBlanks.drop 1) k
        refine .two (inner_more hop h₁ hb) h₁ ?_
        rw [budget_tail, budget_tail]
        omega

theorem frugal_factor (c : Cursor) (k : Depth) : (factor c k : Call α).Frugal P n := by
  cases hp : c.skipBlanks.peek? with
  | none => exact .none (by simp only [inner, hp])
  | some ch =>
    cases hn : n.refuses k.inFactor with
    | true => exact .none (by simp [inner, hp, hn])
    | false =>
      cases hs : Sign.ofChar? ch with
      | some s => exact .one (inner_sign (s := s) (by simp [next?, hp, hs]) hn)
      | none =>
        cases hrun : (primary c.skipBlanks k.inFactor).run P n with
        | error e =>
          have h : (factor c k).inner P n = [primary c.skipBlanks k.inFactor] := by
            simp [inner, hp, hn, hs, whenDone, hrun]
          exact .one h
        | ok r =>
          have h₁ := run_eq_ok_iff.1 hrun
          rcases ha : r.2.accept (some '^') with ⟨_ | _, e⟩
          · exact .one (inner_base hp hs hn h₁ ha)
          · have := c.skipBlanks_length_le
            have := Cursor.accept_true_length_lt ha
            refine .two (inner_power hp hs hn h₁ ha) h₁ ?_
            rw [budget_primary, budget_factor, budget_factor]
            omega

theorem frugal_primary (c : Cursor) (k : Depth) : (primary c k : Call α).Frugal P n := by
  by_cases hp : c.peek? = some '('
  · exact .one (inner_group hp)
  cases hi : c.scanIdentifier with
  | none => exact .none (by simp [inner, hp, hi])
  | some r =>
    rcases ha : r.2.accept (some '(') with ⟨_ | _, e⟩
    · exact .none (inner_constant hi ha)
    · exact .one (inner_argument hi ha)

theorem frugal (q : Call α) : q.Frugal P n := by
  cases q with
  | chain l c k => exact frugal_chain l c k
  | tail l left c k => exact frugal_tail l left c k
  | factor c k => exact frugal_factor c k
  | primary c k => exact frugal_primary c k

/-- A run enters six calls for each character that is left, at most, and some more that depend on
the production. -/
theorem length_trace_le (q : Call α) : (q.trace P n).length ≤ q.budget := by
  induction q using (wellFounded_calls P n).induction with
  | _ q ih =>
    cases q.frugal (P := P) (n := n) with
    | none h =>
      rw [length_trace_of_none h]
      exact q.budget_pos
    | @one first h =>
      have hcalls : Calls P n q first := calls_of_mem_inner (by simp [h])
      rw [length_trace_of_one h]
      exact (ih first hcalls).trans_lt hcalls.budget_lt
    | @two first second a d h h₁ hlt =>
      -- what the first call has taken is not left to the second
      have hfirst := h₁.length_trace_le
      have hsecond := ih second (calls_of_mem_inner (by simp [h]))
      rw [length_trace_of_two h]
      omega

end Call

/-! ## How far calls move on -/

variable {text : String} {c d : Cursor} {k : Depth}

/-- A production that returns has taken a phrase, which is not empty. -/
theorem Parses.moves_on {l : Level} {a : α} (h : Parses P n (l.call c k) a d)
    (hc : Cursor.Within text c) : c.position < d.position ∧ d.position ≤ text.length := by
  obtain ⟨s, -, hpasses⟩ := h.phrased
  have hshorter : d.rest.length < c.rest.length := by
    have hlt := h.length_lt
    cases l <;> exact hlt
  have hlength := congrArg List.length hpasses.rest
  rw [List.length_append] at hlength
  have hposition := hpasses.position
  exact ⟨by omega, (hc.passes hpasses).le_length⟩

/-- What the rest of a chain calls starts behind an operator. -/
theorem Calls.exists_operator {l : Chain} {left : α} {q : Call α}
    (h : Calls P n (.tail l left c k) q) :
    ∃ bs ch s, Blanks bs ∧ ch ∈ l.symbols ∧ c.Passes (bs ++ ch :: s) q.cursor := by
  cases h with
  | operand h =>
    obtain ⟨ch, bs, hread, hb, hpasses⟩ := exists_passes_of_next? h
    rw [cursor_operand]
    exact ⟨bs, ch, [], hb, Chain.mem_symbols_of_read hread, hpasses⟩
  | more h h₁ _ =>
    obtain ⟨ch, bs, hread, hb, hpasses⟩ := exists_passes_of_next? h
    obtain ⟨s, -, hoperand⟩ := h₁.phrased_operand
    refine ⟨bs, ch, s, hb, Chain.mem_symbols_of_read hread, ?_⟩
    simpa [Call.cursor] using hpasses.trans hoperand

/-! ## How many nodes a tree has -/

theorem Phrase.size_tree_le {l : Level} (p : Phrase l) : p.tree.size ≤ p.tokens.length := by
  induction p with
  | operand _ ih | base _ ih => exact ih
  | join _ _ _ ih₁ ih₂ | power _ _ ih₁ ih₂ =>
    simp only [tree, tokens, Expr.size, List.length_append, List.length_cons]
    omega
  | sign _ _ ih | group _ ih | call _ _ ih =>
    simp only [tree, tokens, Expr.size, List.length_append, List.length_cons]
    omega
  | constant _ | number _ => exact Nat.le_refl 1

theorem Spells.length_le {ts : List Token} {cs : List Char} (h : Spells ts cs) :
    ts.length ≤ cs.length := by
  induction h with
  | blanks _ => exact Nat.zero_le _
  | @token bs t ts cs _ _ ih =>
    have := List.length_pos_iff.2 t.chars_ne_nil
    simp only [List.length_cons, List.length_append]
    omega

/-- Each node has a token of its own, and each token a character that is not a blank. -/
theorem size_le_of_parse {r : Reading} {t : Expr} (h : r.parse text = .ok t) :
    t.size ≤ (text.toList.filter fun c => !isBlank c).length := by
  obtain ⟨p, s, rest, hs, rfl, -, htext, -⟩ := Reading.exists_phrase h
  have hfilter := (p.lexical.spells_filter hs).length_le
  rw [htext, List.filter_append, List.length_append]
  exact p.size_tree_le.trans (hfilter.trans (Nat.le_add_right _ _))

/-! ## Runs in a text -/

theorem cursor_call (l : Level) (c : Cursor) (k : Depth) :
    (l.call c k : Call α).cursor = c := by cases l <;> rfl

theorem Call.Reaches.within {q q' : Call α} (h : q.Reaches P n q')
    (hq : Cursor.Within text q.cursor) : Cursor.Within text q'.cursor := by
  obtain ⟨os, -, hafter⟩ := h
  exact hafter ▸ hq.passes (Cursor.passes_after os q.cursor)

variable (P n text)

/-- A run that comes to an end and only moves on in a text. -/
structure Descends (q : Call α) : Prop where
  settles : Settles P n q
  /-- No calls go on for ever. -/
  accessible : Acc (fun q₂ q₁ => Calls P n q₁ q₂) q
  length_trace_le : (q.trace P n).length ≤ 6 * q.cursor.rest.length + 6
  /-- The cursor is never moved back, -/
  forward : (Cursor.positions (q.operations P n) q.cursor).Pairwise (· ≤ ·)
  /-- nor out of the text. -/
  sound : ∀ s ∈ Cursor.steps (q.operations P n) q.cursor, s.Sound text
  /-- The operations lead to each call that is entered, -/
  reaches : ∀ q' ∈ q.trace P n, q.Reaches P n q'
  /-- and to where it returns; -/
  leads : ∀ q' ∈ q.trace P n, ∀ a d, q'.run P n = .ok (a, d) →
    after (q'.operations P n) q'.cursor = d
  /-- if it fails, there are no more of them. -/
  stops : ∀ q₁ ∈ q.trace P n, ∀ q₂ e, Calls P n q₁ q₂ → q₂.run P n = .error e →
    q₂.operations P n <:+ q₁.operations P n
  moves_on : ∀ (l : Level) c k a d, l.call c k ∈ q.trace P n →
    (l.call c k).run P n = .ok (a, d) → c.position < d.position ∧ d.position ≤ text.length
  /-- Each round of a chain takes an operator before it calls anything. -/
  rounds : ∀ l left c k q', .tail l left c k ∈ q.trace P n → Calls P n (.tail l left c k) q' →
    ∃ bs ch s, Blanks bs ∧ ch ∈ l.symbols ∧ c.Passes (bs ++ ch :: s) q'.cursor

/-- From any cursor in a text, every production comes to an end and only moves on, whatever limit
there is on nesting. A tree that is read has no more nodes than the text has characters other than
blanks. -/
theorem runs_move_on :
    (∀ q : Call α, Cursor.Within text q.cursor → Descends P n text q) ∧
      ∀ (r : Reading) t, r.parse text = .ok t →
        t.size ≤ (text.toList.filter fun c => !isBlank c).length := by
  refine ⟨fun q hq => ?_, fun r t h => size_le_of_parse h⟩
  have hreaches : ∀ q' ∈ q.trace P n, q.Reaches P n q' := fun q' h => Call.reaches_of_mem_trace h
  have hlength := q.length_trace_le (P := P) (n := n)
  have hshare := q.share_le
  exact {
    settles := settles P n q
    accessible := (wellFounded_calls P n).apply q
    length_trace_le := by
      rw [Call.budget] at hlength
      omega
    forward := Cursor.positions_pairwise _ _
    sound := hq.sound_steps _
    reaches := hreaches
    leads := fun q' _ a d h => (run_eq_ok_iff.1 h).after_operations
    stops := fun q₁ _ q₂ e hcalls h => hcalls.suffix_of_fails (run_eq_error_iff.1 h)
    moves_on := fun l c k a d hmem h => by
      have hc := (hreaches _ hmem).within hq
      rw [cursor_call] at hc
      exact (run_eq_ok_iff.1 h).moves_on hc
    rounds := fun l left c k q' _ h => h.exists_operator }

/-- A sign before a group gives two nodes for four characters. -/
theorem runs_move_on_group :
    let q : Call Expr := Reading.call "- (e)"
    Cursor.Within "- (e)" q.cursor ∧ Descends Expr.productions .unlimited "- (e)" q ∧
      (⟨.unlimited, true⟩ : Reading).parse "- (e)" = .ok (.unary "-" (.constant "e")) ∧
      (.unary "-" (.constant "e") : Expr).size ≤ 4 := by
  intro q
  have hq : Cursor.Within "- (e)" q.cursor := Cursor.within_ofText (by decide)
  have hname : Parses Expr.productions .unlimited (.expression ⟨3, ['e', ')']⟩ ⟨2, 1⟩)
      (.constant "e") ⟨4, [')']⟩ :=
    .chain (.chain (.base rfl rfl rfl (.constant rfl rfl rfl) rfl) (.last rfl)) (.last rfl)
  have hsign : Parses Expr.productions .unlimited q (.unary "-" (.constant "e")) ⟨5, []⟩ :=
    .chain (.chain (.sign rfl rfl (.base rfl rfl rfl (.group rfl hname rfl) rfl) rfl) (.last rfl))
      (.last rfl)
  have hparse : (⟨.unlimited, true⟩ : Reading).parse "- (e)" =
      .ok (.unary "-" (.constant "e")) := Reading.run_eq_ok_iff.2 ⟨_, hsign, fun _ => rfl⟩
  obtain ⟨hruns, hsize⟩ := runs_move_on Expr.productions .unlimited "- (e)"
  exact ⟨hq, hruns q hq, hparse, hsize _ _ hparse⟩

end Grammar
end Reckoner
