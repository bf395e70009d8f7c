import Reckoner.Expr
import Reckoner.Proofs.Grammar.Progress
import Reckoner.Proofs.Scanning

/-!
# Texts cut short

A call that has returned does so too when the text ends earlier, as long as nothing is missing
that it has taken: what it looked at behind that only told it to stop.
-/
namespace Reckoner

/-- What stops a run also does so where less is left behind it. -/
theorem Stops.take {p : Char → Bool} {cs : List Char} (h : Stops p cs) (n : Nat) :
    Stops p (cs.take n) := by
  intro c hc
  rw [List.head?_take] at hc
  split at hc
  · cases hc
  · exact h c hc

namespace Cursor

/-- The cursor in a text whose last `m` characters are missing. -/
def cut (m : Nat) (c : Cursor) : Cursor := ⟨c.position, c.rest.take (c.rest.length - m)⟩

variable {m : Nat} {c d : Cursor}

theorem cut_drop (m k : Nat) (c : Cursor) : (c.drop k).cut m = (c.cut m).drop k := by
  simp only [cut, drop, List.drop_take, List.length_drop, Nat.sub_right_comm]

theorem peek?_cut (h : m < c.rest.length) : (c.cut m).peek? = c.peek? := by
  simp only [peek?, cut, List.head?_take]
  rw [if_neg (by omega)]

/-- Nothing else comes next than before. -/
theorem peek?_of_cut {ch : Char} (h : (c.cut m).peek? = some ch) : c.peek? = some ch := by
  simp only [peek?, cut, List.head?_take] at h
  split at h
  · cases h
  · exact h

theorem takeWhile_take {p : Char → Bool} {cs : List Char} {n : Nat}
    (h : (cs.takeWhile p).length ≤ n) : (cs.take n).takeWhile p = cs.takeWhile p := by
  rw [← List.take_takeWhile, List.take_of_length_le h]

theorem skipBlanks_cut (h : m ≤ c.skipBlanks.rest.length) :
    (c.cut m).skipBlanks = c.skipBlanks.cut m := by
  have hle : (c.rest.takeWhile isBlank).length ≤ c.rest.length :=
    (List.takeWhile_prefix _).length_le
  simp only [skipBlanks, drop_rest, List.length_drop] at h
  have hrest : (c.cut m).rest = c.rest.take (c.rest.length - m) := rfl
  rw [skipBlanks, skipBlanks, cut_drop, hrest, takeWhile_take (by omega)]

theorem accept_true_cut {ch : Char} (h : c.accept (some ch) = (true, d))
    (hm : m ≤ d.rest.length) : (c.cut m).accept (some ch) = (true, d.cut m) := by
  unfold accept at h
  split at h
  · rename_i hp
    obtain rfl : c.skipBlanks.drop 1 = d := congrArg Prod.snd h
    have hlt := drop_one_length_lt hp
    rw [accept, skipBlanks_cut (by omega), peek?_cut (by omega), if_pos hp, cut_drop]
  · cases h

theorem accept_false_cut {ch : Char} (h : c.accept (some ch) = (false, d))
    (hm : m ≤ d.rest.length) : (c.cut m).accept (some ch) = (false, d.cut m) := by
  unfold accept at h
  split at h
  · cases h
  · rename_i hp
    obtain rfl : c.skipBlanks = d := congrArg Prod.snd h
    rw [accept, skipBlanks_cut hm, if_neg fun hc => hp (peek?_of_cut hc)]

theorem scanIdentifier_cut {name : String} (h : c.scanIdentifier = some (name, d))
    (hm : m ≤ d.rest.length) : (c.cut m).scanIdentifier = some (name, d.cut m) := by
  unfold scanIdentifier at h
  split at h
  · cases h
  · rename_i ch cs hr
    split at h
    · rename_i ha
      simp only [Option.some.injEq, Prod.mk.injEq] at h
      obtain ⟨rfl, rfl⟩ := h
      have hle : (cs.takeWhile isIdentifierChar).length ≤ cs.length :=
        (List.takeWhile_prefix _).length_le
      rw [drop_rest, hr, List.length_drop, List.length_cons, List.length_cons] at hm
      have hcut : (c.cut m).rest = ch :: cs.take (cs.length - m) := by
        simp only [cut, hr, List.length_cons]
        rw [Nat.sub_add_comm (by omega), List.take_succ_cons]
      have hrun : (cs.take (cs.length - m)).takeWhile isIdentifierChar =
          cs.takeWhile isIdentifierChar := takeWhile_take (by omega)
      unfold scanIdentifier
      rw [hcut]
      simp only [ha, if_true, hrun, cut_drop]
    · cases h

theorem scanIdentifier_eq_none_iff : c.scanIdentifier = none ↔ Stops Char.isAlpha c.rest := by
  obtain ⟨position, rest⟩ := c
  cases rest with
  | nil => simp [scanIdentifier, Stops]
  | cons ch cs => simp [scanIdentifier, Stops]

theorem scanIdentifier_none_cut (h : c.scanIdentifier = none) :
    (c.cut m).scanIdentifier = none := by
  rw [scanIdentifier_eq_none_iff] at h ⊢
  exact h.take _

/-- A text that starts with a complete exponent has one, with all the digits that follow. -/
theorem exponent?_append_ne_none (x : Exponent) (cs : List Char) :
    Number.exponent? (x.chars ++ cs) ≠ none := by
  let longest : Exponent :=
    { x with
      digits := x.digits ++ cs.takeWhile Char.isDigit
      digits_ne_nil := by simp [x.digits_ne_nil]
      isDigit_digits := fun c hc => (List.mem_append.1 hc).elim (x.isDigit_digits c)
        List.mem_takeWhile_imp }
  have hx : Number.exponent? (x.chars ++ cs) = some (longest.value, cs.dropWhile Char.isDigit) :=
    Number.exponent?_eq_some_iff.2
      ⟨longest, by simp [longest, Exponent.chars], rfl, stops_dropWhile _ _⟩
  simp [hx]

/-- An exponent stays the longest where something is missing behind it, and none comes about. -/
theorem exponentLength_take {cs : List Char} {n : Nat} (h : exponentLength cs ≤ n) :
    exponentLength (cs.take n) = exponentLength cs := by
  cases hx : Number.exponent? cs with
  | none =>
    have hcut : Number.exponent? (cs.take n) = none := by
      by_contra hne
      -- an exponent of the shorter text, if with fewer digits, is one of the whole text
      obtain ⟨⟨e, rest⟩, hsome⟩ := Option.ne_none_iff_exists'.1 hne
      obtain ⟨x, hsplit, -⟩ := Number.exponent?_eq_some_iff.1 hsome
      refine exponent?_append_ne_none x (rest ++ cs.drop n) ?_
      rw [← List.append_assoc, ← hsplit, List.take_append_drop, hx]
    simp [exponentLength, hx, hcut]
  | some r =>
    obtain ⟨x, rfl, -, hr⟩ := Number.exponent?_eq_some_iff.1 hx
    rw [exponentLength_append x hr] at h ⊢
    rw [List.take_append, List.take_of_length_le h, exponentLength_append x (hr.take _)]

theorem literalLength_take {cs : List Char} {n : Nat} (h : literalLength cs ≤ n) :
    literalLength (cs.take n) = literalLength cs := by
  unfold literalLength at h ⊢
  rw [takeWhile_take (by omega), List.drop_take, exponentLength_take (by omega)]

theorem scanNumber_cut {x : Float} (h : c.scanNumber = (.ok x, d)) (hm : m ≤ d.rest.length) :
    (c.cut m).scanNumber = (.ok x, d.cut m) := by
  rw [scanNumber_eq_ok_iff] at h ⊢
  obtain ⟨hrun, hcount, hliteral, rfl⟩ := h
  have hle := literalLength_le c.skipBlanks.rest
  rw [drop_rest, List.length_drop] at hm
  have hskip : (c.cut m).skipBlanks = c.skipBlanks.cut m := skipBlanks_cut (by omega)
  have hrest : (c.cut m).skipBlanks.rest =
      c.skipBlanks.rest.take (c.skipBlanks.rest.length - m) := by
    rw [hskip]
    rfl
  have hsize : literalLength (c.cut m).skipBlanks.rest = literalLength c.skipBlanks.rest := by
    rw [hrest, literalLength_take (by omega)]
  have hrun' : (c.cut m).skipBlanks.rest.takeWhile isMantissaChar =
      c.skipBlanks.rest.takeWhile isMantissaChar := by
    rw [hrest, takeWhile_take]
    exact le_trans (Nat.le_add_right _ _) (show literalLength _ ≤ _ by omega)
  refine ⟨by rwa [hrun'], by rwa [hrun'], ?_, ?_⟩
  · rwa [hsize, hrest, List.take_take, min_eq_left (by omega)]
  · rw [hsize, hskip, cut_drop]

end Cursor

namespace Grammar

variable {α β : Type} {P : Productions α} {n : Nesting} {m : Nat}

theorem next?_cut {read : Char → Option β} {c : Cursor} {b : β} (h : next? read c = some b)
    (hm : m ≤ (c.skipBlanks.drop 1).rest.length) : next? read (c.cut m) = some b ∧
      (c.cut m).skipBlanks.drop 1 = (c.skipBlanks.drop 1).cut m := by
  obtain ⟨ch, hp, hb⟩ := Option.bind_eq_some_iff.1 h
  have hlt := Cursor.drop_one_length_lt hp
  have hskip : (c.cut m).skipBlanks = c.skipBlanks.cut m := Cursor.skipBlanks_cut (by omega)
  rw [next?, hskip, Cursor.peek?_cut (by omega), Cursor.cut_drop]
  exact ⟨h, rfl⟩

theorem next?_cut_none {read : Char → Option β} {c : Cursor} (h : next? read c = none)
    (hm : m ≤ c.skipBlanks.rest.length) : next? read (c.cut m) = none := by
  rw [next?, Cursor.skipBlanks_cut hm]
  cases hp : (c.skipBlanks.cut m).peek? with
  | none => rfl
  | some ch =>
    rw [next?, Cursor.peek?_of_cut hp] at h
    exact h

/-- A call in a text whose last `m` characters are missing. -/
def Call.cut (m : Nat) : Call α → Call α
  | chain l c k => chain l (c.cut m) k
  | tail l left c k => tail l left (c.cut m) k
  | factor c k => factor (c.cut m) k
  | primary c k => primary (c.cut m) k

@[simp] theorem cut_operand (l : Chain) (c : Cursor) (k : Depth) :
    (l.operand c k : Call α).cut m = l.operand (c.cut m) k := by cases l <;> rfl

/-- What is missing behind a result does not change it. -/
theorem Parses.cut {q : Call α} {a : α} {d : Cursor} (h : Parses P n q a d)
    (hm : m ≤ d.rest.length) : Parses P n (q.cut m) a (d.cut m) := by
  -- What is missing is behind `d` and so behind the results of all inner calls: the bounds on
  -- lengths carry `hm` back to each of them.
  induction h with
  | chain _ ha ih₁ ih₂ =>
    have hlt := ha.length_lt
    simp only [Call.bound] at hlt
    rw [cut_operand] at ih₁
    exact .chain (ih₁ (by omega)) (ih₂ hm)
  | last h =>
    rw [← Cursor.skipBlanks_cut hm]
    exact .last (next?_cut_none h hm)
  | more h hr hb ha ih₁ ih₂ =>
    have hlt := ha.length_lt
    have hright := hr.length_lt
    simp only [Call.bound] at hlt
    rw [bound_operand] at hright
    obtain ⟨hnext, hdrop⟩ := next?_cut h (m := m) (by omega)
    rw [cut_operand, ← hdrop] at ih₁
    exact .more hnext (ih₁ (by omega)) hb (ih₂ hm)
  | sign h hn ho hu ih =>
    have hlt := ho.length_lt
    simp only [Call.bound] at hlt
    obtain ⟨hnext, hdrop⟩ := next?_cut h (m := m) (by omega)
    simp only [Call.cut, ← hdrop] at ih
    exact .sign hnext hn (ih hm) hu
  | @base c _ _ _ _ _ hp hs hn hb ha ih =>
    have hlt := hb.length_lt
    have hle := Cursor.accept_false_length_le ha
    simp only [Call.bound] at hlt
    have hskip : (c.cut m).skipBlanks = c.skipBlanks.cut m := Cursor.skipBlanks_cut (by omega)
    simp only [Call.cut, ← hskip] at ih
    exact .base (by rw [hskip, Cursor.peek?_cut (by omega), hp]) hs hn (ih (by omega))
      (Cursor.accept_false_cut ha hm)
  | @power c _ _ _ _ _ _ _ _ hp hs hn hb ha he hop ih₁ ih₂ =>
    have hlt := hb.length_lt
    have hexponent := he.length_lt
    have hle := Cursor.accept_true_length_lt ha
    simp only [Call.bound] at hlt hexponent
    have hskip : (c.cut m).skipBlanks = c.skipBlanks.cut m := Cursor.skipBlanks_cut (by omega)
    simp only [Call.cut, ← hskip] at ih₁
    exact .power (by rw [hskip, Cursor.peek?_cut (by omega), hp]) hs hn (ih₁ (by omega))
      (Cursor.accept_true_cut ha (by omega)) (ih₂ hm) hop
  | group hp hi ha ih =>
    have hlt := hi.length_lt
    have hle := Cursor.accept_true_length_lt ha
    have hdrop := Cursor.drop_one_length_lt hp
    simp only [Call.bound] at hlt
    simp only [Call.cut, Cursor.cut_drop] at ih
    exact .group (by rw [Cursor.peek?_cut (by omega), hp]) (ih (by omega))
      (Cursor.accept_true_cut ha hm)
  | constant hi ha hc =>
    have hle := Cursor.accept_false_length_le ha
    exact .constant (Cursor.scanIdentifier_cut hi (by omega)) (Cursor.accept_false_cut ha hm) hc
  | call hi ha harg hb hc ih =>
    have hlt := harg.length_lt
    have hopen := Cursor.accept_true_length_lt ha
    have hclose := Cursor.accept_true_length_lt hb
    simp only [Call.bound] at hlt
    exact .call (Cursor.scanIdentifier_cut hi (by omega)) (Cursor.accept_true_cut ha (by omega))
      (ih (by omega)) (Cursor.accept_true_cut hb hm) hc
  | number hi hs =>
    exact .number (Cursor.scanIdentifier_none_cut hi) (Cursor.scanNumber_cut hs hm)

/-- A call of the tree builder in the place of another one; in a chain, with the tree `t` before
it. -/
def Call.building (t : Expr) : Call α → Call Expr
  | chain l c k => chain l c k
  | tail l _ c k => tail l t c k
  | factor c k => factor c k
  | primary c k => primary c k

@[simp] theorem building_operand (t : Expr) (l : Chain) (c : Cursor) (k : Depth) :
    (l.operand c k : Call α).building t = l.operand c k := by cases l <;> rfl

/-- Whatever is computed from a text, without a limit it has a tree that takes as much of it. -/
theorem Parses.exists_tree {q : Call α} {a : α} {d : Cursor} (h : Parses P n q a d) (t : Expr) :
    ∃ u, Parses Expr.productions .unlimited (q.building t) u d := by
  induction h generalizing t with
  | chain _ _ ih₁ ih₂ =>
    obtain ⟨u, hu⟩ := ih₁ t
    obtain ⟨v, hv⟩ := ih₂ u
    rw [building_operand] at hu
    exact ⟨v, .chain hu hv⟩
  | last h => exact ⟨t, .last h⟩
  | more h _ _ _ ih₁ ih₂ =>
    obtain ⟨u, hu⟩ := ih₁ t
    obtain ⟨v, hv⟩ := ih₂ (.binary t _ u)
    rw [building_operand] at hu
    exact ⟨v, .more h hu rfl hv⟩
  | sign h _ _ _ ih =>
    obtain ⟨u, hu⟩ := ih t
    exact ⟨_, .sign h rfl hu rfl⟩
  | base hp hs _ _ ha ih =>
    obtain ⟨u, hu⟩ := ih t
    exact ⟨u, .base hp hs rfl hu ha⟩
  | power hp hs _ _ ha _ _ ih₁ ih₂ =>
    obtain ⟨u, hu⟩ := ih₁ t
    obtain ⟨v, hv⟩ := ih₂ t
    exact ⟨_, .power hp hs rfl hu ha hv rfl⟩
  | group hp _ ha ih =>
    obtain ⟨u, hu⟩ := ih t
    exact ⟨u, .group hp hu ha⟩
  | constant hi ha _ => exact ⟨_, .constant hi ha rfl⟩
  | call hi ha _ hb _ ih =>
    obtain ⟨u, hu⟩ := ih t
    exact ⟨_, .call hi ha hu hb rfl⟩
  | number hi hs => exact ⟨_, .number hi hs⟩

end Grammar
end Reckoner
