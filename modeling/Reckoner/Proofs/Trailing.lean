import Reckoner.Proofs.Grammar.Cut
import Reckoner.Proofs.Reading

/-!
# What is left over

A reading that ignores what is left over takes as much of a text as can be an expression. The
reading that refuses it differs in the last check only.
-/
namespace Reckoner

namespace Cursor

/-- A cursor further on in the same text, or at its end. -/
def Ahead (c d : Cursor) : Prop := ∃ k ≤ c.rest.length, d = c.drop k

variable {c d e : Cursor}

theorem ahead_drop {k : Nat} (h : k ≤ c.rest.length) : c.Ahead (c.drop k) := ⟨k, h, rfl⟩

theorem Ahead.trans (h : c.Ahead d) (h' : d.Ahead e) : c.Ahead e := by
  obtain ⟨j, hj, rfl⟩ := h
  obtain ⟨k, hk, rfl⟩ := h'
  rw [drop_rest, List.length_drop] at hk
  exact ⟨j + k, by omega, by simp [drop, Nat.add_assoc]⟩

theorem ahead_skipBlanks (c : Cursor) : c.Ahead c.skipBlanks :=
  ahead_drop (List.takeWhile_prefix _).length_le

theorem ahead_drop_one {ch : Char} (h : c.peek? = some ch) : c.Ahead (c.drop 1) := by
  have hlt := drop_one_length_lt h
  exact ahead_drop (by omega)

theorem ahead_of_accept {b : Bool} {ch : Char} (h : c.accept (some ch) = (b, d)) : c.Ahead d := by
  unfold accept at h
  split at h <;> cases h
  · rename_i hp
    exact c.ahead_skipBlanks.trans (ahead_drop_one hp)
  · exact c.ahead_skipBlanks

theorem ahead_of_scanIdentifier {name : String} (h : c.scanIdentifier = some (name, d)) :
    c.Ahead d := by
  unfold scanIdentifier at h
  split at h
  · cases h
  · rename_i ch cs hr
    split at h
    · simp only [Option.some.injEq, Prod.mk.injEq] at h
      obtain ⟨-, rfl⟩ := h
      exact ahead_drop (by
        rw [hr]
        exact Nat.succ_le_succ (List.takeWhile_prefix _).length_le)
    · cases h

theorem ahead_of_scanNumber {x : Float} (h : c.scanNumber = (.ok x, d)) : c.Ahead d := by
  obtain ⟨-, -, -, rfl⟩ := scanNumber_eq_ok_iff.1 h
  exact c.ahead_skipBlanks.trans (ahead_drop (literalLength_le _))

end Cursor

namespace Grammar

variable {α : Type} {P : Productions α} {n : Nesting}

theorem next?_ahead {β : Type} {read : Char → Option β} {c : Cursor} {b : β}
    (h : next? read c = some b) : c.Ahead (c.skipBlanks.drop 1) := by
  obtain ⟨ch, hp, -⟩ := Option.bind_eq_some_iff.1 h
  exact c.ahead_skipBlanks.trans (Cursor.ahead_drop_one hp)

theorem Parses.ahead {q : Call α} {a : α} {d : Cursor} (h : Parses P n q a d) :
    q.cursor.Ahead d := by
  induction h with
  | chain _ _ ih₁ ih₂ =>
    rw [cursor_operand] at ih₁
    exact ih₁.trans ih₂
  | @last _ _ c _ _ => exact c.ahead_skipBlanks
  | more h _ _ _ ih₁ ih₂ =>
    rw [cursor_operand] at ih₁
    exact (next?_ahead h).trans (ih₁.trans ih₂)
  | sign h _ _ _ ih => exact (next?_ahead h).trans ih
  | @base c _ _ _ _ _ _ _ _ _ ha ih =>
    exact c.ahead_skipBlanks.trans (ih.trans (Cursor.ahead_of_accept ha))
  | @power c _ _ _ _ _ _ _ _ _ _ _ _ ha _ _ ih₁ ih₂ =>
    exact c.ahead_skipBlanks.trans (ih₁.trans ((Cursor.ahead_of_accept ha).trans ih₂))
  | group hp _ ha ih =>
    exact (Cursor.ahead_drop_one hp).trans (ih.trans (Cursor.ahead_of_accept ha))
  | constant hi ha _ =>
    exact (Cursor.ahead_of_scanIdentifier hi).trans (Cursor.ahead_of_accept ha)
  | call hi ha _ hb _ ih =>
    exact (Cursor.ahead_of_scanIdentifier hi).trans
      ((Cursor.ahead_of_accept ha).trans (ih.trans (Cursor.ahead_of_accept hb)))
  | number _ hs => exact Cursor.ahead_of_scanNumber hs

end Grammar

namespace Reading

open Grammar

variable {α : Type} {P : Productions α} {n : Nesting} {text : String}

/-- The part of a text before a position. -/
def upTo (text : String) (j : Nat) : String := String.ofList (text.toList.take j)

theorem call_cut {j : Nat} (h : j ≤ text.length) :
    (call text : Call α).cut (text.length - j) = call (upTo text j) := by
  have hrest := Cursor.length_ofText text 0
  have hj : (Cursor.ofText text 0).rest.length - (text.length - j) = j := by omega
  simp only [Call.cut, Cursor.cut, hj]
  simp [Cursor.ofText, upTo]

theorem exists_ofText {a : α} {d : Cursor} (h : Parses P n (call text) a d) :
    ∃ q ≤ text.length, d = .ofText text q := by
  obtain ⟨q, hq, rfl⟩ := h.ahead
  rw [Call.cursor, Cursor.length_ofText] at hq
  exact ⟨q, hq, by simp [Call.cursor, Cursor.ofText, Cursor.drop]⟩

/-- The first position from `q` on where no blank stands. -/
def afterBlanks (text : String) (q : Nat) : Nat :=
  q + ((text.toList.drop q).takeWhile isBlank).length

/-- What the check of what is left over finds from a position on. -/
theorem finish_ofText (a : α) (q : Nat) :
    (⟨n, true⟩ : Reading).finish a (.ofText text q) =
      match text.toList[afterBlanks text q]? with
      | none => .ok a
      | some ')' => .error (.mismatchedParentheses (afterBlanks text q) false)
      | some ch => .error (.trailingInput ch (afterBlanks text q)) := by
  have hpeek : (Cursor.ofText text q).skipBlanks.peek? = text.toList[afterBlanks text q]? := by
    simp [Cursor.skipBlanks, Cursor.peek?, Cursor.ofText, Cursor.drop, afterBlanks]
  simp only [finish, hpeek]
  rfl

/-- No text is read that goes on past the first character that is left over. -/
theorem parse_upTo_ne_ok {a : α} {q j : Nat} (h : Parses P n (call text) a (.ofText text q))
    (hj : afterBlanks text q < j) (hle : j ≤ text.length) (u : Expr) :
    (⟨.unlimited, true⟩ : Reading).parse (upTo text j) ≠ .ok u := by
  intro hu
  obtain ⟨d, hd, hrest⟩ := run_eq_ok_iff.1 hu
  obtain ⟨v, hv⟩ := h.exists_tree (.constant "")
  have hskip : (Cursor.ofText text q).skipBlanks.rest.length =
      text.length - afterBlanks text q := by
    rw [Cursor.skipBlanks, Cursor.drop_rest, List.length_drop, Cursor.length_ofText,
      Nat.sub_sub]
    rfl
  have hshorter := (Cursor.ofText text q).skipBlanks_length_le
  have hcut := hv.cut (m := text.length - j) (by omega)
  -- Both stop in the shorter text, so at the same place, and that is before its end.
  have hsame : d = (Cursor.ofText text q).cut (text.length - j) := by
    have hrun := hd.run
    rw [← call_cut hle] at hrun
    cases hrun.symm.trans hcut.run
    rfl
  rw [hsame, Cursor.skipBlanks_cut (by omega)] at hrest
  have hzero := congrArg List.length (hrest rfl)
  simp only [Cursor.cut, List.length_take, List.length_nil] at hzero
  omega

/-- The readings that ignore and refuse what is left over differ in the last check only, and the
first one stops no earlier than it must: what it has taken is read on its own, and no text that goes
on past the first character that is left over is read at all. -/
theorem run_permissive (P : Productions α) (n : Nesting) (text : String) :
    (∀ e, (⟨n, false⟩ : Reading).run P text = .error e →
      (⟨n, true⟩ : Reading).run P text = .error e) ∧
    ∀ a, (⟨n, false⟩ : Reading).run P text = .ok a →
      ∃ q ≤ text.length, (call text).run P n = .ok (a, .ofText text q) ∧
        ((⟨n, true⟩ : Reading).run P text =
          match text.toList[afterBlanks text q]? with
          | none => .ok a
          | some ')' => .error (.mismatchedParentheses (afterBlanks text q) false)
          | some ch => .error (.trailingInput ch (afterBlanks text q))) ∧
        (⟨n, true⟩ : Reading).run P (upTo text q) = .ok a ∧
        ∀ j, afterBlanks text q < j → j ≤ text.length →
          ∀ u, (⟨.unlimited, true⟩ : Reading).parse (upTo text j) ≠ .ok u := by
  constructor
  · intro e h
    obtain hf | ⟨a, d, -, hd⟩ := run_eq_error_iff.1 h
    · exact run_eq_error_iff.2 (.inl hf)
    · cases hd
  · intro a h
    obtain ⟨d, hp, -⟩ := run_eq_ok_iff.1 h
    obtain ⟨q, hq, rfl⟩ := exists_ofText hp
    refine ⟨q, hq, hp.run, ?_, ?_, fun j hj hle u => parse_upTo_ne_ok hp hj hle u⟩
    · rw [run_eq, (parses_reporting_iff.2 hp).run]
      exact finish_ofText a q
    · have hlength := Cursor.length_ofText text q
      have hcut := hp.cut (m := text.length - q) hlength.ge
      rw [call_cut hq] at hcut
      refine run_eq_ok_iff.2 ⟨_, hcut, fun _ => ?_⟩
      rw [Cursor.skipBlanks_rest, Cursor.cut, hlength, Nat.sub_self, List.take_zero]
      rfl

end Reading
end Reckoner
