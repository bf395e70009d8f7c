import Reckoner.Proofs.Grammar.Soundness
import Reckoner.Proofs.Trailing

/-!
# Positions of failures

A failure of a text names a position, which its report shows and keeps among the details. Calls only
move on, so that the text before a position is what has been passed by then.
-/
namespace Reckoner

namespace Failure

/-- The position that a failure names. -/
def position? : Failure → Option Nat
  | unexpectedEnd p | mismatchedParentheses p _ | invalidNumber _ p | expectedNumber p
  | trailingInput _ p | nestingTooDeep p _ => some p
  | unknownFunction _ p | unknownIdentifier _ p => p
  | domain _ | invalidName _ | badContext _ _ | host _ _ => none

theorem report_position (e : Failure) : e.report.position = e.position?.map Int.ofNat := by
  cases e <;> rfl

theorem details_position {e : Failure} {p : Nat} (h : e.position? = some p) :
    e.report.details.lookup "position" = some (.int p) := by
  cases e <;> cases h <;> rfl

end Failure

namespace Cursor

/-- What lies between two cursors of a text. -/
structure Passes (c : Cursor) (s : List Char) (d : Cursor) : Prop where
  rest : c.rest = s ++ d.rest
  position : d.position = c.position + s.length

variable {c d e : Cursor} {s s' : List Char}

theorem Passes.trans (h : c.Passes s d) (h' : d.Passes s' e) : c.Passes (s ++ s') e where
  rest := by rw [h.rest, h'.rest, List.append_assoc]
  position := by rw [h'.position, h.position, List.length_append, Nat.add_assoc]

/-- The text that a cursor has gone over fixes the position. -/
theorem Ahead.passes (h : c.Ahead d) (hs : c.rest = s ++ d.rest) : c.Passes s d := by
  obtain ⟨k, hk, rfl⟩ := h
  have hlength := congrArg List.length hs
  rw [List.length_append, drop_rest, List.length_drop] at hlength
  exact ⟨hs, by rw [drop_position]; omega⟩

theorem Ahead.exists_passes (h : c.Ahead d) : ∃ s, c.Passes s d := by
  obtain ⟨k, -, rfl⟩ := id h
  exact ⟨c.rest.take k, h.passes (List.take_append_drop k c.rest).symm⟩

theorem exists_passes_skipBlanks (c : Cursor) : ∃ bs, Blanks bs ∧ c.Passes bs c.skipBlanks := by
  obtain ⟨bs, hb, hc⟩ := c.exists_blanks
  exact ⟨bs, hb, c.ahead_skipBlanks.passes hc⟩

theorem passes_drop_one {ch : Char} (h : c.peek? = some ch) : c.Passes [ch] (c.drop 1) :=
  (ahead_drop_one h).passes (rest_eq_of_peek? h)

theorem exists_passes_accept {ch : Char} (h : c.accept (some ch) = (true, d)) :
    ∃ bs, Blanks bs ∧ c.Passes (bs ++ [ch]) d := by
  obtain ⟨bs, hb, hc⟩ := accept_true h
  exact ⟨bs, hb, (ahead_of_accept h).passes (by simpa using hc)⟩

theorem passes_of_scanIdentifier {name : String} (h : c.scanIdentifier = some (name, d)) :
    c.Passes name.toList d := (ahead_of_scanIdentifier h).passes (scanIdentifier_some h).2

/-! ## Cursors of a text -/

/-- Blanks have been skipped. -/
theorem not_isBlank_of_peek?_skipBlanks {c : Cursor} {ch : Char}
    (h : c.skipBlanks.peek? = some ch) : isBlank ch = false := by
  rw [peek?, skipBlanks_rest] at h
  exact stops_dropWhile isBlank c.rest ch h

theorem skipBlanks_of_peek? {c : Cursor} {ch : Char} (h : c.peek? = some ch)
    (hb : isBlank ch = false) : c.skipBlanks = c := by
  have hstops : Stops isBlank c.rest := fun ch' hch' => by
    obtain rfl : ch = ch' := Option.some.inj (h.symm.trans hch')
    exact hb
  rw [skipBlanks, hstops.takeWhile]
  rfl

theorem Passes.getElem? {text : String} {s : List Char} {d : Cursor}
    (h : (ofText text 0).Passes s d) : text.toList[d.position]? = d.peek? := by
  obtain ⟨hrest, hposition⟩ := h
  simp only [ofText, List.drop_zero, Nat.zero_add] at hrest hposition
  rw [hrest, hposition, List.getElem?_append_right (Nat.le_refl _), Nat.sub_self, peek?,
    List.head?_eq_getElem?]

theorem Passes.toList {text : String} {s : List Char} {d : Cursor}
    (h : (ofText text 0).Passes s d) : text.toList = s ++ d.rest := by
  simpa [ofText] using h.rest

theorem Passes.length {text : String} {s : List Char} {d : Cursor}
    (h : (ofText text 0).Passes s d) : s.length = d.position := by
  simpa [ofText] using h.position.symm

end Cursor

namespace Grammar

variable {α : Type} {P : Productions α} {n : Nesting}

/-- A text that spells a phrase of a level. -/
def Phrased (l : Level) (cs : List Char) : Prop := ∃ p : Phrase l, Spells p.tokens cs

theorem exists_passes_of_next? {β : Type} {read : Char → Option β} {c : Cursor} {b : β}
    (h : next? read c = some b) : ∃ ch bs, read ch = some b ∧ Blanks bs ∧
      c.Passes (bs ++ [ch]) (c.skipBlanks.drop 1) := by
  obtain ⟨ch, bs, hread, hb, hc⟩ := exists_blanks_of_next? h
  exact ⟨ch, bs, hread, hb, (next?_ahead h).passes (by simpa using hc)⟩

theorem Parses.ahead_operand {l : Chain} {c d : Cursor} {k : Depth} {a : α}
    (h : Parses P n (l.operand c k) a d) : c.Ahead d := by
  have := h.ahead
  rwa [cursor_operand] at this

/-- No inner call goes back. -/
theorem Calls.ahead {q q' : Call α} (h : Calls P n q q') : q.cursor.Ahead q'.cursor := by
  cases h with
  | first =>
    rw [cursor_operand]
    exact Cursor.ahead_drop (Nat.zero_le _)
  | tail hp => exact hp.ahead_operand
  | operand h =>
    rw [cursor_operand]
    exact next?_ahead h
  | more h hp _ => exact (next?_ahead h).trans hp.ahead_operand
  | sign h _ => exact next?_ahead h
  | @base c _ _ _ _ _ => exact c.ahead_skipBlanks
  | @exponent c _ _ _ _ _ _ _ _ hb he =>
    exact c.ahead_skipBlanks.trans (hb.ahead.trans (Cursor.ahead_of_accept he))
  | group hp => exact Cursor.ahead_drop_one hp
  | argument hi he => exact (Cursor.ahead_of_scanIdentifier hi).trans (Cursor.ahead_of_accept he)

/-- What a production has gone over spells a phrase, whatever it is read for. -/
theorem Parses.phrased {l : Level} {c d : Cursor} {k : Depth} {a : α}
    (h : Parses P n (l.call c k) a d) : ∃ s, Phrased l s ∧ c.Passes s d := by
  obtain ⟨t, ht⟩ := h.exists_tree (.constant "")
  have hcursor : (l.call c k : Call α).cursor = c := by cases l <;> rfl
  have hreads : Reads .unlimited l c k t d := by cases l <;> exact ht.sound
  obtain ⟨p, s, -, hs, hc, -⟩ := hreads
  exact ⟨s, ⟨p, hs⟩, (hcursor ▸ h.ahead).passes hc⟩

theorem Parses.phrased_operand {l : Chain} {c d : Cursor} {k : Depth} {a : α}
    (h : Parses P n (l.operand c k) a d) : ∃ s, Phrased l.level s ∧ c.Passes s d := by
  rw [← call_level] at h
  exact h.phrased

end Grammar
end Reckoner
