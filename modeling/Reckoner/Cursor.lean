import Reckoner.Failure

/-!
# Cursor over a text

A cursor is a position and the characters from there on. Blanks are the space and the tab.
Identifiers and numbers are scanned as the longest match; the lemmas say how far each operation
moves.
-/
namespace Reckoner

structure Cursor where
  position : Nat
  rest : List Char
deriving DecidableEq, Repr

def isBlank (c : Char) : Bool := c = ' ' || c = '\t'

def isIdentifierChar (c : Char) : Bool := c.isAlphanum || c = '_'

def isMantissaChar (c : Char) : Bool := c.isDigit || c = '.'

/-- An ASCII letter followed by ASCII letters, digits and underscores. -/
def isIdentifier (name : String) : Bool :=
  match name.toList with
  | [] => false
  | c :: cs => c.isAlpha && cs.all isIdentifierChar

namespace Cursor

def ofText (text : String) (position : Nat) : Cursor := ⟨position, text.toList.drop position⟩

def atEnd (c : Cursor) : Bool := c.rest.isEmpty

def peek? (c : Cursor) : Option Char := c.rest.head?

/-- The cursor `n` characters further on. -/
def drop (n : Nat) (c : Cursor) : Cursor := ⟨c.position + n, c.rest.drop n⟩

/-- The current character, consumed; nothing happens at the end. -/
def advance (c : Cursor) : Option Char × Cursor :=
  match c.rest with
  | [] => (none, c)
  | ch :: _ => (some ch, c.drop 1)

def skipBlanks (c : Cursor) : Cursor := c.drop (c.rest.takeWhile isBlank).length

/-- Skips blanks and consumes `wanted` if it comes next. The end of the text counts as `none`, and
consuming it moves the position on by one. -/
def accept (wanted : Option Char) (c : Cursor) : Bool × Cursor :=
  if c.skipBlanks.peek? = wanted then (true, c.skipBlanks.drop 1) else (false, c.skipBlanks)

/-- `accept` for a text: the empty one is the end, and only single characters can come next. -/
def acceptText (wanted : String) (c : Cursor) : Bool × Cursor :=
  match wanted.toList with
  | [] => c.accept none
  | [ch] => c.accept (some ch)
  | _ => (false, c.skipBlanks)

/-- The longest identifier that starts here. -/
def scanIdentifier (c : Cursor) : Option (String × Cursor) :=
  match c.rest with
  | [] => none
  | ch :: cs =>
    if ch.isAlpha then
      let name := ch :: cs.takeWhile isIdentifierChar
      some (String.ofList name, c.drop name.length)
    else none

/-- The index of the second point in a run. -/
def secondPoint (run : List Char) : Nat :=
  let first := (run.takeWhile (· != '.')).length
  first + 1 + ((run.drop (first + 1)).takeWhile (· != '.')).length

/-- The number of characters of a complete exponent at the front, zero if there is none. -/
def exponentLength (cs : List Char) : Nat :=
  match Number.exponent? cs with
  | some (_, rest) => cs.length - rest.length
  | none => 0

/-- The longest literal after blanks: digits with at most one point, then perhaps a complete
exponent. A second point leaves the cursor before the literal, a point without digits after it. -/
def scanNumber (c : Cursor) : Except Failure Float × Cursor :=
  let start := c.skipBlanks
  let run := start.rest.takeWhile isMantissaChar
  if run.isEmpty then (.error (.expectedNumber start.position), start)
  else if run.count '.' > 1 then
    (.error (.invalidNumber (String.ofList run) (start.position + secondPoint run)), start)
  else
    let size := run.length + exponentLength (start.rest.drop run.length)
    let literal := start.rest.take size
    match Number.literal? literal with
    | some d => (.ok d.toFloat, start.drop size)
    | none => (.error (.invalidNumber (String.ofList literal) start.position), start.drop size)

/-- The cursor's own debug form. -/
def debug (c : Cursor) : String := s!"Cursor(pos={c.position}, rest='{String.ofList c.rest}')"

@[simp] theorem drop_rest (n : Nat) (c : Cursor) : (c.drop n).rest = c.rest.drop n := rfl

@[simp] theorem drop_position (n : Nat) (c : Cursor) : (c.drop n).position = c.position + n := rfl

theorem skipBlanks_rest (c : Cursor) : c.skipBlanks.rest = c.rest.dropWhile isBlank := by
  have : ∀ cs : List Char, cs.drop (cs.takeWhile isBlank).length = cs.dropWhile isBlank := by
    intro cs
    induction cs with
    | nil => rfl
    | cons ch cs ih => by_cases h : isBlank ch <;> simp [h, ih]
  exact this c.rest

theorem skipBlanks_length_le (c : Cursor) : c.skipBlanks.rest.length ≤ c.rest.length := by
  simp [skipBlanks]

theorem drop_one_length_lt {c : Cursor} {ch : Char} (h : c.peek? = some ch) :
    (c.drop 1).rest.length < c.rest.length := by
  cases hr : c.rest with
  | nil => simp [peek?, hr] at h
  | cons x xs => simp [hr]

theorem accept_false_length_le {wanted : Option Char} {c d : Cursor}
    (h : c.accept wanted = (false, d)) : d.rest.length ≤ c.rest.length := by
  unfold accept at h
  split at h <;> simp only [Prod.mk.injEq, Bool.true_eq_false, false_and,
    true_and] at h
  exact h ▸ c.skipBlanks_length_le

theorem accept_true_length_lt {ch : Char} {c d : Cursor}
    (h : c.accept (some ch) = (true, d)) : d.rest.length < c.rest.length := by
  unfold accept at h
  split at h <;> simp only [Prod.mk.injEq, Bool.false_eq_true, false_and,
    true_and] at h
  rename_i found
  have le := c.skipBlanks_length_le
  have := drop_one_length_lt found
  rw [h] at this
  omega

theorem scanIdentifier_length_lt {c d : Cursor} {name : String}
    (h : c.scanIdentifier = some (name, d)) : d.rest.length < c.rest.length := by
  unfold scanIdentifier at h
  split at h
  · simp at h
  · rename_i ch cs hr
    split at h
    · simp only [Option.some.injEq, Prod.mk.injEq] at h
      rw [← h.2, drop_rest, hr, List.length_drop]
      simp only [List.length_cons]
      omega
    · simp at h

theorem scanNumber_length_lt {c d : Cursor} {x : Float}
    (h : c.scanNumber = (.ok x, d)) : d.rest.length < c.rest.length := by
  unfold scanNumber at h
  have le := c.skipBlanks_length_le
  dsimp only at h
  split at h
  · simp at h
  · rename_i nonempty
    split at h
    · simp at h
    · split at h
      · simp only [Prod.mk.injEq, Except.ok.injEq] at h
        cases hr : c.skipBlanks.rest with
        | nil => simp [hr] at nonempty
        | cons y ys =>
          have run : 0 < ((y :: ys).takeWhile isMantissaChar).length := by
            rw [hr] at nonempty
            exact List.length_pos_iff.2 (by simpa using nonempty)
          simp only [hr, List.length_cons] at le
          simp only [← h.2, drop_rest, hr, List.length_drop, List.length_cons]
          omega
      · simp at h

end Cursor
end Reckoner
