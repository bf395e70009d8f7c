import Reckoner.Cursor

/-!
# Cursors at negative positions

A negative position counts from the end of the text, as long as there is a character there. A cursor
at one moves on to the end and from there to the start of the text, where it is like any other.
Scans find nothing in front of a text and match at its start.
-/
namespace Reckoner

/-- A cursor at a position that is not negative, or so far back from the end of its text. -/
inductive SignedCursor where
  | inside (c : Cursor)
  | back (text : List Char) (distance : Nat)

namespace SignedCursor

def ofText (text : String) (position : Int) : SignedCursor :=
  if 0 ≤ position then inside (Cursor.ofText text position.toNat)
  else back text.toList (-position).toNat

def position : SignedCursor → Int
  | inside c => c.position
  | back _ distance => -distance

def atEnd : SignedCursor → Bool
  | inside c => c.atEnd
  | back _ _ => false

/-- The text from so far back on. -/
def tail (text : List Char) (distance : Nat) : List Char := text.drop (text.length - distance)

/-- The current character; there is none before the first one. -/
def peek? : SignedCursor → Except Failure (Option Char)
  | inside c => .ok c.peek?
  | back text distance =>
    if text.length < distance then .error (.host .index "string index out of range")
    else .ok (tail text distance).head?

/-- The cursor `n` characters further on. -/
def forward (n : Nat) : SignedCursor → SignedCursor
  | inside c => inside (c.drop n)
  | back text distance =>
    if n < distance then back text (distance - n)
    else inside (Cursor.drop (n - distance) ⟨0, text⟩)

def advance : SignedCursor → Except Failure (Option Char × SignedCursor)
  | inside c => .ok (c.advance.1, inside c.advance.2)
  | c => do return (← c.peek?, c.forward 1)

/-- Skips blanks, also those at the start of the text if all up to its end are blank. -/
def skipBlanks : SignedCursor → Except Failure SignedCursor
  | inside c => .ok (inside c.skipBlanks)
  | c@(back text distance) => do
    let _ ← c.peek?
    match c.forward ((tail text distance).takeWhile isBlank).length with
    | inside d => return inside d.skipBlanks
    | d => return d

/-- Skips blanks and consumes a text if it comes next: one character, or none at the end. -/
def acceptText (wanted : String) (c : SignedCursor) : Except Failure (Bool × SignedCursor) := do
  match ← c.skipBlanks with
  | inside d => return ((d.acceptText wanted).1, inside (d.acceptText wanted).2)
  | d =>
    let isNext := (← d.peek?).toList = wanted.toList
    return (isNext, if isNext then d.forward 1 else d)

def scanIdentifier : SignedCursor → Option (String × SignedCursor)
  | inside c => c.scanIdentifier.map fun (name, d) => (name, inside d)
  | back text _ => (Cursor.scanIdentifier ⟨0, text⟩).map fun (name, d) => (name, inside d)

/-- A number at the start of the text. Of its literal counts what stands so far back from the end
of the text. -/
def wrappedNumber (text : List Char) (distance : Nat) : Except Report Float × SignedCursor :=
  let run := text.takeWhile isMantissaChar
  if run.isEmpty then (.error (.placed .expectedNumber (-distance)), back text distance)
  else if run.count '.' > 1 then
    let point := Cursor.secondPoint run - (distance : Int)
    (.error (.placed (.invalidNumber (String.ofList run)) point), back text distance)
  else
    let size := run.length + Cursor.exponentLength (text.drop run.length)
    let literal := String.ofList ((text.take size).drop (text.length - distance))
    let after := inside (Cursor.drop size ⟨0, text⟩)
    match Number.typed? literal with
    | some x => (.ok x, after)
    | none => (.error (.placed (.invalidNumber literal) (-distance)), after)

def scanNumber (c : SignedCursor) : Except Failure (Except Report Float × SignedCursor) := do
  match ← c.skipBlanks with
  | inside d => return (d.scanNumber.1.mapError Failure.report, inside d.scanNumber.2)
  | back text distance => return wrappedNumber text distance

/-- The cursor's own debug form. -/
def debug : SignedCursor → String
  | inside c => c.debug
  | back text distance =>
    s!"Cursor(pos=-{distance}, rest='{String.ofList (tail text distance)}')"

end SignedCursor
end Reckoner
