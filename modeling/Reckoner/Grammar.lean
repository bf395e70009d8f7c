import Reckoner.Cursor
import Reckoner.Operator

/-!
# The grammar of expressions

    expression := term (('+' | '-') term)*
    term       := factor (('*' | '/' | '%') factor)*
    factor     := ('-' | '+') factor
                | primary ('^' factor)?
    primary    := '(' expression ')'
                | identifier '(' expression ')'
                | identifier
                | number

The power operand is a factor, so powers nest to the right and a sign covers a whole power. The
grammar is written once for any way to turn productions into results. Every production that
succeeds returns a cursor with fewer characters left, so the descent ends.
-/
namespace Reckoner

/-- What the productions yield. -/
structure Productions (α : Type) where
  number : Float → α
  constant : String → Nat → Except Failure α
  /-- A call gets the position of the function's name and the one behind the whole call. -/
  call : String → α → Nat → Nat → Except Failure α
  unary : Sign → α → Except Failure α
  binary : BinaryOperator → α → α → Except Failure α

/-- The same productions where a call that has used up the stack is reported as too deep for the
limit, at the position behind the call. -/
def Productions.reporting {α : Type} (limit : Int) (P : Productions α) : Productions α :=
  { P with
    call := fun name argument start stop =>
      (P.call name argument start stop).mapError (·.reported stop limit) }

/-- How many factors and how many groups and calls are open. -/
structure Depth where
  factors : Nat := 0
  groups : Nat := 0
deriving DecidableEq, Repr

namespace Depth

def inFactor (d : Depth) : Depth := { d with factors := d.factors + 1 }

def inGroup (d : Depth) : Depth := { d with groups := d.groups + 1 }

/-- The room that is taken: a group or a call takes four times as much as a factor. -/
def room (d : Depth) : Nat := d.factors + 4 * d.groups

end Depth

/-- How deeply factors may nest: a guard, for which zero means no limit, and the room that the stack
has for the descent. -/
structure Nesting where
  guard : Int
  room : Option Nat

namespace Nesting

/-- Whether a factor at this depth is too deep. -/
def refuses (n : Nesting) (depth : Depth) : Bool :=
  (n.guard ≠ 0 && depth.factors > n.guard) || n.room.any (depth.room > ·)

def unlimited : Nesting := ⟨0, none⟩

end Nesting

namespace Grammar

variable {α : Type} (P : Productions α) (nesting : Nesting)

/-- A result with the cursor behind it, where less than `bound` characters are left. -/
abbrev Parsed (α : Type) (bound : Nat) := α × { d : Cursor // d.rest.length < bound }

mutual

/-- Sum level: terms joined by `+` and `-`. -/
def expression (c : Cursor) (depth : Depth) : Except Failure (Parsed α c.rest.length) :=
  match term c depth with
  | .error e => .error e
  | .ok (left, d) => sum left d.1 depth c.rest.length d.2
termination_by (c.rest.length, 5)

/-- Adds the remaining terms of a sum to the ones before them. -/
def sum (left : α) (c : Cursor) (depth : Depth) (bound : Nat)
    (inside : c.rest.length < bound) : Except Failure (Parsed α bound) :=
  have shorter := c.skipBlanks_length_le
  match h : c.skipBlanks.peek? with
  | none => .ok (left, ⟨c.skipBlanks, by omega⟩)
  | some ch =>
    have fewer := Cursor.drop_one_length_lt h
    match BinaryOperator.ofSumChar? ch with
    | none => .ok (left, ⟨c.skipBlanks, by omega⟩)
    | some op =>
      match term (c.skipBlanks.drop 1) depth with
      | .error e => .error e
      | .ok (right, d) =>
        match P.binary op left right with
        | .error e => .error e
        | .ok result => sum result d.1 depth bound (by have := d.2; omega)
termination_by (c.rest.length, 5)
decreasing_by
  · exact Prod.Lex.left _ _ (by omega)
  · have := d.2; exact Prod.Lex.left _ _ (by omega)

/-- Product level: factors joined by `*`, `/` and `%`. -/
def term (c : Cursor) (depth : Depth) : Except Failure (Parsed α c.rest.length) :=
  match factor c depth with
  | .error e => .error e
  | .ok (left, d) => product left d.1 depth c.rest.length d.2
termination_by (c.rest.length, 4)

/-- Adds the remaining factors of a product to the ones before them. -/
def product (left : α) (c : Cursor) (depth : Depth) (bound : Nat)
    (inside : c.rest.length < bound) : Except Failure (Parsed α bound) :=
  have shorter := c.skipBlanks_length_le
  match h : c.skipBlanks.peek? with
  | none => .ok (left, ⟨c.skipBlanks, by omega⟩)
  | some ch =>
    have fewer := Cursor.drop_one_length_lt h
    match BinaryOperator.ofProductChar? ch with
    | none => .ok (left, ⟨c.skipBlanks, by omega⟩)
    | some op =>
      match factor (c.skipBlanks.drop 1) depth with
      | .error e => .error e
      | .ok (right, d) =>
        match P.binary op left right with
        | .error e => .error e
        | .ok result => product result d.1 depth bound (by have := d.2; omega)
termination_by (c.rest.length, 4)
decreasing_by
  · exact Prod.Lex.left _ _ (by omega)
  · have := d.2; exact Prod.Lex.left _ _ (by omega)

/-- A sign with its factor, or a primary with an optional power. -/
def factor (c : Cursor) (depth : Depth) : Except Failure (Parsed α c.rest.length) :=
  have shorter := c.skipBlanks_length_le
  match h : c.skipBlanks.peek? with
  | none => .error (.unexpectedEnd c.skipBlanks.position)
  | some ch =>
    have fewer := Cursor.drop_one_length_lt h
    if nesting.refuses depth.inFactor then
      .error (.nestingTooDeep c.skipBlanks.position nesting.guard)
    else
      match Sign.ofChar? ch with
      | some sign =>
        match factor (c.skipBlanks.drop 1) depth.inFactor with
        | .error e => .error e
        | .ok (operand, d) =>
          match P.unary sign operand with
          | .error e => .error e
          | .ok result => .ok (result, ⟨d.1, by have := d.2; omega⟩)
      | none =>
        match primary c.skipBlanks depth.inFactor with
        | .error e => .error e
        | .ok (base, d) =>
          match power : d.1.accept (some '^') with
          | (false, d') =>
            .ok (base, ⟨d', by
              have := Cursor.accept_false_length_le power; have := d.2; omega⟩)
          | (true, d') =>
            match factor d' depth.inFactor with
            | .error e => .error e
            | .ok (exponent, d'') =>
              match P.binary .power base exponent with
              | .error e => .error e
              | .ok result => .ok (result, ⟨d''.1, by
                  have := Cursor.accept_true_length_lt power; have := d.2; have := d''.2; omega⟩)
termination_by (c.rest.length, 3)
decreasing_by
  · exact Prod.Lex.left _ _ (by omega)
  · rcases Nat.lt_or_eq_of_le shorter with lt | eq
    · exact Prod.Lex.left _ _ lt
    · rw [eq]; exact Prod.Lex.right _ (by omega)
  · have := Cursor.accept_true_length_lt power
    have := d.2
    exact Prod.Lex.left _ _ (by omega)

/-- A group, a call, a constant or a number, at a character that is not a blank. A call's argument
comes before the function is looked up. -/
def primary (c : Cursor) (depth : Depth) : Except Failure (Parsed α c.rest.length) :=
  match h : c.peek? with
  | some '(' =>
    have fewer := Cursor.drop_one_length_lt h
    match expression (c.drop 1) depth.inGroup with
    | .error e => .error e
    | .ok (result, d) =>
      match close : d.1.accept (some ')') with
      | (false, d') => .error (.mismatchedParentheses d'.position false)
      | (true, d') => .ok (result, ⟨d', by
          have := d.2; have := Cursor.accept_true_length_lt close; omega⟩)
  | _ =>
    match found : c.scanIdentifier with
    | some (name, d) =>
      match open_ : d.accept (some '(') with
      | (false, d') =>
        match P.constant name c.position with
        | .error e => .error e
        | .ok result => .ok (result, ⟨d', by
            have := Cursor.scanIdentifier_length_lt found
            have := Cursor.accept_false_length_le open_; omega⟩)
      | (true, inner) =>
        match expression inner depth.inGroup with
        | .error e => .error e
        | .ok (argument, d') =>
          match close : d'.1.accept (some ')') with
          | (false, d'') => .error (.mismatchedParentheses d''.position true)
          | (true, d'') =>
            match P.call name argument c.position d''.position with
            | .error e => .error e
            | .ok result => .ok (result, ⟨d'', by
                have := Cursor.scanIdentifier_length_lt found
                have := Cursor.accept_true_length_lt open_; have := d'.2
                have := Cursor.accept_true_length_lt close; omega⟩)
    | none =>
      match scanned : c.scanNumber with
      | (.error e, _) => .error e
      | (.ok x, d) => .ok (P.number x, ⟨d, Cursor.scanNumber_length_lt scanned⟩)
termination_by (c.rest.length, 2)
decreasing_by
  · exact Prod.Lex.left _ _ (Cursor.drop_one_length_lt h)
  · have := Cursor.scanIdentifier_length_lt found
    have := Cursor.accept_true_length_lt open_
    exact Prod.Lex.left _ _ (by omega)

end

end Grammar
end Reckoner
