import Reckoner.Context
import Reckoner.Expr

/-!
# Evaluation

The value of an expression, once in a single pass over the text and once from its tree. Arguments
come before the function is looked up, left operands before right ones. In a tree, bindings hide
the constants of the context and are converted when they are used.
-/
namespace Reckoner

variable (E : Elementary)

/-- The productions that compute values as the text is read. -/
def Context.productions (c : Context) : Productions Float where
  number := id
  constant name position := match c.constant? name with
    | some x => .ok x
    | none => .error (.unknownIdentifier name (some position))
  call name x position _ := match c.function? name with
    | some f => f.apply E x
    | none => .error (.unknownFunction name (some position))
  unary sign x := .ok (sign.apply x)
  binary op x y := op.apply E x y

/-- How a text is read: how deep it may nest, and whether all of it must belong to the
expression. -/
structure Reading where
  nesting : Nesting
  full : Bool

namespace Reading

/-- The whole text by the grammar. A function that uses up the stack is reported like a text that is
too deep. What is left over after an expression is ignored or refused. -/
def run {α : Type} (r : Reading) (P : Productions α) (text : String) : Except Failure α :=
  match Grammar.expression (P.reporting r.nesting.guard) r.nesting (.ofText text 0) {} with
  | .error e => .error e
  | .ok (result, d) =>
    if !r.full then .ok result
    else match d.1.skipBlanks.peek? with
      | none => .ok result
      | some ')' => .error (.mismatchedParentheses d.1.skipBlanks.position false)
      | some ch => .error (.trailingInput ch d.1.skipBlanks.position)

/-- The value of a text in one pass. -/
def evaluate (r : Reading) (c : Context) (text : String) : Except Failure Float :=
  r.run (c.productions E) text

/-- The tree of a text. -/
def parse (r : Reading) (text : String) : Except Failure Expr := r.run Expr.productions text

end Reading

/-- Values under names that hide the constants of a context. -/
abbrev Bindings := Table Datum

namespace Expr

def constantValue (c : Context) (b : Bindings) (name : String) : Except Failure Float :=
  match b.get? name with
  | some value => value.toFloat
  | none => match c.constant? name with
    | some x => .ok x
    | none => .error (.unknownIdentifier name none)

/-- An operator that cannot be evaluated. -/
def noOperator (op : String) : Failure := .host .lookup (Text.quoted op)

/-- The value of a tree. An unknown sign fails before its operand, an unknown binary operator after
both of its operands. -/
def value (c : Context) (b : Bindings) : Expr → Except Failure Float
  | number x => .ok x
  | constant name => constantValue c b name
  | unary op a => match Sign.ofSymbol? op with
    | none => .error (noOperator op)
    | some sign => match value c b a with
      | .error e => .error e
      | .ok x => .ok (sign.apply x)
  | binary a op d => match value c b a with
    | .error e => .error e
    | .ok x => match value c b d with
      | .error e => .error e
      | .ok y => match BinaryOperator.ofSymbol? op with
        | none => .error (noOperator op)
        | some operator => operator.apply E x y
  | call name a => match value c b a with
    | .error e => .error e
    | .ok x => match c.function? name with
      | none => .error (.unknownFunction name none)
      | some f => f.apply E x

end Expr
end Reckoner
