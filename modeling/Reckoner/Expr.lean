import Reckoner.Grammar
import Reckoner.Number.Written

/-!
# Expression trees

Trees that the grammar builds, and hand-made trees whose operators and names are any texts.
Equality compares numbers as numbers: zeros of both signs are equal, not-a-number differs from
itself. The debug form spells a tree out without escaping anything. What walks a tree, here and
where it is evaluated and rendered, is taken to have stack enough for any tree.
-/
namespace Reckoner

inductive Expr where
  | number (value : Float)
  | constant (name : String)
  | unary (op : String) (operand : Expr)
  | binary (left : Expr) (op : String) (right : Expr)
  | call (name : String) (argument : Expr)
deriving DecidableEq, Inhabited

namespace Expr

/-- Equal structure with numbers that compare equal. -/
def same : Expr → Expr → Bool
  | number x, number y => x == y
  | constant a, constant b => a == b
  | unary o a, unary p b => o == p && same a b
  | binary a o b, binary c p d => same a c && o == p && same b d
  | call f a, call g b => f == g && same a b
  | _, _ => false

/-- The tree spelled out by its constructors. -/
def debug : Expr → String
  | number x => s!"Number({Number.shortestText x})"
  | constant name => s!"Constant('{name}')"
  | unary op a => s!"UnaryOp('{op}', {debug a})"
  | binary a op b => s!"BinaryOp({debug a}, '{op}', {debug b})"
  | call f a => s!"FunctionCall('{f}', {debug a})"

/-- The number of nodes. -/
def size : Expr → Nat
  | number _ | constant _ => 1
  | unary _ a | call _ a => size a + 1
  | binary a _ b => size a + size b + 1

/-- The productions that build the tree; names are not looked up. -/
def productions : Productions Expr where
  number := number
  constant name _ := .ok (constant name)
  call f a _ _ := .ok (call f a)
  unary sign a := .ok (unary sign.symbol a)
  binary op a b := .ok (binary a op.symbol b)

end Expr
end Reckoner
