import Reckoner.Evaluation

/-!
# Values of trees

The value of a tree whose operators are known, in terms of the values of its operands.
-/
namespace Reckoner

@[simp] theorem Sign.ofSymbol?_symbol (s : Sign) : Sign.ofSymbol? s.symbol = some s := by
  cases s <;> rfl

@[simp] theorem BinaryOperator.ofSymbol?_symbol (op : BinaryOperator) :
    BinaryOperator.ofSymbol? op.symbol = some op := by cases op <;> rfl

namespace Expr

variable (E : Elementary) (c : Context) (b : Bindings)

theorem value_unary (s : Sign) (a : Expr) :
    value E c b (.unary s.symbol a) = (value E c b a).map s.apply := by
  simp only [value, Sign.ofSymbol?_symbol]
  cases value E c b a <;> rfl

theorem value_binary (op : BinaryOperator) (a d : Expr) :
    value E c b (.binary a op.symbol d) =
      (value E c b a).bind fun x => (value E c b d).bind fun y => op.apply E x y := by
  simp only [value, BinaryOperator.ofSymbol?_symbol]
  cases value E c b a with
  | error e => rfl
  | ok x => cases value E c b d <;> rfl

theorem value_call (name : String) (a : Expr) :
    value E c b (.call name a) = (value E c b a).bind fun x =>
      match c.function? name with
      | none => .error (.unknownFunction name none)
      | some f => f.apply E x := by
  simp only [value]
  cases value E c b a <;> rfl

end Expr
end Reckoner
