/-!
# Operators

The two signs and the six binary operators, their symbols and their binding strength.
-/
namespace Reckoner

inductive Sign where
  | plus | minus
deriving DecidableEq, Repr

inductive BinaryOperator where
  | add | subtract | multiply | divide | modulo | power
deriving DecidableEq, Repr

namespace Sign

def symbol : Sign → String
  | plus => "+"
  | minus => "-"

def ofChar? : Char → Option Sign
  | '+' => some plus
  | '-' => some minus
  | _ => none

def ofSymbol? : String → Option Sign
  | "+" => some plus
  | "-" => some minus
  | _ => none

/-- How strongly a sign binds its operand. -/
def strength : Nat := 3

end Sign

namespace BinaryOperator

def symbol : BinaryOperator → String
  | add => "+"
  | subtract => "-"
  | multiply => "*"
  | divide => "/"
  | modulo => "%"
  | power => "^"

def ofSymbol? : String → Option BinaryOperator
  | "+" => some add
  | "-" => some subtract
  | "*" => some multiply
  | "/" => some divide
  | "%" => some modulo
  | "^" => some power
  | _ => none

/-- The operators between the terms of a sum. -/
def ofSumChar? : Char → Option BinaryOperator
  | '+' => some add
  | '-' => some subtract
  | _ => none

/-- The operators between the factors of a product. -/
def ofProductChar? : Char → Option BinaryOperator
  | '*' => some multiply
  | '/' => some divide
  | '%' => some modulo
  | _ => none

/-- How strongly an operator binds its operands. -/
def strength : BinaryOperator → Nat
  | add | subtract => 1
  | multiply | divide | modulo => 2
  | power => 4

end BinaryOperator
end Reckoner
