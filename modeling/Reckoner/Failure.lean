import Reckoner.Datum

/-!
# Failures

Why a calculation or a table change fails, by cause, and how a failure is reported: a kind, a
message, perhaps a position in the text, and named details.
-/
namespace Reckoner

/-- Faults of values and functions that do not belong to the calculator. -/
inductive HostFault where
  | value | overflow | zeroDivision | lookup | index | type | member | recursion | decoding
deriving DecidableEq, Repr

def HostFault.label : HostFault → String
  | value => "ValueError"
  | overflow => "OverflowError"
  | zeroDivision => "ZeroDivisionError"
  | lookup => "KeyError"
  | index => "IndexError"
  | type => "TypeError"
  | member => "AttributeError"
  | recursion => "RecursionError"
  | decoding => "UnicodeDecodeError"

/-- The kinds of failures under the names that reports show. -/
inductive Kind where
  | calculator | parse
  | unexpectedEnd | mismatchedParentheses | invalidNumber | expectedNumber
  | unknownFunction | unknownIdentifier | trailingInput | nestingTooDeep
  | domain | invalidName | badContext
  | host (fault : HostFault)
deriving DecidableEq, Repr

namespace Kind

def label : Kind → String
  | calculator => "CalculatorError"
  | parse => "ParseError"
  | unexpectedEnd => "UnexpectedEndError"
  | mismatchedParentheses => "MismatchedParenthesesError"
  | invalidNumber => "InvalidNumberFormatError"
  | expectedNumber => "ExpectedNumberError"
  | unknownFunction => "UnknownFunctionError"
  | unknownIdentifier => "UnknownIdentifierError"
  | trailingInput => "TrailingInputError"
  | nestingTooDeep => "NestingTooDeepError"
  | domain => "MathDomainError"
  | invalidName => "InvalidNameError"
  | badContext => "ContextError"
  | host fault => fault.label

/-- Failures that concern the text of an expression. -/
def isParse : Kind → Bool
  | parse | unexpectedEnd | mismatchedParentheses | invalidNumber | expectedNumber
  | unknownFunction | unknownIdentifier | trailingInput | nestingTooDeep => true
  | _ => false

/-- Failures of the calculator itself; all others come from functions and values of its host. -/
def isCalculator (k : Kind) : Bool :=
  k.isParse || k matches calculator | domain | invalidName | badContext

/-- Failures that count as a wrong value. -/
def isValue : Kind → Bool
  | domain | invalidName | host .value | host .decoding => true
  | _ => false

/-- Failures that an outcome captures: the calculator's own, wrong values and arithmetic. A missing
key and a value of a wrong type are faults of the host and pass through. -/
def isCaptured (k : Kind) : Bool :=
  k.isCalculator || k.isValue || k matches host .overflow | host .zeroDivision

end Kind

/-- A failure as it is reported. -/
structure Report where
  kind : Kind
  message : String
  position : Option Int := none
  details : List (String × Datum) := []

namespace Report

/-- A report about a text: a position that is known is a detail too. -/
def parse (kind : Kind) (message : String) (position : Option Int)
    (details : List (String × Datum) := []) : Report where
  kind
  message
  position
  details := match position with
    | none => details
    | some p =>
      if details.any (·.1 == "position") then
        details.map fun d => if d.1 == "position" then (d.1, .int p) else d
      else details ++ [("position", .int p)]

/-- The message with the position, if there is one. -/
def text (r : Report) : String :=
  match r.position with
  | none => r.message
  | some p => s!"{r.message} at position {p}"

/-- The report as fields: type, message, and the details if there are any. -/
def fields (r : Report) : List (String × Datum) :=
  [("type", .text r.kind.label), ("message", .text r.text)] ++
    if r.details.isEmpty then [] else [("details", Datum.fields r.details)]

end Report

/-- The arguments that a library function or an operator refuses. -/
inductive DomainFault where
  | divisionByZero | moduloByZero
  | negativeRoot
  | log | log10 | log2
  | arcsine | arccosine | hyperbolicArccosine | hyperbolicArctangent
  | negativeFactorial
deriving DecidableEq, Repr

namespace DomainFault

/-- The name of the function or operator that refuses. -/
def function : DomainFault → String
  | divisionByZero => "divide"
  | moduloByZero => "modulo"
  | negativeRoot => "sqrt"
  | log => "log"
  | log10 => "log10"
  | log2 => "log2"
  | arcsine => "asin"
  | arccosine => "acos"
  | hyperbolicArccosine => "acosh"
  | hyperbolicArctangent => "atanh"
  | negativeFactorial => "factorial"

def message : DomainFault → String
  | divisionByZero => "Division by zero"
  | moduloByZero => "Modulo by zero"
  | negativeRoot => "Square root of negative number"
  | log | log10 | log2 => "Logarithm of non-positive number"
  | arcsine => "asin domain error: x must be in [-1, 1]"
  | arccosine => "acos domain error: x must be in [-1, 1]"
  | hyperbolicArccosine => "acosh domain error: x must be >= 1"
  | hyperbolicArctangent => "atanh domain error: x must be in (-1, 1)"
  | negativeFactorial => "Factorial of negative number"

end DomainFault

/-- Why something fails. Unknown names have a position when they are found in a text. -/
inductive Failure where
  | unexpectedEnd (position : Nat)
  | mismatchedParentheses (position : Nat) (inCall : Bool)
  | invalidNumber (literal : String) (position : Nat)
  | expectedNumber (position : Nat)
  | unknownFunction (name : String) (position : Option Nat)
  | unknownIdentifier (name : String) (position : Option Nat)
  | trailingInput (c : Char) (position : Nat)
  | nestingTooDeep (position : Nat) (limit : Int)
  | domain (fault : DomainFault)
  | invalidName (name : String)
  | badContext (message : String) (path : String)
  | host (fault : HostFault) (message : String)
deriving DecidableEq, Repr

namespace Failure

def report : Failure → Report
  | unexpectedEnd p => .parse .unexpectedEnd "Unexpected end of expression" (some p)
  | mismatchedParentheses p inCall =>
    let inside := if inCall then " in function call" else ""
    .parse .mismatchedParentheses s!"Mismatched parentheses{inside}" (some p)
  | invalidNumber literal p =>
    .parse .invalidNumber "Invalid number format" (some p) [("literal", .text literal)]
  | expectedNumber p => .parse .expectedNumber "Expected number" (some p)
  | unknownFunction name p =>
    .parse .unknownFunction s!"Unknown function: {name}" (p.map Int.ofNat) [("name", .text name)]
  | unknownIdentifier name p =>
    .parse .unknownIdentifier s!"Unknown identifier: {name}" (p.map Int.ofNat)
      [("name", .text name)]
  | trailingInput c p => .parse .trailingInput s!"Unexpected character '{c}'" (some p)
  | nestingTooDeep p limit =>
    .parse .nestingTooDeep "Expression too deeply nested" (some p) [("limit", .int limit)]
  | domain fault =>
    { kind := .domain, message := fault.message, details := [("function", .text fault.function)] }
  | invalidName name =>
    { kind := .invalidName
      message := s!"Invalid name '{name}': must start with a letter and contain " ++
        "only letters, digits and underscores"
      details := [("name", .text name)] }
  | badContext message path =>
    { kind := .badContext, message, details := if path.isEmpty then [] else [("path", .text path)] }
  | host fault message => { kind := .host fault, message }

def kind (f : Failure) : Kind := f.report.kind

/-- Whether a failure is that of a function of the host that has used up the stack. -/
def exhausts : Failure → Bool
  | host .recursion _ => true
  | _ => false

/-- What is reported of a failure that ends the reading of a text at a position. A stack that is
used up passes for a text that is too deep, whoever has used it up. -/
def reported (position : Nat) (limit : Int) (e : Failure) : Failure :=
  if e.exhausts then nestingTooDeep position limit else e

end Failure

/-- The report of a failure at any position, also at a negative one. -/
def Report.placed (f : Nat → Failure) (position : Int) : Report :=
  let r := (f 0).report
  .parse r.kind r.message (some position) r.details

/-- The report of a failure at no known position. -/
def Report.unplaced (f : Nat → Failure) : Report :=
  let r := (f 0).report
  { r with position := none, details := r.details.filter (·.1 != "position") }

end Reckoner
