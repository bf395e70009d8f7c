import Reckoner.Act
import Reckoner.Evaluation
import Reckoner.Outcome

/-!
# The calculator's actions

Registrations, evaluations and parses with the log records that they leave. The record of a parse
has the debug form of the tree, for which there is taken to be stack enough however deep the tree
is.
-/
namespace Reckoner.Calculator

def contextLogger : String := "advcalc.parser.context"

def parserLogger : String := "advcalc.parser.parser"

def interfaceLogger : String := "advcalc.cli"

/-- A record of the parser, which carries its component. -/
def parserRecord (message : String) (fields : List (String × Datum)) : Log.Record :=
  ⟨.debug, parserLogger, message, ("component", .text "parser") :: fields⟩

def functionRecord (name context : String) : Log.Record :=
  ⟨.debug, contextLogger, s!"Registered function {name} in context {context}", []⟩

def constantRecord (name : String) (value : Datum) (context : String) : Log.Record :=
  ⟨.debug, contextLogger, s!"Registered constant {name} = {value.display} in context {context}", []⟩

def registerFunction (c : Context) (name : String) (f : Except Datum Callable) : Act Context := do
  let c' ← .ofExcept (c.registerFunction name f)
  .log (functionRecord name c.name)
  return c'

def registerConstant (c : Context) (name : String) (value : Datum) : Act Context := do
  let c' ← .ofExcept (c.registerConstant name value)
  .log (constantRecord name value c.name)
  return c'

/-- The standard context, whose entries are recorded one by one. -/
def standardContext : Act Context := do
  .emit (LibraryFunction.all.map fun f => .record (functionRecord f.name "Standard"))
  .emit (Context.standardConstants.map fun (name, x) =>
    .record (constantRecord name (.float x) "Standard"))
  return Context.standard

/-- An evaluator has a context and a way of reading. -/
structure Evaluator where
  context : Context
  reading : Reading

variable (E : Elementary)

/-- What an evaluation records: its result, or a failure of the calculator itself. -/
def evaluationRecord (text : String) : Except Failure Float → Option Log.Record
  | .ok x =>
    some (parserRecord "Evaluated expression" [("expression", .text text), ("result", .float x)])
  | .error e =>
    if e.kind.isCalculator then
      some (parserRecord "Evaluation failed"
        [("expression", .text text), ("error", Datum.fields e.report.fields)])
    else none

def Evaluator.evaluate (v : Evaluator) (text : String) : Act Float :=
  let result := v.reading.evaluate E v.context text
  ⟨(evaluationRecord text result).toList.map .record, result⟩

/-- The outcome of an expression. Only faults of the host other than wrong values and arithmetic
are not captured. -/
def Evaluator.tryEvaluate (v : Evaluator) (text : String) : Act Outcome := do
  match ← (v.evaluate E text).attempt with
  | .ok x => return { expression := text, value := some x }
  | .error e => if e.kind.isCaptured then return Outcome.ofFailure text e else .fail e

def parse (r : Reading) (text : String) : Act Expr := do
  let tree ← .ofExcept (r.parse text)
  .log (parserRecord "Parsed expression" [("expression", .text text), ("tree", .text tree.debug)])
  return tree

end Reckoner.Calculator
