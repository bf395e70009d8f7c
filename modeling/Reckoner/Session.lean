import Reckoner.Context.Document
import Reckoner.Settings
import Reckoner.Expr.Rendered

/-!
# Sessions

A session keeps contexts, evaluators and trees under names. Evaluators refer to contexts: what is
registered through one of them is seen by all that share its context. A step that fails leaves the
session as it was.
-/
namespace Reckoner

/-- Where a context comes from. -/
inductive ContextSource where
  | standard
  | empty (name : String)
  | file (path : String)

def ContextSource.create (files : Files) : ContextSource → Act Context
  | standard => Calculator.standardContext
  | empty name => pure (Context.empty name)
  | file path => Context.ofFile .whole path (files.read path)

/-- The context that a step is about: a named one, or that of an evaluator. -/
inductive Target where
  | context (id : String)
  | evaluator (id : String)

/-- An evaluator of a session refers to its context by number. -/
structure Seat where
  context : Nat
  reading : Reading

structure Session where
  contexts : List Context := []
  named : Table Nat := []
  evaluators : Table Seat := []
  trees : Table Expr := []

inductive Step where
  | context (id : String) (source : ContextSource)
  | evaluator (id : String) (context : Option String) (maxDepth : Option Int) (full : Option Bool)
  | constant (target : Target) (name : String) (value : Datum)
  | function (target : Target) (name : String) (f : Except Datum Callable)
  | lookup (target : Target) (name : String)
  | describe (target : Target)
  | evaluate (evaluator text : String)
  | tryEvaluate (evaluator text : String)
  | parse (id text : String) (maxDepth : Option Int) (full : Option Bool)
  | evaluateTree (tree : String) (context : Option String) (bindings : Bindings)

inductive Answer where
  | context (c : Context)
  | reading (r : Reading)
  | done
  | entries (constant : Option Float) (function : Option Callable)
  | value (x : Float)
  | outcome (o : Outcome)
  | tree (t : Expr)

namespace Session

/-- What a step names that the session does not hold. -/
def unknown (id : String) : Failure := .host .lookup (Text.quoted id)

def find {α : Type} (id : String) (t : Table α) : Except Failure α :=
  match t.get? id with
  | some a => .ok a
  | none => .error (unknown id)

/-- The number of a target's context. -/
def place (s : Session) : Target → Except Failure Nat
  | .context id => find id s.named
  | .evaluator id => (find id s.evaluators).map Seat.context

def contextAt (s : Session) (n : Nat) : Context := (s.contexts[n]?).getD (Context.empty "")

def contextOf (s : Session) (t : Target) : Except Failure Context := (s.place t).map s.contextAt

/-- Adds a context; its number is the number of those before it. -/
def add (s : Session) (c : Context) : Session × Nat :=
  ({ s with contexts := s.contexts ++ [c] }, s.contexts.length)

def replace (s : Session) (n : Nat) (c : Context) : Session :=
  { s with contexts := s.contexts.set n c }

def evaluatorOf (s : Session) (id : String) : Except Failure Calculator.Evaluator :=
  (find id s.evaluators).map fun seat => ⟨s.contextAt seat.context, seat.reading⟩

/-- What a step does to a session and answers. -/
def act (E : Elementary) (settings : Settings) (files : Files) (s : Session) :
    Step → Act (Session × Answer)
  | .context id source => do
    let c ← source.create files
    let (s, n) := s.add c
    return ({ s with named := s.named.put id n }, .context c)
  | .evaluator id context maxDepth full => do
    let (s, n) ← match context with
      | some c => pure (s, ← .ofExcept (find c s.named))
      | none => pure (s.add (← Calculator.standardContext))
    let reading := settings.reading maxDepth full
    return ({ s with evaluators := s.evaluators.put id ⟨n, reading⟩ }, .reading reading)
  | .constant target name value => do
    let n ← .ofExcept (s.place target)
    let c ← Calculator.registerConstant (s.contextAt n) name value
    return (s.replace n c, .done)
  | .function target name f => do
    let n ← .ofExcept (s.place target)
    let c ← Calculator.registerFunction (s.contextAt n) name f
    return (s.replace n c, .done)
  | .lookup target name => do
    let c ← .ofExcept (s.contextOf target)
    return (s, .entries (c.constant? name) (c.function? name))
  | .describe target => do
    return (s, .context (← .ofExcept (s.contextOf target)))
  | .evaluate id text => do
    let v ← .ofExcept (s.evaluatorOf id)
    return (s, .value (← v.evaluate E text))
  | .tryEvaluate id text => do
    let v ← .ofExcept (s.evaluatorOf id)
    return (s, .outcome (← v.tryEvaluate E text))
  | .parse id text maxDepth full => do
    let _ ← Calculator.standardContext
    let t ← Calculator.parse (settings.reading maxDepth full) text
    return ({ s with trees := s.trees.put id t }, .tree t)
  | .evaluateTree id context bindings => do
    let t ← .ofExcept (find id s.trees)
    let c ← match context with
      | some c => .ofExcept (s.contextOf (.context c))
      | none => Calculator.standardContext
    return (s, .value (← .ofExcept (t.value E c bindings)))

/-- A step of a session: the session after it, and its answer. -/
def step (E : Elementary) (settings : Settings) (files : Files) (s : Session) (step : Step) :
    Session × Act Answer :=
  let a := s.act E settings files step
  match a.outcome with
  | .ok (s', answer) => (s', ⟨a.emitted, .ok answer⟩)
  | .error e => (s, ⟨a.emitted, .error e⟩)

end Session
end Reckoner
