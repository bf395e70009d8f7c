import Reckoner.Yaml.Base64
import Reckoner.Yaml.Graph.Reader
import Reckoner.Yaml.Number
import Reckoner.Yaml.Value.Placement

/-!
# Building values from graphs

Scalars get their values at once. Collections are begun when they are met and filled round by round,
so that faults far inside come after those near the root. In a mapping a later entry takes the place
of an earlier one with an equal key; the entries of merged mappings come before its own.
-/
namespace Reckoner.Yaml

structure Builder where
  graph : Graph
  /-- The collections that are begun, and not filled, the latest first. -/
  waiting : List Nat := []
  begun : List Nat := []
  filled : List (Nat × Collection) := []

abbrev Build := StateT Builder Result

namespace Graph

/-- The text of a scalar, or of the scalar that a mapping stands for by its default key. -/
def scalarText (g : Graph) : Nat → Nat → Result String
  | 0, _ => escaped .recursion "maximum recursion depth exceeded"
  | fuel + 1, id => match g.content? id with
    | some (.scalar text) => .ok text
    | some (.mapping entries) => match entries.find? fun e => g.tag e.1 = .default with
      | some (_, inner) => scalarText g fuel inner
      | none => malformed
    | _ => malformed

/-- The text of the scalar at a node. -/
def text (g : Graph) (id : Nat) : Result String := g.scalarText (g.size + 1) id

/-- A timestamp is read from the node's own content, which must be a text. -/
def timestamp (g : Graph) (id : Nat) : Result Datum := do
  let _ ← g.text id
  match g.content? id with
  | some (.scalar text) => match Timestamp.ofText? text with
    | some t => t.value
    | none => escaped .member "'NoneType' object has no attribute 'groupdict'"
  | _ => escaped .type "expected string or bytes-like object, got 'list'"

/-- The words for not-a-number make one value each, its mark always the same one. -/
def float (g : Graph) (id : Nat) : Result Value := do
  let text ← g.text id
  let x ← Yaml.float text
  if !x.isNaN then return .scalar (.float x)
  let isMark := (Text.lower text).toList.filter (· != '_') |>.dropWhile fun c => c = '+' || c = '-'
  return .nan (if isMark = ['.', 'n', 'a', 'n'] then none else some id)

/-- The value of a node that is tagged as a scalar. -/
def scalar? (g : Graph) (id : Nat) : Option (Result Value) :=
  let plain (value : String → Result Datum) : Option (Result Value) :=
    some (do return .scalar (← value (← g.text id)))
  match g.tag id with
  | .null => plain fun _ => .ok .null
  | .bool => plain fun text => do return .bool (← truth text)
  | .int => plain fun text => do return .int (← integer text)
  | .float => some (g.float id)
  | .binary => plain Base64.decode
  | .timestamp => some (do return .scalar (← g.timestamp id))
  | .text => plain fun text => .ok (.text text)
  | _ => none

def isMergeKey (g : Graph) (e : Nat × Nat) : Bool := g.tag e.1 = .merge

/-- Default keys of a mapping count as texts. -/
def withTextKeys (g : Graph) (entries : List (Nat × Nat)) : Graph :=
  entries.foldl (fun g e => if g.tag e.1 = .default then g.setTag e.1 .text else g) g

/-- Merges the mappings that a mapping's merge keys name, those of a sequence from the last to the
first, and puts their entries before its own. Each merge key is taken out before its mappings are
merged in the same way, so a mapping may name itself. -/
def merge (g : Graph) (id : Nat) : Nat → List (Nat × Nat) → Result Graph
  | 0, _ => malformed
  | fuel + 1, merged => do
    let entries ← g.entries id
    match entries.find? g.isMergeKey with
    | none => return (g.withTextKeys entries).setContent id (.mapping (merged ++ entries))
    | some e =>
      let g := g.setContent id (.mapping (entries.eraseP g.isMergeKey))
      match g.content? e.2 with
      | some (.mapping _) => do
        let g ← merge g e.2 fuel []
        merge g id fuel (merged ++ (← g.entries e.2))
      | some (.sequence sources) => do
        let (g, parts) ← sources.foldlM (fun (g, parts) source => do
          let _ ← Graph.entries g source
          let g ← merge g source fuel []
          return (g, (← g.entries source) :: parts)) (g, [])
        merge g id fuel (merged ++ parts.flatten)
      | _ => malformed

/-- How many merge keys there are. -/
def mergeKeys (g : Graph) : Nat :=
  (g.toList.flatMap fun n => match n.content with
    | .mapping entries => entries.filter g.isMergeKey
    | _ => []).length

/-- A mapping with what it merges. -/
def merged (g : Graph) (id : Nat) : Result Graph := g.merge id (g.mergeKeys + 1) []

end Graph

namespace Builder

/-- The value of a node; a collection is begun unless it is. -/
def value (id : Nat) : Build Value := do
  let b ← get
  match b.graph.scalar? id with
  | some v => v
  | none => match b.graph.tag id with
    | .sequence | .orderedMapping | .pairs | .mapping | .set => do
      if !b.begun.contains id then
        set { b with begun := id :: b.begun, waiting := id :: b.waiting }
      return .collection id
    | _ => throw .malformed

/-- The pair that a mapping with one entry stands for. -/
def pair (id : Nat) : Build (Value × Value) := do
  match ← (← get).graph.entries id with
  | [e] => return (← value e.1, ← value e.2)
  | _ => throw .malformed

/-- Adds the values of an entry, the key of which must be a scalar. -/
def put (entries : List (Value × Value)) (e : Nat × Nat) : Build (List (Value × Value)) := do
  let key ← value e.1
  if key matches .collection _ then throw .malformed
  return Value.putEntry key (← value e.2) entries

/-- The entries of a mapping with what it merges. -/
def entries (id : Nat) : Build (List (Value × Value)) := do
  let b ← get
  let _ ← b.graph.entries id
  set { b with graph := ← b.graph.merged id }
  (← (← get).graph.entries id).foldlM put []

/-- Fills a collection that is begun. -/
def fill (id : Nat) : Build Unit := do
  let g := (← get).graph
  let c ← match g.tag id with
    | .sequence => pure (Collection.list (← (← g.items id).mapM value))
    | .mapping => pure (Collection.mapping (← entries id))
    | .set => pure (Collection.set (Placement.order ((← entries id).map Prod.fst)))
    | _ => pure (Collection.pairs (← (← g.items id).mapM pair))
  modify fun b => { b with filled := (id, c) :: b.filled }

/-- Fills all collections that are begun, round by round. -/
def rounds : Nat → Build Unit
  | 0 => pure ()
  | fuel + 1 => do
    let b ← get
    set { b with waiting := [] }
    b.waiting.reverse.forM fill
    rounds fuel

/-- A document with its root at a node. -/
def document (root : Nat) : Build Document := do
  let v ← value root
  rounds (← get).graph.size
  return ⟨v, (← get).filled.reverse⟩

end Builder

/-- The value of a text with one document; an empty text has the value null. -/
def Document.ofText (text : String) : Result Document := do
  match ← Graph.ofText text.toList with
  | (_, none) => return ⟨.scalar .null, []⟩
  | (graph, some root) => return (← (Builder.document root).run { graph }).1

end Reckoner.Yaml
