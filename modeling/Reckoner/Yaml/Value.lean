import Reckoner.Yaml.Graph

/-!
# Values of YAML documents

The value of a document: scalars, and collections that refer to each other by the numbers of their
nodes. Seen as data, a collection inside itself is cut off where it comes again.
-/
namespace Reckoner.Yaml

inductive Value where
  | scalar (d : Datum)
  /-- Not-a-number, which is the same key only if it has the same origin. -/
  | nan (origin : Option Nat)
  | collection (id : Nat)

inductive Collection where
  | list (items : List Value)
  | pairs (entries : List (Value × Value))
  | mapping (entries : List (Value × Value))
  | set (items : List Value)

namespace Collection

def isMapping : Collection → Bool
  | mapping _ => true
  | _ => false

def isEmpty : Collection → Bool
  | list items | set items => items.isEmpty
  | pairs entries | mapping entries => entries.isEmpty

/-- A collection as data, its values being shown by `inner`. -/
def opened (inner : Value → Datum) : Collection → Datum
  | list items => .list (items.map inner)
  | pairs entries => .list (entries.map fun e => .tuple [inner e.1, inner e.2])
  | mapping entries => .mapping (entries.map fun e => (inner e.1, inner e.2))
  | set items => .set (items.map inner)

end Collection

namespace Value

/-- Whether two values are the same key. -/
def sameKey : Value → Value → Bool
  | scalar a, scalar b => a.sameKey b
  | nan a, nan b => a == b
  | _, _ => false

/-- Adds an entry; a key that is there keeps its place and takes the new value. -/
def putEntry (key value : Value) : List (Value × Value) → List (Value × Value)
  | [] => [(key, value)]
  | (k, v) :: entries =>
    if sameKey k key then (k, value) :: entries else (k, v) :: putEntry key value entries

/-- The value under a text in a mapping. -/
def entry? (name : String) (es : List (Value × Value)) : Option Value :=
  (es.find? fun e => e.1.sameKey (.scalar (.text name))).map Prod.snd

end Value

/-- A value with the collections that it refers to. -/
structure Document where
  root : Value
  collections : List (Nat × Collection)

namespace Document

variable (doc : Document)

/-- A value as data, in which only the collections with the numbers `left` are opened, `depth` of
them inside each other. -/
def datumWithin (left : List Nat) (depth : Nat) : Value → Datum
  | .scalar d => d
  | .nan _ => .float Number.nan
  | .collection id =>
    match doc.collections.lookup id, depth with
    | none, _ => .null
    | some c, depth + 1 =>
      if id ∈ left then c.opened (datumWithin (left.erase id) depth) else .again c.isMapping
    | some c, 0 => .again c.isMapping
termination_by structural depth

/-- A value as data, in which all collections are opened that are not inside themselves. -/
def datum (v : Value) : Datum :=
  let ids := doc.collections.map Prod.fst
  doc.datumWithin ids ids.length v

/-- The entries of a value that is a mapping. -/
def entries? : Value → Option (List (Value × Value))
  | .collection id => match doc.collections.lookup id with
    | some (.mapping es) => some es
    | _ => none
  | _ => none

/-- Whether a value counts as given. -/
def isGiven : Value → Bool
  | .scalar d => d.isGiven
  | .nan _ => true
  | .collection id => !((doc.collections.lookup id).any Collection.isEmpty)

end Document
end Reckoner.Yaml
