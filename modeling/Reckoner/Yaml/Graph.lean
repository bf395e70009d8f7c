import Reckoner.Yaml.Tag

/-!
# Graphs of YAML nodes

The structure of a document: scalars, sequences and mappings with their tags. Nodes refer to each
other by number, so that an alias is the node that carries its anchor, and a collection may lie
inside itself.
-/
namespace Reckoner.Yaml

/-- What a node holds: a text, or the numbers of other nodes. -/
inductive Content where
  | scalar (text : String)
  | sequence (items : List Nat)
  | mapping (entries : List (Nat × Nat))
deriving DecidableEq, Repr

structure Node where
  tag : Tag
  content : Content
deriving DecidableEq, Repr

abbrev Graph := Array Node

namespace Graph

def node? (g : Graph) (id : Nat) : Option Node := g[id]?

def content? (g : Graph) (id : Nat) : Option Content := (g.node? id).map Node.content

/-- The tag of a node; a node that is not there has none of the standard ones. -/
def tag (g : Graph) (id : Nat) : Tag := ((g.node? id).map Node.tag).getD .other

/-- The entries of a mapping; a node of another kind is malformed in its place. -/
def entries (g : Graph) (id : Nat) : Result (List (Nat × Nat)) :=
  match g.content? id with
  | some (.mapping es) => .ok es
  | _ => malformed

def items (g : Graph) (id : Nat) : Result (List Nat) :=
  match g.content? id with
  | some (.sequence items) => .ok items
  | _ => malformed

def setContent (g : Graph) (id : Nat) (c : Content) : Graph :=
  g.modify id fun n => { n with content := c }

def setTag (g : Graph) (id : Nat) (t : Tag) : Graph := g.modify id fun n => { n with tag := t }

end Graph
end Reckoner.Yaml
