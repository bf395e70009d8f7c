import Reckoner.Yaml.Token

/-!
# Tags of YAML nodes

The tag of a node says what its value is. All tags but the standard ones are `other`, which no value
can be built for.
-/
namespace Reckoner.Yaml

inductive Tag where
  | null | bool | int | float | binary | timestamp | text
  | sequence | orderedMapping | pairs
  | mapping | set
  /-- The key of a mapping that is merged into the one around it. -/
  | merge
  /-- The key of the scalar that a mapping can stand for. -/
  | default
  | other
deriving DecidableEq, Repr

namespace Tag

/-- A standard tag by its name. -/
def ofName : String → Tag
  | "null" => null
  | "bool" => bool
  | "int" => int
  | "float" => float
  | "binary" => binary
  | "timestamp" => timestamp
  | "str" => text
  | "seq" => sequence
  | "omap" => orderedMapping
  | "pairs" => pairs
  | "map" => mapping
  | "set" => set
  | "merge" => merge
  | "value" => default
  | _ => other

/-- The start of the standard tags. -/
def standardStart : String := "tag:yaml.org,2002:"

def ofText (tag : String) : Tag :=
  if tag.startsWith standardStart then
    ofName (String.ofList (tag.toList.drop standardStart.length))
  else other

end Tag
end Reckoner.Yaml
