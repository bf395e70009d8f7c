import Reckoner.Yaml.Graph
import Reckoner.Yaml.Tag.Spelling
import Reckoner.Yaml.Token.Lexer

/-!
# Reading graphs from tokens

One document is read and a second one is refused. Collections get their numbers before what lies in
them; an alias must follow its anchor, and an anchor may be used once. What is wrong with the text
counts only where a token is needed there.
-/
namespace Reckoner.Yaml

/-- The tokens that are left, the nodes so far, and the nodes that carry anchors. -/
structure Reader where
  tokens : List Token
  graph : Graph := #[]
  anchors : List (String × Nat) := []

abbrev Read := StateT Reader Result

namespace Reader

/-- The tokens that are left; what is wrong in front of them is wrong here. -/
def next : Read (List Token) := do
  match (← get).tokens with
  | .broken d :: _ => throw d
  | ts => return ts

def leave (ts : List Token) : Read Unit := modify fun r => { r with tokens := ts }

def unexpected {α : Type} : Read α := do
  let _ ← next
  throw .malformed

/-- Adds a node, which takes its anchor. -/
def add (anchor : Option String) (n : Node) : Read Nat := do
  let r ← get
  let id := r.graph.size
  match anchor with
  | none => set { r with graph := r.graph.push n }
  | some a =>
    if (r.anchors.lookup a).isSome then throw .malformed
    set { r with graph := r.graph.push n, anchors := (a, id) :: r.anchors }
  return id

/-- The empty scalar, which is null by its spelling. -/
def nothing : Read Nat := add none ⟨.null, .scalar ""⟩

def target (name : String) : Read Nat := do
  match (← get).anchors.lookup name with
  | some id => return id
  | none => throw .malformed

abbrev Handles := List (String × String)

def defaultHandles : Handles := [("!", "!"), ("!!", Tag.standardStart)]

/-- The tag that a token stands for. -/
def resolve (hs : Handles) : Option String → String → Read String
  | none, suffix => return suffix
  | some handle, suffix => match hs.lookup handle with
    | some expansion => return expansion ++ suffix
    | none => throw .malformed

/-- Anchor and tag before a node, in either order, at most one of each. -/
def properties (hs : Handles) : Read (Option String × Option String) := do
  match ← next with
  | .anchor a :: ts => do
    leave ts
    match ← next with
    | .tag h s :: ts => do
      leave ts
      return (some a, some (← resolve hs h s))
    | _ => return (some a, none)
  | .tag h s :: ts => do
    leave ts
    match ← next with
    | .anchor a :: ts => do
      leave ts
      return (some a, some (← resolve hs h s))
    | _ => return (none, some (← resolve hs h s))
  | _ => return (none, none)

/-- A lone exclamation mark is no tag. -/
def isUntagged (tag : Option String) : Bool := tag.all (· == "!")

/-- The tag of a scalar: as it is written, else by its spelling if it is plain or has the lone
mark, else text. -/
def scalarTag (tag : Option String) (isPlain : Bool) (text : String) : Tag :=
  match tag with
  | none => if isPlain then .ofSpelling text else .text
  | some "!" => .ofSpelling text
  | some tag => .ofText tag

def collectionTag (tag : Option String) (usual : Tag) : Tag :=
  if isUntagged tag then usual else .ofText (tag.getD "")

def sequence (anchor tag : Option String) (items : Read (List Nat)) : Read Nat := do
  let id ← add anchor ⟨collectionTag tag .sequence, .sequence []⟩
  let items ← items
  modify fun r => { r with graph := r.graph.setContent id (.sequence items) }
  return id

def mapping (anchor tag : Option String) (entries : Read (List (Nat × Nat))) : Read Nat := do
  let id ← add anchor ⟨collectionTag tag .mapping, .mapping []⟩
  let entries ← entries
  modify fun r => { r with graph := r.graph.setContent id (.mapping entries) }
  return id

/-- A node that is only its anchor or tag. -/
def empty (anchor tag : Option String) : Read Nat :=
  if anchor.isNone && tag.isNone then throw .malformed
  else add anchor ⟨scalarTag tag true "", .scalar ""⟩

def tooDeep {α : Type} : Read α := throw
  (.escaped (.host .recursion "maximum recursion depth exceeded"))

/-- How deeply collections may nest. -/
def room : Nat := 485

mutual

/-- A node. Block collections need `isBlock`, a sequence at its parent's indentation `isFlush`. -/
def node (hs : Handles) (isBlock isFlush : Bool) : Nat → Nat → Read Nat
  | 0, _ => throw .malformed
  | _, 0 => tooDeep
  | fuel + 1, room + 1 => do
    match ← next with
    | .aliasOf name :: ts => do
      leave ts
      target name
    | _ => do
      let (anchor, tag) ← properties hs
      match ← next with
      | .scalar text isPlain :: ts => do
        leave ts
        add anchor ⟨scalarTag tag isPlain text, .scalar text⟩
      | .flowSequenceStart :: ts => do
        leave ts
        sequence anchor tag (flowItems hs true fuel room)
      | .flowMappingStart :: ts => do
        leave ts
        mapping anchor tag (flowEntries hs true fuel room)
      | .blockEntry :: _ =>
        if isFlush then sequence anchor tag (blockItems hs true fuel room) else empty anchor tag
      | .blockSequenceStart :: ts =>
        if isBlock then do
          leave ts
          sequence anchor tag (blockItems hs false fuel room)
        else empty anchor tag
      | .blockMappingStart :: ts =>
        if isBlock then do
          leave ts
          mapping anchor tag (blockEntries hs fuel room)
        else empty anchor tag
      | _ => empty anchor tag
termination_by structural fuel => fuel

/-- A node unless the entry ends here. -/
def optional (hs : Handles) (isBlock isFlush : Bool) (ends : List Token) :
    Nat → Nat → Read Nat
  | 0, _ => throw .malformed
  | fuel + 1, room => do
    match ← next with
    | t :: _ => if ends.contains t then nothing else node hs isBlock isFlush fuel room
    | [] => node hs isBlock isFlush fuel room
termination_by structural fuel => fuel

/-- A value, if its token is there. -/
def valueOf (hs : Handles) (isBlock : Bool) (ends : List Token) : Nat → Nat → Read Nat
  | 0, _ => throw .malformed
  | fuel + 1, room => do
    match ← next with
    | .value :: ts => do
      leave ts
      optional hs isBlock isBlock ends fuel room
    | _ => nothing
termination_by structural fuel => fuel

/-- The entries of a block sequence; a flush one ends without a token of its own. -/
def blockItems (hs : Handles) (isFlush : Bool) : Nat → Nat → Read (List Nat)
  | 0, _ => throw .malformed
  | fuel + 1, room => do
    match ← next with
    | .blockEntry :: ts => do
      leave ts
      let ends : List Token := if isFlush then [.blockEntry, .key, .value, .blockEnd]
        else [.blockEntry, .blockEnd]
      let item ← optional hs true false ends fuel room
      return item :: (← blockItems hs isFlush fuel room)
    | .blockEnd :: ts => do
      if !isFlush then leave ts
      return []
    | _ => if isFlush then return [] else throw .malformed
termination_by structural fuel => fuel

/-- The entries of a block mapping, in which a value may be missing. -/
def blockEntries (hs : Handles) : Nat → Nat → Read (List (Nat × Nat))
  | 0, _ => throw .malformed
  | fuel + 1, room => do
    match ← next with
    | .blockEnd :: ts => do
      leave ts
      return []
    | .key :: ts => do
      leave ts
      let ends : List Token := [.key, .value, .blockEnd]
      let key ← optional hs true true ends fuel room
      let item ← valueOf hs true ends fuel room
      return (key, item) :: (← blockEntries hs fuel room)
    | _ => throw .malformed
termination_by structural fuel => fuel

/-- The items of a flow sequence; a key makes an item a mapping with one entry. -/
def flowItems (hs : Handles) (isFirst : Bool) : Nat → Nat → Read (List Nat)
  | 0, _ => throw .malformed
  | fuel + 1, room => do
    match ← next with
    | .flowSequenceEnd :: ts => do
      leave ts
      return []
    | .flowEntry :: ts => if isFirst then unexpected else leave ts
    | _ => if isFirst then pure () else unexpected
    match ← next with
    | .flowSequenceEnd :: ts => do
      leave ts
      return []
    | .key :: ts => do
      leave ts
      let item ← mapping none none do
        let key ← optional hs false false [.value, .flowEntry, .flowSequenceEnd] fuel (room - 1)
        return [(key, ← valueOf hs false [.flowEntry, .flowSequenceEnd] fuel (room - 1))]
      return item :: (← flowItems hs false fuel room)
    | _ => do
      let item ← node hs false false fuel room
      return item :: (← flowItems hs false fuel room)
termination_by structural fuel => fuel

def flowEntries (hs : Handles) (isFirst : Bool) : Nat → Nat → Read (List (Nat × Nat))
  | 0, _ => throw .malformed
  | fuel + 1, room => do
    match ← next with
    | .flowMappingEnd :: ts => do
      leave ts
      return []
    | .flowEntry :: ts => if isFirst then unexpected else leave ts
    | _ => if isFirst then pure () else unexpected
    match ← next with
    | .flowMappingEnd :: ts => do
      leave ts
      return []
    | .key :: ts => do
      leave ts
      let key ← optional hs false false [.value, .flowEntry, .flowMappingEnd] fuel room
      let item ← valueOf hs false [.flowEntry, .flowMappingEnd] fuel room
      return (key, item) :: (← flowEntries hs false fuel room)
    | _ => do
      let key ← node hs false false fuel room
      let item ← nothing
      return (key, item) :: (← flowEntries hs false fuel room)
termination_by structural fuel => fuel

end

/-- The directives before a document: one version 1, and each handle once. -/
def directives : List Token → Bool → Handles → Result (Handles × List Token)
  | .version major :: ts, isVersioned, hs =>
    if isVersioned || major ≠ 1 then malformed else directives ts true hs
  | .tagHandle h expansion :: ts, isVersioned, hs =>
    if hs.any (·.1 == h) then malformed else directives ts isVersioned ((h, expansion) :: hs)
  | .reserved :: ts, isVersioned, hs => directives ts isVersioned hs
  | .broken d :: _, _, _ => .error d
  | ts, _, hs => .ok (hs ++ defaultHandles, ts)

def isDirective : Token → Bool
  | .version _ | .tagHandle .. | .reserved => true
  | _ => false

/-- The root behind the start of a document, which may hold nothing. -/
def content (hs : Handles) (fuel : Nat) : Read Nat := do
  match ← next with
  | [] => nothing
  | t :: _ =>
    if isDirective t || t = .documentStart || t = .documentEnd then nothing
    else node hs true false fuel room

/-- Nothing but ends of the document may follow it. -/
def finish : Read Unit := do
  match (← get).tokens.dropWhile (· == .documentEnd) with
  | [] => return
  | ts => do
    let _ ← directives ts false []
    throw .malformed

/-- The root of the only document, if there is one. -/
def document (fuel : Nat) : Read (Option Nat) := do
  match ← next with
  | [] => return none
  | first :: _ =>
    let root ← if isDirective first || first = .documentStart then do
        match ← directives (← get).tokens false [] with
        | (hs, .documentStart :: ts) => do
          leave ts
          content hs fuel
        | _ => throw .malformed
      else node defaultHandles true false fuel room
    finish
    return some root

end Reader

/-- The graph of the only document in a text, with the number of its root if there is one. -/
def Graph.ofText (cs : List Char) : Result (Graph × Option Nat) := do
  let tokens := Token.ofText cs
  let (root, r) ← (Reader.document (4 * tokens.length + 4)).run { tokens }
  return (r.graph, root)

end Reckoner.Yaml
