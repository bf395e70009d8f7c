import Reckoner.Calculator
import Reckoner.Files
import Reckoner.Yaml.Loader

/-!
# Context documents

A document adds constants and new names for library functions to the standard context, or to an
empty one if it leaves out the defaults:

    name: Engineering
    include_defaults: true
    constants:
      g: 9.80665
    functions:
      arcsin: asin

Entries are registered in their order, constants first. Whatever is wrong with a document is a
failure that names the path of its file.
-/
namespace Reckoner.Context

open Calculator

abbrev Entries := List (Yaml.Value × Yaml.Value)

/-- The entries of a document; one that holds nothing has none. -/
def entriesOf (path : String) (document : Yaml.Document) : Except Failure Entries :=
  match document.entries? document.root with
  | some entries => .ok entries
  | none =>
    if document.isGiven document.root then
      .error (.badContext "Context file must contain a mapping" path)
    else .ok []

/-- A part of the document that is a mapping if it is given. -/
def part (path : String) (document : Yaml.Document) (name : String) (entries : Entries) :
    Except Failure Entries :=
  match Yaml.Value.entry? name entries with
  | none => .ok []
  | some v =>
    if !document.isGiven v then .ok []
    else match document.entries? v with
      | some entries => .ok entries
      | none => .error (.badContext s!"'{name}' must be a mapping" path)

def textFailure : Datum.TextFault → Failure
  | .digits => .host .value Number.notWritable
  | .nesting =>
    .host .recursion "maximum recursion depth exceeded while getting the repr of an object"

/-- A text that shows a value, if there is one. -/
def shown (text : Datum → String) (d : Datum) : Except Failure String :=
  match d.textFault? Datum.room with
  | none => .ok (text d)
  | some fault => .error (textFailure fault)

/-- Names in a document that are no texts are shown as texts, but are no identifiers. -/
def nameOf (path : String) : Datum → Except Failure String
  | .text name => if isIdentifier name then .ok name else refuse name
  | d => do refuse (← shown Datum.plain d)
where
  refuse (name : String) : Except Failure String :=
    .error (.badContext (Failure.invalidName name).report.message path)

/-- The number of a constant. -/
def number (path : String) (name value : Datum) : Except Failure Float :=
  match value with
  | .int _ | .float _ => value.toFloat
  | _ => do
    .error (.badContext (s!"Constant '{← shown Datum.plain name}' must be numeric, " ++
      s!"got {← shown Datum.display value}") path)

/-- The library function that a new name stands for. -/
def target (path : String) (newName value : Datum) : Except Failure LibraryFunction := do
  if let .text name := value then
    if let some f := LibraryFunction.ofName? name then return f
  if !value.isKey then .error (.host .type s!"unhashable type: '{value.kind}'")
  .error (.badContext (s!"Function '{← shown Datum.plain newName}' refers to " ++
    s!"unknown library function {← shown Datum.display value}") path)

def addConstant (path : String) (c : Context) (entry : Datum × Datum) : Act Context := do
  let x ← .ofExcept (number path entry.1 entry.2)
  Calculator.registerConstant c (← .ofExcept (nameOf path entry.1)) (.float x)

def addFunction (path : String) (c : Context) (entry : Datum × Datum) : Act Context := do
  let f ← .ofExcept (target path entry.1 entry.2)
  Calculator.registerFunction c (← .ofExcept (nameOf path entry.1)) (.ok (.library f))

def loadedRecord (c : Context) (path : String) : Log.Record :=
  ⟨.info, contextLogger, s!"Loaded context {c.name} from {path} " ++
    s!"({c.functions.length} functions, {c.constants.length} constants)", []⟩

/-- Registers the entries of a part in their order. -/
def addPart (path : String) (document : Yaml.Document) (name : String) (entries : Entries)
    (add : Context → Datum × Datum → Act Context) (c : Context) : Act Context := do
  (← .ofExcept (part path document name entries)).foldlM
    (fun c e => add c (document.datum e.1, document.datum e.2)) c

/-- The context that a document describes. -/
def ofDocument (path : String) (document : Yaml.Document) : Act Context := do
  let entries ← .ofExcept (entriesOf path document)
  let base ← if (Yaml.Value.entry? "include_defaults" entries).all document.isGiven
    then standardContext else pure (Context.empty "Empty")
  let name ← match Yaml.Value.entry? "name" entries with
    | some v => .ofExcept (shown Datum.plain (document.datum v))
    | none => pure (Path.ofText path).stem
  let c ← addPart path document "constants" entries (addConstant path) { base with name }
  let c ← addPart path document "functions" entries (addFunction path) c
  .log (loadedRecord c path)
  return c

/-- A path that no system takes. -/
def nullByte : Failure := .host .value "embedded null byte"

def malformedMessage (explanation : Option String) : String :=
  "Invalid YAML in context file" ++ explanation.elim "" (": " ++ ·)

/-- What is wrong with a file at a path that gives no document. -/
def unreadFailure (path : String) : Yaml.Unread → Failure
  | .malformed explanation => .badContext (malformedMessage explanation) path
  | .undecodable message => .host .decoding message
  | .escaped e => e

/-- The context that the file at a path describes, by the document that is loaded from its
content. -/
def ofFile (load : Yaml.Loader) (path : String) (content : Except Files.Refusal ByteArray) :
    Act Context := do
  if path.contains '\x00' then .fail nullByte
  match content with
  | .error refusal =>
    .fail (.badContext s!"Cannot read context file: {refusal.message path}" path)
  | .ok bytes => match load bytes with
    | .error e => .fail (unreadFailure path e)
    | .ok document => ofDocument path document

end Reckoner.Context
