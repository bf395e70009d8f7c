import Reckoner.Log.Record
import Reckoner.Log.Json

/-!
# Log lines

A record as one line of text or as one JSON object. The fields of a record follow the message; in
the JSON object a field with the name of a fixed member takes its place.
-/
namespace Reckoner.Log

/-- The time of a record as the two kinds of lines show it. -/
structure Clock where
  text : String
  json : String

/-- The text line: time, logger, level and message between dashes, an exception on a line of its
own, the fields in brackets. -/
def Record.textLine (clock : Clock) (r : Record) (exception : Option String) : String :=
  let line := s!"{clock.text} - {r.logger} - {r.level.label} - {r.message}"
  let line := match exception with
    | none => line
    | some e => (if line.endsWith "\n" then line else line ++ "\n") ++ e
  if r.fields.isEmpty then line
  else
    let pairs := r.fields.map fun (key, value) => key ++ "=" ++ value.display
    line ++ " [" ++ String.intercalate " " pairs ++ "]"

def Record.jsonLine (clock : Clock) (r : Record) (exception : Option String) : String :=
  let fixed := [("timestamp", Datum.text clock.json), ("level", .text r.level.label),
    ("logger", .text r.logger), ("message", .text r.message)]
  let last := match exception with
    | none => []
    | some e => [("exception", Datum.text e)]
  Json.value (Datum.fields (mergeFields (mergeFields fixed r.fields) last))

inductive Format where
  | text | json
deriving DecidableEq, Repr

/-- The format by its name; every name but `json` means text. -/
def Format.ofName (name : String) : Format := if name = "json" then json else text

def Record.line (clock : Clock) (format : Format) (r : Record) (exception : Option String) :
    String :=
  match format with
  | .text => r.textLine clock exception
  | .json => r.jsonLine clock exception

end Reckoner.Log
