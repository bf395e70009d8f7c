import Reckoner.Failure
import Reckoner.Log.Record
import Reckoner.Text.Case

/-!
# Thresholds of log records

A threshold is asked for by the name of a level in any case of letters. Names of the log's other
constants are no levels and are refused; a name of nothing stands for warnings.
-/
namespace Reckoner.Log

/-- The layout that lines have where none is set; its name is no name of a level. -/
def basicLayout : String := "%(levelname)s:%(name)s:%(message)s"

/-- The table of the styles of layouts as messages show it. -/
def stylesText : String :=
  let inBraces (s : String) : String := "\x7b" ++ s ++ "\x7d"
  let entry (mark kind layout : String) : String :=
    s!"'{mark}': (<class 'logging.{kind}'>, '{layout}')"
  let names := ["levelname", "name", "message"]
  let joined (write : String → String) : String := String.intercalate ":" (names.map write)
  inBraces (Datum.commaSeparated
    [entry "%" "PercentStyle" basicLayout,
      entry "\x7b" "StrFormatStyle" (joined inBraces),
      entry "$" "StringTemplateStyle" (joined fun name => "$" ++ inBraces name)])

/-- The least rank of the records that are written for a name. -/
def threshold (name : String) : Except Failure Nat :=
  match Text.capitals name with
  | "NOTSET" => .ok 0
  | "BASIC_FORMAT" => .error (.host .value s!"Unknown level: {Text.quoted basicLayout}")
  | "_STYLES" =>
    .error (.host .type s!"Level not an integer or a valid string: {stylesText}")
  | name => .ok ((Level.ofLabel? name).getD .warning).rank

end Reckoner.Log
