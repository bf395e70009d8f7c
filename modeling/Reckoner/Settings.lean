import Reckoner.Evaluation
import Reckoner.Number.Field
import Reckoner.Settings.Variables
import Reckoner.Text.Utf8

/-!
# Settings

The settings come from environment variables, then from the file `.env`, then from defaults. All
wrong values are reported, in the order of the settings.
-/
namespace Reckoner

structure Settings where
  appName : String := "Advanced Calculator"
  appVersion : String := "0.1.0"
  /-- Zero disables the guard against deep nesting. -/
  maxDepth : Int := 100
  requireFullInput : Bool := true
  contextFile : Option String := none
  prompt : String := "> "
  /-- Significant digits of printed values. -/
  precision : Int := 12
  logLevel : String := "WARNING"
  logFormat : String := "text"
  logFile : Option String := none

namespace Settings

/-- The greatest nesting limit that may be set. -/
def maxDepthLimit : Int := 150

/-- How much room an evaluator has, above what every limit that may be set needs. -/
def room : Nat := 960

/-- Names of settings with what is wrong with their values. -/
abbrev Defects := List (String × String)

def bool? (text : String) : Option Bool :=
  let word := text.map Char.toLower
  if ["1", "t", "y", "on", "yes", "true"].contains word then some true
  else if ["0", "f", "n", "no", "off", "false"].contains word then some false
  else none

def integerOf (name : String) (default : Int) : Option String → Except (String × String) Int
  | none => .ok default
  | some text => match Number.fieldInteger text with
    | .ok n => .ok n
    | .error .malformed => .error (name, "int_parsing")
    | .error (.tooLong _) => .error (name, "int_parsing_size")

def depthOf (name : String) (default : Int) (text : Option String) :
    Except (String × String) Int := do
  let n ← integerOf name default text
  if n < 0 then .error (name, "greater_than_equal")
  else if n > maxDepthLimit then .error (name, "less_than_equal")
  else return n

def boolOf (name : String) (default : Bool) : Option String → Except (String × String) Bool
  | none => .ok default
  | some text => match bool? text with
    | some b => .ok b
    | none => .error (name, "bool_parsing")

def defectsOf {α : Type} : Except (String × String) α → Defects
  | .ok _ => []
  | .error d => [d]

/-- The settings from the values of variables without their common start. -/
def ofValues (value? : String → Option String) : Except Defects Settings :=
  let maxDepth := depthOf "MAX_DEPTH" 100 (value? "MAX_DEPTH")
  let full := boolOf "REQUIRE_FULL_INPUT" true (value? "REQUIRE_FULL_INPUT")
  let precision := integerOf "PRECISION" 12 (value? "PRECISION")
  match maxDepth, full, precision with
  | .ok maxDepth, .ok requireFullInput, .ok precision =>
    .ok
      { appName := (value? "APP_NAME").getD "Advanced Calculator"
        appVersion := (value? "APP_VERSION").getD "0.1.0"
        maxDepth, requireFullInput, precision
        contextFile := value? "CONTEXT_FILE"
        prompt := (value? "PROMPT").getD "> "
        logLevel := (value? "LOG_LEVEL").getD "WARNING"
        logFormat := (value? "LOG_FORMAT").getD "text"
        logFile := value? "LOG_FILE" }
  | _, _, _ => .error (defectsOf maxDepth ++ defectsOf full ++ defectsOf precision)

/-- The common start of the variables' names. -/
def start : String := "ADVCALC_"

/-- The names of all variables that settings are read from. -/
def variableNames : List String :=
  ["APP_NAME", "APP_VERSION", "MAX_DEPTH", "REQUIRE_FULL_INPUT", "CONTEXT_FILE", "PROMPT",
    "PRECISION", "LOG_LEVEL", "LOG_FORMAT", "LOG_FILE"].map (start ++ ·)

/-- Why there are no settings: wrong values, or a file of variables that is no text. -/
inductive Fault where
  | defects (ds : Defects)
  | unreadable (message : String)

/-- The settings of an environment and of the content of a file of variables, if there is one. -/
def load (environment : Table String) (content : Option ByteArray) : Except Fault Settings := do
  let file : Table (Option String) ← match content.map Text.Utf8.decodeWhole with
    | none => pure []
    | some (.ok text) => pure (Variables.ofText environment text)
    | some (.error message) => throw (.unreadable message)
  let value? (name : String) : Option String :=
    (environment.get? (start ++ name)).orElse fun _ => (file.get? (start ++ name)).bind id
  (ofValues value?).mapError .defects

/-- How a text is read where nothing else is asked for. -/
def reading (s : Settings) (maxDepth : Option Int) (full : Option Bool) : Reading where
  nesting := ⟨maxDepth.getD s.maxDepth, some room⟩
  full := full.getD s.requireFullInput

end Settings
end Reckoner
