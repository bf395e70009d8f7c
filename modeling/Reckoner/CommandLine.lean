import Reckoner.CommandLine.Options
import Reckoner.Context.Document
import Reckoner.Log.Line
import Reckoner.Log.Threshold
import Reckoner.Repl
import Reckoner.Settings

/-!
# The command line

A command line evaluates one expression or starts the loop. Log records that reach the threshold go
to the error stream between the complaints, and to a file if the settings name one.
-/
namespace Reckoner.CommandLine

/-- How a run ends. -/
inductive Status where
  /-- The program's own answer. -/
  | code (n : Nat)
  /-- The options were refused, or help was asked for. -/
  | exit (n : Nat)
  | invalidSettings (ds : Settings.Defects)
  | failed (e : Failure)
  /-- The file for the records cannot be opened. -/
  | refused (r : Files.Refusal) (path : String)

/-- Which records are shown, and how. -/
structure Logging where
  threshold : Nat := Log.Level.warning.rank
  format : Log.Format := .text

def isGiven (text : Option String) : Option String := text.filter fun s => !s.isEmpty

def Logging.of (s : Settings) (r : Request) : Except Failure Logging := do
  let threshold ← Log.threshold ((isGiven r.logLevel).getD s.logLevel)
  return { threshold, format := .ofName s.logFormat }

/-- What a run emitted and how it ended. -/
structure Run where
  status : Status
  emitted : List Emission := []
  logging : Logging := {}
  /-- Where the lines of records are added to. -/
  logFile : Option Location := none

def Logging.line? (l : Logging) (clock : Log.Clock) (r : Log.Record) : Option String :=
  if r.level.rank < l.threshold then none else some (r.line clock l.format none ++ "\n")

namespace Run

def output (r : Run) : String := Emission.outputs r.emitted

/-- The text on the error stream: complaints and the lines of records in their order. -/
def complaints (r : Run) (clock : Log.Clock) : String :=
  String.join (r.emitted.filterMap fun
    | .output _ => none
    | .complaint text => some text
    | .record entry => r.logging.line? clock entry)

/-- What is added to the file for the records. -/
def added (r : Run) (clock : Log.Clock) : String :=
  String.join ((Emission.records r.emitted).filterMap (r.logging.line? clock))

end Run

/-- The path of the file that describes the context. -/
def contextPath? (s : Settings) (r : Request) : Option String :=
  (r.context.map fun text => (Path.ofText text).text).orElse fun _ => isGiven s.contextFile

/-- How files are read. -/
abbrev Reader := String → Except Files.Refusal ByteArray

/-- The context that was asked for; `none` if its file describes none, which is reported. -/
def context (read : Reader) (s : Settings) (r : Request) : Act (Option Context) := do
  match contextPath? s r with
  | none => return some (← Calculator.standardContext)
  | some path => match ← (Context.ofFile .whole path (read path)).attempt with
    | .ok c => return some c
    | .error e@(.badContext ..) => do
      .complain s!"Error: {e.report.text}\n"
      return none
    | .error e => .fail e

/-- The loop with the evaluator that was asked for, before any input. -/
def prepare (read : Reader) (s : Settings) (r : Request) : Act (Option Repl) := do
  return (← context read s r).map fun c =>
    { evaluator := ⟨c, s.reading none (if r.allowTrailing then some false else none)⟩
      prompt := s.prompt
      precision := r.precision.getD s.precision }

/-- One expression; the answer is the exit code. -/
def single (E : Elementary) (repl : Repl) (text : String) : Act Nat := do
  let trimmed := String.ofList (Text.trim isBlank text.toList)
  let o ← repl.evaluator.tryEvaluate E trimmed
  let line := (← .ofExcept (o.format repl.precision)) ++ "\n"
  if o.isOk then do .write line; return 0
  else do .complain line; return 1

/-- The loop over the input; the answer is the exit code. An interrupt takes the place of the end of
the input. -/
def interact (E : Elementary) (repl : Repl) (input : String) (isInterrupted : Bool) : Act Nat := do
  if !(← repl.run E input) && isInterrupted then do .write "\n"; return 130
  else return 0

/-- An expression that was asked for without a text. -/
def noText : Failure := .host .member "'list' object has no attribute 'strip'"

/-- The action of a command line. -/
def act (E : Elementary) (read : Reader) (s : Settings) (r : Request) (input : String)
    (isInterrupted : Bool) : Act Nat := do
  match ← prepare read s r with
  | none => return 1
  | some repl => match r.expression with
    | some (some text) => single E repl text
    | some none => .fail noText
    | none => interact E repl input isInterrupted

/-- What a refused command line writes. -/
def Run.ofStop : Stop → Run
  | .help => { status := .exit 0, emitted := [.output CommandLine.help] }
  | .refused message =>
    { status := .exit 2, emitted := [.complaint (usage ++ s!"advcalc: error: {message}\n")] }

def Run.ofFault : Settings.Fault → Run
  | .defects ds => { status := .invalidSettings ds }
  | .unreadable message => { status := .failed (.host .decoding message) }

/-- Opens the file for the records, if the settings name one. -/
def openLog (s : Settings) (files : Files) : Except Status (Files × Option Location) :=
  match isGiven s.logFile with
  | none => .ok (files, none)
  | some text =>
    if text.contains '\x00' then .error (.failed Context.nullByte)
    else match files.openToAdd text with
      | .ok (files, l) => .ok (files, some l)
      | .error (refusal, p) => .error (.refused refusal p.text)

/-- The run of a command line in a working directory. The file for the records is opened before
anything else is done. -/
def run (E : Elementary) (environment : Table String) (files : Files)
    (arguments : List String) (input : String) (isInterrupted : Bool) : Run :=
  match Request.ofArguments arguments with
  | .error stop => .ofStop stop
  | .ok r => match Settings.load environment (files.read ".env").toOption with
    | .error fault => .ofFault fault
    | .ok s => match openLog s files with
      | .error status => { status }
      | .ok (files, logFile) => match Logging.of s r with
        | .error e => { status := .failed e, logFile }
        | .ok logging =>
          let action := act E files.read s r input isInterrupted
          { status := match action.outcome with
              | .ok n => .code n
              | .error e => .failed e
            emitted := action.emitted, logging, logFile }

end Reckoner.CommandLine
