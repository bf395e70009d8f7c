import Reckoner.CommandLine
import Std.Time.Format

/-!
# The program

Reads the environment, the files and the standard input, runs the command line over them, and
writes what it emits as it goes.
-/
namespace Reckoner.Program

open CommandLine

def clock : IO Log.Clock := do
  let now ← Std.Time.PlainDateTime.now
  let stamp ← Std.Time.Timestamp.now
  let universal := Std.Time.PlainDateTime.ofWallTime (stamp.toWallTime .zero)
  return ⟨now.format "uuuu-MM-dd HH:mm:ss", universal.format "uuuu-MM-dd'T'HH:mm:ss.SSSSSS'+00:00'"⟩

def read (path : String) : IO (Except Files.Refusal ByteArray) := do
  try
    return .ok (← IO.FS.readBinFile path)
  catch
    | .permissionDenied .. => return .error .forbidden
    | .inappropriateType .. => return .error .isDirectory
    | _ => return .error .missing

/-- The variables that settings are read from, and those that the file of variables refers to. -/
def environment (file : Option ByteArray) : IO (Table String) := do
  let text := (file.map Text.Utf8.decodeWhole).bind Except.toOption
  let names := Settings.variableNames ++ Variables.references ((text.getD "").toList)
  return (← names.mapM fun name => do
    return (← IO.getEnv name).map fun v => (name, v)).filterMap id

/-- How records are shown, and the file that their lines are added to. -/
structure Journal where
  logging : Logging
  file : Option String

/-- Ends the program with a failure. -/
def fail {α : Type} (e : Failure) : IO α :=
  throw (IO.userError s!"{e.kind.label}: {e.report.text}")

def writeRecord (l : Journal) (r : Log.Record) : IO Unit := do
  let some line := l.logging.line? (← clock) r | return
  (← IO.getStderr).putStr line
  let some path := l.file | return
  let file ← IO.FS.Handle.mk path .append
  file.putStr line

def showAll (l : Journal) (es : List Emission) : IO Unit := do
  for e in es do
    match e with
    | .output text => (← IO.getStdout).putStr text
    | .complaint text => (← IO.getStderr).putStr text
    | .record r => writeRecord l r
  (← IO.getStdout).flush

/-- Shows an action and hands its value on; a failure ends the program. -/
def perform {α : Type} (l : Journal) (a : Act α) : IO α := do
  showAll l a.emitted
  match a.outcome with
  | .ok x => return x
  | .error e => fail e

/-- Handles lines as they are typed. -/
partial def converse (l : Journal) (repl : Repl) : IO Unit := do
  perform l (.write repl.prompt)
  let line ← (← IO.getStdin).getLine
  if !line.isEmpty && (← perform l (repl.handleLine .native line)) then converse l repl

/-- Makes the file for the records with its directories. -/
def openLog (s : Settings) : IO (Option String) := do
  let some text := isGiven s.logFile | return none
  if text.contains '\x00' then fail Context.nullByte
  let path := Path.ofText text
  IO.FS.createDirAll path.parent.text
  let _ ← IO.FS.Handle.mk path.text .append
  return some path.text

def runRequest (s : Settings) (r : Request) : IO Nat := do
  let file ← openLog s
  let l ← match Logging.of s r with
    | .ok logging => pure (Journal.mk logging file)
    | .error e => fail e
  let content ← match contextPath? s r with
    | some path => read path
    | none => pure (.error .missing)
  match ← perform l (prepare (fun _ => content) s r), r.expression with
  | none, _ => return 1
  | some repl, some (some text) => perform l (single .native repl text)
  | some _, some none => fail noText
  | some repl, none =>
    perform l Repl.greet
    converse l repl
    return 0

def run (arguments : List String) : IO Nat := do
  match Request.ofArguments arguments with
  | .error stop =>
    let stopped := Run.ofStop stop
    (← IO.getStdout).putStr stopped.output
    (← IO.getStderr).putStr (Emission.complaints stopped.emitted)
    match stopped.status with
    | .exit n => return n
    | _ => return 1
  | .ok r =>
    let file := (← read ".env").toOption
    match Settings.load (← environment file) file with
    | .ok s => runRequest s r
    | .error (.unreadable message) => fail (.host .decoding message)
    | .error (.defects defects) =>
      for (name, kind) in defects do
        (← IO.getStderr).putStr s!"{name}: {kind}\n"
      return 1

end Reckoner.Program

def main (arguments : List String) : IO UInt32 := do
  return (← Reckoner.Program.run arguments).toUInt32
