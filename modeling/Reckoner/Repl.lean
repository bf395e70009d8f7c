import Reckoner.Calculator

/-!
# The read-evaluate-print loop

Commands are handled here, every other line is an expression. A failed expression is reported and
the loop goes on; each line is handled on its own.
-/
namespace Reckoner

structure Repl where
  evaluator : Calculator.Evaluator
  prompt : String
  precision : Int

namespace Repl

def banner : String :=
  "========================================\n" ++
  "  Advanced Calculator\n" ++
  "========================================\n"

def help : String :=
  "Available Commands:\n" ++
  "  help       - Show this help message\n" ++
  "  exit/quit  - Exit the calculator\n" ++
  "  clear      - Clear the screen\n" ++
  "  functions  - List registered functions\n" ++
  "  constants  - List registered constants\n" ++
  "\n" ++
  "Examples:\n" ++
  "  2 + 2 * 3\n" ++
  "  sin(pi/2)\n" ++
  "  sqrt(144)\n" ++
  "  ln(e^2)\n"

def clearScreen : String := "\x1b[2J\x1b[H"

def isLineBlank (c : Char) : Bool := isBlank c || c = '\r' || c = '\n'

/-- A line without the blanks around it. -/
def trimmed (line : String) : String := String.ofList (Text.trim isLineBlank line.toList)

def failureRecord (o : Outcome) : Log.Record :=
  ⟨.info, Calculator.interfaceLogger,
    s!"Expression failed: {o.expression} ({o.errorType.getD (Datum.display .null)})", []⟩

/-- Shows a value on the output, an error on the error stream. -/
def report (r : Repl) (o : Outcome) : Act Unit :=
  if o.isOk then do
    .write ((← .ofExcept (o.format r.precision)) ++ "\n")
  else do
    .log (failureRecord o)
    .complain ((← .ofExcept (o.format r.precision)) ++ "\n")

def constantLine (entry : String × Float) : String :=
  s!"  {entry.1} = {Number.shortestText entry.2}\n"

/-- Handles a line; the answer says whether the loop goes on. -/
def handleLine (E : Elementary) (r : Repl) (line : String) : Act Bool :=
  match trimmed line with
  | "" => pure true
  | "exit" | "quit" => do .write "Goodbye!\n"; return false
  | "help" => do .write (help ++ "\n"); return true
  | "clear" => do .write (clearScreen ++ banner ++ "\n"); return true
  | "functions" => do
    .write (Datum.commaSeparated r.evaluator.context.functionNames ++ "\n")
    return true
  | "constants" => do
    .emit (r.evaluator.context.constants.sorted.map fun e => .output (constantLine e))
    return true
  | command => do
    r.report (← r.evaluator.tryEvaluate E command)
    return true

/-- Prompts for each line and handles it, up to the one that ends the loop; the answer says whether
the loop was ended. With the lines used up there is one more prompt. -/
def loop (E : Elementary) (r : Repl) : List String → Act Bool
  | [] => do .write r.prompt; return false
  | line :: lines => do
    .write r.prompt
    if ← r.handleLine E line then loop E r lines else return true

def greet : Act Unit := do
  .write (banner ++ "\n")
  .write (help ++ "\n")

/-- The lines of a text; each but perhaps the last ends in a line feed. -/
def linesOf : List Char → List (List Char)
  | [] => []
  | c :: cs =>
    if c = '\n' then [c] :: linesOf cs
    else match linesOf cs with
      | [] => [[c]]
      | line :: lines => (c :: line) :: lines

/-- The whole conversation over a text. -/
def run (E : Elementary) (r : Repl) (input : String) : Act Bool := do
  greet
  r.loop E ((linesOf input.toList).map String.ofList)

end Repl
end Reckoner
