import Reckoner.Failure
import Reckoner.Number.Integer

/-!
# Options of the command line

Options take one argument or none. The argument may follow an equals sign or be the next word;
short options may stand together and long ones may be shortened. Words that belong to no option are
not recognized. The first thing that is wrong ends the reading.
-/
namespace Reckoner.CommandLine

inductive Flag where
  | help | expression | context | precision | logLevel | allowTrailing
deriving DecidableEq, Repr

namespace Flag

def all : List Flag := [help, expression, context, precision, logLevel, allowTrailing]

def names : Flag → List String
  | help => ["-h", "--help"]
  | expression => ["-e", "--expression"]
  | context => ["--context"]
  | precision => ["--precision"]
  | logLevel => ["--log-level"]
  | allowTrailing => ["--allow-trailing"]

def takesArgument : Flag → Bool
  | help | allowTrailing => false
  | _ => true

/-- The flag in messages about it. -/
def shown (f : Flag) : String := String.intercalate "/" f.names

def ofName? (name : String) : Option Flag := all.find? (·.names.contains name)

end Flag

/-- What the command line asks for. -/
structure Request where
  /-- The expression, which may be asked for without a text. -/
  expression : Option (Option String) := none
  context : Option String := none
  precision : Option Int := none
  logLevel : Option String := none
  allowTrailing : Bool := false

/-- Why the reading of options ends early. -/
inductive Stop where
  | help
  | refused (message : String)

/-- A word of the command line: perhaps the name of a flag, with what follows it in the word, behind
an equals sign or directly. -/
inductive Word where
  | argument (text : String)
  | separator
  | flag (f : Flag) (name : String) (own : Option (List Char))
  | unknown (text : String)

/-- Splits at the first equals sign. -/
def splitEquals (text : String) : String × Option (List Char) :=
  let cs := text.toList
  let before := cs.takeWhile (· != '=')
  (String.ofList before,
    if before.length < cs.length then some (cs.drop (before.length + 1)) else none)

/-- The flags that a shortened name or a short flag with its argument can mean. -/
def candidates (text : String) : List (Flag × String × Option (List Char)) :=
  let names := Flag.all.flatMap fun f => f.names.map fun name => (f, name)
  if text.startsWith "--" then
    let (start, own) := splitEquals text
    (names.filter fun (_, name) => name.startsWith start).map fun (f, name) => (f, name, own)
  else
    let short := String.ofList (text.toList.take 2)
    names.filterMap fun (f, name) =>
      if name = short then some (f, name, some (text.toList.drop 2))
      else if name.startsWith text then some (f, name, none)
      else none

def isDigit (c : Char) : Bool := (Text.digitValue? c).isSome

/-- A minus sign before digits of any script, with a point between or before them. -/
def isNegativeNumber (text : String) : Bool :=
  match text.toList with
  | '-' :: cs =>
    let cs := if cs.getLast? = some '\n' then cs.dropLast else cs
    let fraction := cs.dropWhile isDigit
    (fraction.isEmpty && !cs.isEmpty) || match fraction with
      | '.' :: ds => !ds.isEmpty && ds.all isDigit
      | _ => false
  | _ => false

def classify (text : String) : Except Stop Word :=
  if text.length < 2 || !text.startsWith "-" then .ok (.argument text)
  else match Flag.ofName? text with
    | some f => .ok (.flag f text none)
    | none =>
      let (name, own) := splitEquals text
      match own, Flag.ofName? name with
      | some own, some f => .ok (.flag f name (some own))
      | _, _ => match candidates text with
        | [(f, name, own)] => .ok (.flag f name own)
        | [] =>
          if isNegativeNumber text || text.contains ' ' then .ok (.argument text)
          else .ok (.unknown text)
        | several =>
          let names := String.intercalate ", " (several.map (·.2.1))
          .error (.refused s!"ambiguous option: {text} could match {names}")

/-- Two dashes alone make arguments of all words behind them. -/
def words : List String → Except Stop (List Word)
  | [] => .ok []
  | text :: texts =>
    if text = "--" then .ok (.separator :: texts.map .argument)
    else do
      let w ← classify text
      return w :: (← words texts)

def refuse {α : Type} (f : Flag) (message : String) : Except Stop α :=
  .error (.refused s!"argument {f.shown}: {message}")

/-- The argument in a word. Two dashes there are none. -/
def argumentOf (text : String) : Option String := if text = "--" then none else some text

/-- Notes the argument of a flag. A precision without one cannot be used. -/
def Request.note (r : Request) (f : Flag) (argument : Option String) : Except Stop Request :=
  match f with
  | .expression => .ok { r with expression := some argument }
  | .context => .ok { r with context := argument }
  | .logLevel => .ok { r with logLevel := argument }
  | .precision => match argument with
    | none => .ok { r with precision := some (-1) }
    | some text => match Number.typedInteger 10 text with
      | .ok n => .ok { r with precision := some n }
      | .error _ => refuse f s!"invalid int value: {Text.quoted text}"
  | _ => .ok r

def Request.act (r : Request) : Flag → Except Stop Request
  | .help => .error .help
  | .allowTrailing => .ok { r with allowTrailing := true }
  | _ => .ok r

/-- What one word asks for: flags without arguments, then a flag with the argument that the same
word gives it, if it does. -/
structure Cluster where
  before : List Flag := []
  last : Flag
  own : Option String := none

/-- A flag with what follows its name in the same word: its argument, or short flags written
together with it. -/
def cluster (f : Flag) (name : String) (cs : List Char) : Except Stop Cluster :=
  if f.takesArgument then .ok { last := f, own := some (String.ofList cs) }
  else
    let refusal := refuse f s!"ignored explicit argument {Text.quoted (String.ofList cs)}"
    match cs with
    | [] => refusal
    | c :: more =>
      let next := String.ofList ['-', c]
      match Flag.ofName? next with
      | none => refusal
      | some g =>
        if name.startsWith "--" then refusal
        else if more.isEmpty then .ok { before := [f], last := g }
        else do
          let r ← cluster g next more
          return { r with before := f :: r.before }
termination_by cs.length

def resolve (f : Flag) (name : String) : Option (List Char) → Except Stop Cluster
  | none => .ok { last := f }
  | some own => cluster f name own

/-- Reads words one after the other; collects those that belong to no option. -/
def read (r : Request) : List Word → Except Stop (Request × List String)
  | [] => .ok (r, [])
  | .argument text :: ws | .unknown text :: ws => do
    let (r, rest) ← read r ws
    return (r, text :: rest)
  | .separator :: ws => do
    let (r, rest) ← read r ws
    return (r, "--" :: rest)
  | .flag f name own :: ws => do
    let c ← resolve f name own
    if !c.last.takesArgument then read (← (c.before ++ [c.last]).foldlM Request.act r) ws
    else match c.own, ws with
      | some own, ws => do
        read (← (← c.before.foldlM Request.act r).note c.last (argumentOf own)) ws
      | none, .argument text :: ws => do
        read (← (← c.before.foldlM Request.act r).note c.last (some text)) ws
      | none, _ => refuse c.last "expected one argument"
termination_by ws => ws.length

def Request.ofArguments (arguments : List String) : Except Stop Request := do
  let (r, rest) ← read {} (← words arguments)
  if rest.isEmpty then return r
  else .error (.refused ("unrecognized arguments: " ++ String.intercalate " " rest))

def usage : String :=
  "usage: advcalc [-h] [-e EXPRESSION] [--context CONTEXT]\n" ++
  "               [--precision PRECISION] [--log-level LOG_LEVEL]\n" ++
  "               [--allow-trailing]\n"

def help : String :=
  usage ++
  "\n" ++
  "Evaluate infix arithmetic expressions.\n" ++
  "\n" ++
  "options:\n" ++
  "  -h, --help            show this help message and exit\n" ++
  "  -e EXPRESSION, --expression EXPRESSION\n" ++
  "                        Evaluate a single expression and exit.\n" ++
  "  --context CONTEXT     YAML file with extra constants and function aliases.\n" ++
  "  --precision PRECISION\n" ++
  "                        Significant digits to print (default from settings).\n" ++
  "  --log-level LOG_LEVEL\n" ++
  "                        Logging level, e.g. DEBUG or INFO (default from\n" ++
  "                        settings).\n" ++
  "  --allow-trailing      Ignore text left over after a complete expression.\n"

end Reckoner.CommandLine
