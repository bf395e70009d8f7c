import Reckoner.Table
import Reckoner.Text.Digit

/-!
# Variable files

Lines of `NAME=value`, perhaps after `export`. Values may stand in single or double marks with
escapes; behind unmarked ones comments are cut off. A name alone takes its value away. References
such as `${NAME:-default}` are replaced. Lines of any other form are left out.
-/
namespace Reckoner.Variables

def isLineEnd (c : Char) : Bool := c = '\n' || c = '\r'

/-- A space or one of the four control characters that separate information. -/
def isSpace (c : Char) : Bool := Text.isSpace c || (28 ≤ c.toNat && c.toNat < 32)

/-- A space that does not end a line. -/
def isInnerSpace (c : Char) : Bool := isSpace c && !isLineEnd c

/-- The text inside marks, in which a backslash keeps the next character from ending it. -/
def marked (mark : Char) : List Char → Option (List Char × List Char)
  | [] => none
  | '\\' :: c :: cs => (marked mark cs).map fun (inner, rest) => ('\\' :: c :: inner, rest)
  | c :: cs =>
    if c = mark then some ([], cs) else (marked mark cs).map fun (inner, rest) => (c :: inner, rest)

def doubleEscape? : Char → Option Char
  | '\\' => some '\\'
  | '\'' => some '\''
  | '"' => some '"'
  | 'a' => some '\x07'
  | 'b' => some '\x08'
  | 'f' => some '\x0c'
  | 'n' => some '\n'
  | 'r' => some '\r'
  | 't' => some '\t'
  | 'v' => some '\x0b'
  | _ => none

def singleEscape? : Char → Option Char
  | '\\' => some '\\'
  | '\'' => some '\''
  | _ => none

def unescape (escape? : Char → Option Char) : List Char → List Char
  | '\\' :: c :: cs => match escape? c with
    | some d => d :: unescape escape? cs
    | none => '\\' :: unescape escape? (c :: cs)
  | c :: cs => c :: unescape escape? cs
  | [] => []

/-- An unmarked value without a comment behind a space and without spaces at its end. -/
def withoutComment : List Char → List Char
  | [] => []
  | c :: cs =>
    if isSpace c && (cs.dropWhile isSpace).head? = some '#' then []
    else c :: withoutComment cs

def trimEnd (cs : List Char) : List Char := (cs.reverse.dropWhile isSpace).reverse

/-- The value behind an equals sign and what follows it. A comment may follow the sign at once if
there is a space between them. -/
def value (cs : List Char) : Option (List Char × List Char) :=
  match cs.dropWhile isInnerSpace with
  | '\'' :: rest => (marked '\'' rest).map fun (inner, rest) => (unescape singleEscape? inner, rest)
  | '"' :: rest => (marked '"' rest).map fun (inner, rest) => (unescape doubleEscape? inner, rest)
  | _ =>
    let line := cs.takeWhile (!isLineEnd ·)
    some (trimEnd ((withoutComment line).dropWhile isInnerSpace), cs.drop line.length)

/-- The name at the front: empty before a comment, between marks, or up to a space or a sign. -/
def name (cs : List Char) : Option (List Char × List Char) :=
  match cs with
  | '#' :: _ => some ([], cs)
  | '\'' :: rest =>
    let inner := rest.takeWhile (· != '\'')
    match rest.drop inner.length with
    | '\'' :: more => if inner.isEmpty then none else some (inner, more)
    | _ => none
  | cs =>
    let word := cs.takeWhile fun c => !(c = '=' || c = '#' || isSpace c)
    if word.isEmpty then none else some (word, cs.drop word.length)

def withoutExport (cs : List Char) : List Char :=
  match cs with
  | 'e' :: 'x' :: 'p' :: 'o' :: 'r' :: 't' :: rest =>
    if rest.head?.any isInnerSpace then rest.dropWhile isInnerSpace else cs
  | cs => cs

/-- The end of a line, perhaps behind a comment. -/
def lineEnd (cs : List Char) : Option (List Char) :=
  let cs := cs.dropWhile isInnerSpace
  let cs := if cs.head? = some '#' then cs.dropWhile (!isLineEnd ·) else cs
  match cs.dropWhile isInnerSpace with
  | '\r' :: '\n' :: rest => some rest
  | c :: rest => if isLineEnd c then some rest else none
  | [] => some []

def nextLine (cs : List Char) : List Char := (cs.dropWhile (!isLineEnd ·)).drop 1

/-- A name, and its value if it has one. -/
abbrev Entry := List Char × Option (List Char)

/-- One line: its entry if it has one, and what follows. -/
def line (cs : List Char) : Option Entry × List Char :=
  match name (withoutExport cs) with
  | none => (none, nextLine (withoutExport cs))
  | some (key, rest) =>
    let close (v : Option (List Char)) (rest : List Char) : Option Entry × List Char :=
      match lineEnd rest with
      | some rest => (if key.isEmpty then none else some (key, v), rest)
      | none => (none, nextLine rest)
    match rest.dropWhile isInnerSpace with
    | '=' :: more => match value more with
      | none => (none, nextLine more)
      | some (v, rest) => close (some v) rest
    | rest => close none rest

def lines : Nat → List Char → List Entry
  | 0, _ => []
  | fuel + 1, cs =>
    match cs.dropWhile isSpace with
    | [] => []
    | cs => let (entry, rest) := line cs; entry.toList ++ lines fuel rest

/-- A reference behind a dollar sign and a brace: its name and default, and what follows. -/
def reference (cs : List Char) : Option (List Char × List Char × List Char) :=
  let key := cs.takeWhile fun c => !(c = '\x7d' || c = ':')
  match cs.drop key.length with
  | '\x7d' :: rest => some (key, [], rest)
  | ':' :: '-' :: more =>
    let default := more.takeWhile (· != '\x7d')
    match more.drop default.length with
    | '\x7d' :: rest => some (key, default, rest)
    | _ => none
  | _ => none

/-- The names that a text refers to. -/
def references : List Char → List String
  | [] => []
  | '$' :: '\x7b' :: cs =>
    (reference cs).toList.map (fun (key, _, _) => String.ofList key) ++ references cs
  | _ :: cs => references cs

/-- Replaces references by what `find` knows, else by their defaults. -/
def expand (find : String → Option String) : Nat → List Char → List Char
  | 0, cs => cs
  | _, [] => []
  | fuel + 1, '$' :: '\x7b' :: cs => match reference cs with
    | some (key, default, rest) =>
      ((find (String.ofList key)).map String.toList).getD default ++ expand find fuel rest
    | none => '$' :: expand find fuel ('\x7b' :: cs)
  | fuel + 1, c :: cs => c :: expand find fuel cs

/-- The variables of a file, in which a name may have no value. References see the lines before
them, then the environment; what has no value there is empty. -/
def ofText (environment : Table String) (text : String) : Table (Option String) :=
  let cs := text.toList
  (lines (cs.length + 1) cs).foldl (fun known (key, v) =>
    let find (name : String) : Option String := match known.get? name with
      | some value => some (value.getD "")
      | none => environment.get? name
    known.put (String.ofList key)
      (v.map fun v => String.ofList (expand find (v.length + 1) v))) []

end Reckoner.Variables
