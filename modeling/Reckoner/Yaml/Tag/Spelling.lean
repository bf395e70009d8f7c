import Reckoner.Yaml.Tag
import Reckoner.Yaml.Timestamp

/-!
# Tags by spelling

The tag that the spelling of a scalar stands for where none is written. Integers may be binary,
octal after a zero, hexadecimal, or sexagesimal; floats need a point, and a sign in their exponent.
A line feed at the end of a spelling does not count.
-/
namespace Reckoner.Yaml

namespace Spelling

def isDigitOrLine (c : Char) : Bool := c.isDigit || c = '_'

def unsigned : List Char → List Char
  | '-' :: cs => cs
  | '+' :: cs => cs
  | cs => cs

/-- Splits at every occurrence of a character. -/
def pieces (mark : Char) : List Char → List (List Char)
  | [] => [[]]
  | c :: cs =>
    if c = mark then [] :: pieces mark cs
    else match pieces mark cs with
      | [] => [[c]]
      | piece :: rest => (c :: piece) :: rest

/-- One or two digits below sixty. -/
def isSixtieth : List Char → Bool
  | [c] => c.isDigit
  | [c, d] => c.isDigit && c ≤ '5' && d.isDigit
  | _ => false

def startsWithDigit (cs : List Char) : Bool := cs.head?.any Char.isDigit

/-- Digits with underscores that start with a digit. -/
def isRun (cs : List Char) : Bool := startsWithDigit cs && cs.all isDigitOrLine

def isSignedExponent : List Char → Bool
  | [] => true
  | e :: sign :: ds =>
    (e = 'e' || e = 'E') && (sign = '-' || sign = '+') && !ds.isEmpty && ds.all Char.isDigit
  | _ => false

def isPointFloat (cs : List Char) : Bool :=
  match cs.dropWhile isDigitOrLine with
  | '.' :: more => startsWithDigit cs && isSignedExponent (more.dropWhile isDigitOrLine)
  | _ => false

def isFractionFloat : List Char → Bool
  | '.' :: cs => startsWithDigit cs && isSignedExponent (cs.dropWhile isDigitOrLine)
  | _ => false

def isSexagesimalFloat (cs : List Char) : Bool :=
  let whole := cs.takeWhile (· != '.')
  match pieces ':' whole, cs.drop whole.length with
  | first :: part :: parts, '.' :: fraction =>
    isRun first && (part :: parts).all isSixtieth && fraction.all isDigitOrLine
  | _, _ => false

def infinities : List String := [".inf", ".Inf", ".INF"]

def isFloat (cs : List Char) : Bool :=
  let body := unsigned cs
  isPointFloat body || isFractionFloat cs || isSexagesimalFloat body ||
    infinities.contains (String.ofList body) ||
    [".nan", ".NaN", ".NAN"].contains (String.ofList cs)

def isBinaryChar (c : Char) : Bool := c = '0' || c = '1' || c = '_'

def isOctalChar (c : Char) : Bool := ('0' ≤ c && c ≤ '7') || c = '_'

def isHexChar (c : Char) : Bool := (Number.digitOf? 16 c).isSome || c = '_'

def isInt (cs : List Char) : Bool :=
  match unsigned cs with
  | ['0'] => true
  | '0' :: 'b' :: ds => !ds.isEmpty && ds.all isBinaryChar
  | '0' :: 'x' :: ds => !ds.isEmpty && ds.all isHexChar
  | '0' :: ds => !ds.isEmpty && ds.all isOctalChar
  | body => match pieces ':' body with
    | [] => false
    | first :: parts => isRun first && parts.all isSixtieth

def truthWords : List String := ["yes", "no", "true", "false", "on", "off"]

def capitalized : List Char → List Char
  | [] => []
  | c :: cs => c.toUpper :: cs

/-- A truth word in lower case, in upper case, or with a capital. -/
def isBool (cs : List Char) : Bool :=
  let lower := cs.map Char.toLower
  truthWords.contains (String.ofList lower) &&
    (cs = lower || cs = lower.map Char.toUpper || cs = capitalized lower)

/-- Without a timestamp's time, its month and day must have two digits. -/
def isTimestamp (text : String) : Bool :=
  (Timestamp.ofText? text).any fun t => t.time.isSome || t.isPadded

/-- A spelling without the line feed at its end. -/
def withoutLineFeed (text : String) : String :=
  let cs := text.toList
  if 1 < cs.length && cs.getLast? = some '\n' then String.ofList cs.dropLast else text

end Spelling

open Spelling in
/-- The tag that a spelling stands for. -/
def Tag.ofSpelling (spelling : String) : Tag :=
  let text := withoutLineFeed spelling
  let cs := text.toList
  if isBool cs then bool
  else if isFloat cs then float
  else if isInt cs then int
  else if text = "<<" then merge
  else if ["~", "null", "Null", "NULL", ""].contains text then null
  else if isTimestamp spelling then timestamp
  else if text = "=" then default
  else if ["!", "&", "*"].contains text then other
  else Tag.text

end Reckoner.Yaml
