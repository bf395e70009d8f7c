import Reckoner.Datum

/-!
# Data values as JSON

One line of ASCII: characters outside of it are written as escaped UTF-16 units. Infinities and
not-a-number are written as bare words.
-/
namespace Reckoner.Log.Json

def unit (n : Nat) : List Char := '\\' :: 'u' :: Text.hexDigits 4 n

/-- A character inside a JSON string. -/
def character (c : Char) : List Char :=
  let n := Text.code c
  if c = '"' || c = '\\' then ['\\', c]
  else if c = '\n' then ['\\', 'n']
  else if c = '\r' then ['\\', 'r']
  else if c = '\t' then ['\\', 't']
  else if n = 8 then ['\\', 'b']
  else if n = 12 then ['\\', 'f']
  else if 32 ≤ n && n < 127 then [c]
  else if n < 0x10000 then unit n
  else unit (0xd800 + (n - 0x10000) / 0x400) ++ unit (0xdc00 + (n - 0x10000) % 0x400)

def string (s : String) : String := String.ofList ('"' :: s.toList.flatMap character ++ ['"'])

def number (x : Float) : String :=
  match Parts.ofFloat x with
  | .nan => "NaN"
  | .infinite negative => if negative then "-Infinity" else "Infinity"
  | .finite .. => Number.shortestText x

def between (opening closing : Char) (items : List String) : String :=
  String.ofList [opening] ++ Datum.commaSeparated items ++ String.ofList [closing]

mutual
/-- A value as JSON; values without a JSON form are written as texts. -/
def value : Datum → String
  | .null => "null"
  | .bool b => if b then "true" else "false"
  | .int n => toString n
  | .float x => number x
  | .text s => string s
  | .list items | .tuple items => between '[' ']' (values items)
  | .mapping entries => between '\x7b' '\x7d' (members entries)
  | d => string d.plain

def values : List Datum → List String
  | [] => []
  | item :: items => value item :: values items

def members : List (Datum × Datum) → List String
  | [] => []
  | (key, item) :: entries => (memberName key ++ ": " ++ value item) :: members entries

/-- The name of a member: numbers and truth values by their JSON text. -/
def memberName : Datum → String
  | .null => string "null"
  | .bool b => string (if b then "true" else "false")
  | .int n => string (toString n)
  | .float x => string (number x)
  | d => string d.plain
end

end Reckoner.Log.Json
