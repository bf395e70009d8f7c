import Reckoner.Moment
import Reckoner.Number.Integer
import Reckoner.Number.Written

/-!
# Data values

The values that documents, bindings, error details and log fields hold. `display` is the form that
messages show, `plain` shows a text without quotation marks.
-/
namespace Reckoner

inductive Datum where
  | null
  | bool (b : Bool)
  | int (n : Int)
  | float (x : Float)
  | text (s : String)
  | bytes (bs : List Nat)
  | date (year month day : Nat) (time : Option Moment)
  | list (items : List Datum)
  | tuple (items : List Datum)
  | set (items : List Datum)
  | mapping (entries : List (Datum × Datum))
  /-- A list or a mapping inside itself. -/
  | again (isMapping : Bool)
deriving Inhabited

namespace Datum

/-- The name of a value's kind. -/
def kind : Datum → String
  | null => "NoneType"
  | bool _ => "bool"
  | int _ => "int"
  | float _ => "float"
  | text _ => "str"
  | bytes _ => "bytes"
  | date _ _ _ none => "datetime.date"
  | date _ _ _ (some _) => "datetime.datetime"
  | list _ => "list"
  | tuple _ => "tuple"
  | set _ => "set"
  | mapping _ => "dict"
  | again isMapping => if isMapping then "dict" else "list"

def commaSeparated : List String → String := String.intercalate ", "

def displayByte (b : Nat) : List Char :=
  let c := Char.ofNat b
  if c = '\\' then ['\\', '\\']
  else if c = '\n' then ['\\', 'n']
  else if c = '\r' then ['\\', 'r']
  else if c = '\t' then ['\\', 't']
  else if 32 ≤ b && b < 127 then [c]
  else '\\' :: 'x' :: Text.hexDigits 2 b

def displayBytes (bs : List Nat) : String :=
  let mark := if bs.contains 39 && !bs.contains 34 then '"' else '\''
  let inner := bs.flatMap fun b => if Char.ofNat b = mark then ['\\', mark] else displayByte b
  String.ofList ('b' :: mark :: inner ++ [mark])

/-- A span of minutes as days and seconds, of which only the days may be negative. -/
def displaySpan (minutes : Int) : String :=
  let seconds := minutes * 60
  let days := seconds / 86400
  let rest := seconds % 86400
  let parts := (if days = 0 then [] else [s!"days={days}"]) ++
    (if rest = 0 then [] else [s!"seconds={rest}"])
  s!"datetime.timedelta({commaSeparated parts})"

/-- The offset of a moment. -/
def displayOffset (minutes : Int) : String :=
  if minutes = 0 then "datetime.timezone.utc" else s!"datetime.timezone({displaySpan minutes})"

def displayDate (year month day : Nat) : Option Moment → String
  | none => s!"datetime.date({year}, {month}, {day})"
  | some t =>
    let tail := if t.microsecond ≠ 0 then [t.second, t.microsecond]
      else if t.second ≠ 0 then [t.second] else []
    let fields := ([year, month, day, t.hour, t.minute] ++ tail).map toString
    let zone := match t.offset with
      | none => []
      | some m => [s!"tzinfo={displayOffset m}"]
    s!"datetime.datetime({commaSeparated (fields ++ zone)})"

mutual
/-- The form that messages show: texts in quotation marks, numbers so that they read back. -/
def display : Datum → String
  | null => "None"
  | bool true => "True"
  | bool false => "False"
  | int n => toString n
  | float x => Number.shortestText x
  | text s => Text.quoted s
  | bytes bs => displayBytes bs
  | date y m d t => displayDate y m d t
  | list items => s!"[{commaSeparated (displayAll items)}]"
  | tuple [item] => s!"({display item},)"
  | tuple items => s!"({commaSeparated (displayAll items)})"
  | set [] => "set()"
  | set items =>
    String.ofList ['\x7b'] ++ commaSeparated (displayAll items) ++ String.ofList ['\x7d']
  | mapping entries =>
    String.ofList ['\x7b'] ++ commaSeparated (displayEntries entries) ++ String.ofList ['\x7d']
  | again isMapping => if isMapping then "\x7b...\x7d" else "[...]"

def displayAll : List Datum → List String
  | [] => []
  | item :: items => display item :: displayAll items

def displayEntries : List (Datum × Datum) → List String
  | [] => []
  | (key, value) :: entries => s!"{display key}: {display value}" :: displayEntries entries
end

def digitsTo (width n : Nat) : String :=
  let ds := toString n
  String.ofList (List.replicate (width - ds.length) '0') ++ ds

def plainMoment (t : Moment) : String :=
  let fraction := if t.microsecond = 0 then "" else "." ++ digitsTo 6 t.microsecond
  let zone := match t.offset with
    | none => ""
    | some m =>
      let sign := if m < 0 then "-" else "+"
      sign ++ digitsTo 2 (m.natAbs / 60) ++ ":" ++ digitsTo 2 (m.natAbs % 60)
  s!"{digitsTo 2 t.hour}:{digitsTo 2 t.minute}:{digitsTo 2 t.second}" ++ fraction ++ zone

/-- As `display`, but a text or a date stands alone without marks. -/
def plain : Datum → String
  | text s => s
  | date y m d none => s!"{digitsTo 4 y}-{digitsTo 2 m}-{digitsTo 2 d}"
  | date y m d (some t) => s!"{digitsTo 4 y}-{digitsTo 2 m}-{digitsTo 2 d} {plainMoment t}"
  | d => display d

/-- Empty collections and texts, zeros, `false` and `null` do not count as given. -/
def isGiven : Datum → Bool
  | null => false
  | bool b => b
  | int n => n != 0
  | float x => !(x == 0.0)
  | text s => !s.isEmpty
  | bytes bs => !bs.isEmpty
  | date .. => true
  | list items | tuple items | set items => !items.isEmpty
  | mapping entries => !entries.isEmpty
  | again _ => true

mutual
/-- Whether a value may be a key: mutable collections may not. -/
def isKey : Datum → Bool
  | list _ | set _ | mapping _ | again _ => false
  | tuple items => areKeys items
  | _ => true

def areKeys : List Datum → Bool
  | [] => true
  | item :: items => isKey item && areKeys items
end

/-- Why a value cannot be shown. -/
inductive TextFault where
  /-- An integer without a decimal text. -/
  | digits
  /-- More collections inside each other than there is room for. -/
  | nesting
deriving DecidableEq, Repr

/-- How many collections may lie inside each other in a value that is shown. -/
def room : Nat := 960

mutual
/-- The first thing, in the order in which they are shown, that keeps a value from being shown with
room for `room` collections inside each other. -/
def textFault? (room : Nat) : Datum → Option TextFault
  | int n => if Number.isWritable n then none else some .digits
  | list items | tuple items | set items => match room with
    | 0 => some .nesting
    | room + 1 => textFaultAmong? room items
  | mapping entries => match room with
    | 0 => some .nesting
    | room + 1 => textFaultWithin? room entries
  | _ => none

def textFaultAmong? (room : Nat) : List Datum → Option TextFault
  | [] => none
  | item :: items => (textFault? room item).or (textFaultAmong? room items)

def textFaultWithin? (room : Nat) : List (Datum × Datum) → Option TextFault
  | [] => none
  | (key, value) :: entries =>
    ((textFault? room key).or (textFault? room value)).or (textFaultWithin? room entries)
end

/-- The exact value of a number as ±m·2^q; truth values count as one and zero. -/
def dyadic? : Datum → Option (Bool × Nat × Int)
  | bool b => some (false, b.toNat, 0)
  | int n => some (decide (n < 0), n.natAbs, 0)
  | float x => match Parts.ofFloat x with
    | .finite negative m q => some (negative, m, q)
    | _ => none
  | _ => none

def sameNumber (a b : Bool × Nat × Int) : Bool :=
  let (s, m, q) := a
  let (t, n, r) := b
  let e := min q r
  let x := m * Nat.pow 2 (q - e).toNat
  let y := n * Nat.pow 2 (r - e).toNat
  x == y && (s == t || x == 0)

mutual
/-- Whether two values are the same key: numbers of all kinds compare by value. -/
def sameKey : Datum → Datum → Bool
  | null, null => true
  | text s, text t => s == t
  | bytes s, bytes t => s == t
  | date y m d none, date y' m' d' none => y == y' && m == m' && d == d'
  | date y m d (some t), date y' m' d' (some t') =>
    Moment.isSame (dayNumber y m d) t (dayNumber y' m' d') t'
  | tuple xs, tuple ys => sameKeys xs ys
  | float x, float y => x == y
  | a, b => match dyadic? a, dyadic? b with
    | some x, some y => sameNumber x y
    | _, _ => false

def sameKeys : List Datum → List Datum → Bool
  | [], [] => true
  | x :: xs, y :: ys => sameKey x y && sameKeys xs ys
  | _, _ => false
end

/-- Adds an entry; a key that is there keeps its place and takes the new value. -/
def putEntry (key value : Datum) : List (Datum × Datum) → List (Datum × Datum)
  | [] => [(key, value)]
  | (k, v) :: entries =>
    if sameKey k key then (k, value) :: entries else (k, v) :: putEntry key value entries

/-- The entry of a mapping under a text. -/
def entry? (name : String) (entries : List (Datum × Datum)) : Option Datum :=
  (entries.find? fun e => sameKey e.1 (text name)).map Prod.snd

/-- A mapping with texts as keys, in the given order. -/
def fields (entries : List (String × Datum)) : Datum :=
  mapping (entries.map fun e => (text e.1, e.2))

end Datum
end Reckoner
