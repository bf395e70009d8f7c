import Reckoner.Yaml.Token

/-!
# Timestamps in YAML documents

A date, perhaps with a time and an offset from universal time. What is written is read first and
then checked: the offset, the calendar, the time of day.
-/
namespace Reckoner.Yaml

/-- A timestamp as it is written, with its offset in minutes. -/
structure Timestamp where
  year : Nat
  month : Nat
  day : Nat
  time : Option Moment
  /-- Whether month and day have two digits. -/
  isPadded : Bool
deriving DecidableEq, Repr

namespace Timestamp

/-- Takes from `least` to `most` digits. -/
def digits? (least most : Nat) (cs : List Char) : Option (List Char × List Char) :=
  let ds := (cs.takeWhile Char.isDigit).take most
  if ds.length < least then none else some (ds, cs.drop ds.length)

def after? (mark : Char) : List Char → Option (List Char)
  | c :: cs => if c = mark then some cs else none
  | [] => none

def isTabOrSpace (c : Char) : Bool := c = ' ' || c = '\t'

/-- An offset from universal time in minutes: `Z`, or a sign with hours and perhaps minutes. -/
def offset? (cs : List Char) : Option (Option Int) :=
  match cs.dropWhile isTabOrSpace with
  | [] => if cs.isEmpty then some none else none
  | ['Z'] => some (some 0)
  | sign :: rest => do
    if sign ≠ '+' && sign ≠ '-' then none
    let (hours, rest) ← digits? 1 2 rest
    let minutes ← match rest with
      | [] => some ([] : List Char)
      | rest => do
        let (ds, rest) ← digits? 2 2 (← after? ':' rest)
        if rest.isEmpty then some ds else none
    let total : Int := Number.natural hours * 60 + Number.natural minutes
    return some (if sign = '-' then -total else total)

/-- A time with its offset. -/
def moment? (cs : List Char) : Option Moment := do
  let (hour, cs) ← digits? 1 2 cs
  let (minute, cs) ← digits? 2 2 (← after? ':' cs)
  let (second, cs) ← digits? 2 2 (← after? ':' cs)
  let (fraction, cs) := match cs with
    | '.' :: more => (more.takeWhile Char.isDigit, more.dropWhile Char.isDigit)
    | cs => ([], cs)
  let offset ← offset? cs
  let micro := fraction.take 6 ++ List.replicate (6 - fraction.length) '0'
  return ⟨Number.natural hour, Number.natural minute, Number.natural second,
    Number.natural micro, offset⟩

/-- What separates a date from a time. -/
def afterDate? : List Char → Option (List Char)
  | 'T' :: more => some more
  | 't' :: more => some more
  | c :: cs => if isTabOrSpace c then some (cs.dropWhile isTabOrSpace) else none
  | [] => none

/-- A timestamp, perhaps with a line feed at its end. -/
def ofText? (text : String) : Option Timestamp := do
  let cs := text.toList
  let cs := if cs.getLast? = some '\n' then cs.dropLast else cs
  let (year, cs) ← digits? 4 4 cs
  let (month, cs) ← digits? 1 2 (← after? '-' cs)
  let (day, cs) ← digits? 1 2 (← after? '-' cs)
  let time ← if cs.isEmpty then some none else do some (some (← moment? (← afterDate? cs)))
  return { year := Number.natural year, month := Number.natural month, day := Number.natural day
           time, isPadded := month.length = 2 && day.length = 2 }

def isLeap (year : Nat) : Bool := year % 4 = 0 && (year % 100 ≠ 0 || year % 400 = 0)

def daysIn (year month : Nat) : Nat :=
  if month = 2 then if isLeap year then 29 else 28
  else if [4, 6, 9, 11].contains month then 30 else 31

/-- An offset must be shorter than a day. -/
def isOffset (minutes : Int) : Bool := minutes.natAbs < 24 * 60

def dayFault? (t : Timestamp) : Option String :=
  if t.year = 0 then some "year 0 is out of range"
  else if t.month < 1 || t.month > 12 then some "month must be in 1..12"
  else if t.day < 1 || t.day > daysIn t.year t.month then some "day is out of range for month"
  else none

def timeFault? (m : Moment) : Option String :=
  if m.hour > 23 then some "hour must be in 0..23"
  else if m.minute > 59 then some "minute must be in 0..59"
  else if m.second > 59 then some "second must be in 0..59"
  else none

def offsetFault? (m : Moment) : Option String :=
  (m.offset.filter fun minutes => !isOffset minutes).map fun minutes =>
    "offset must be a timedelta strictly between -timedelta(hours=24) and timedelta(hours=24), " ++
      s!"not {Datum.displaySpan minutes}."

/-- What is wrong with a timestamp that is written well. -/
def fault? (t : Timestamp) : Option String :=
  (t.time.bind offsetFault?).orElse fun _ => t.dayFault?.orElse fun _ => t.time.bind timeFault?

/-- The value of a timestamp that is written well. -/
def value (t : Timestamp) : Result Datum :=
  match t.fault? with
  | some message => escaped .value message
  | none => .ok (.date t.year t.month t.day t.time)

end Timestamp
end Reckoner.Yaml
