/-!
# Moments

A point in time is a time of a day, perhaps with an offset from universal time. Two moments with
offsets are the same if they are so in universal time; one without an offset is never the same as
one with an offset.
-/
namespace Reckoner

/-- A point in time as a document writes it; the offset from universal time is in minutes. -/
structure Moment where
  hour : Nat
  minute : Nat
  second : Nat
  microsecond : Nat
  offset : Option Int
deriving DecidableEq, Repr

/-- The number of a day in the calendar, in which a year starts in March. -/
def dayNumber (year month day : Nat) : Nat :=
  let (year, month) := if month < 3 then (year - 1, month + 9) else (year, month - 3)
  365 * year + year / 4 - year / 100 + year / 400 + (153 * month + 2) / 5 + day

namespace Moment

/-- The microseconds up to a moment of a day, in universal time if it has an offset. -/
def microseconds (day : Nat) (t : Moment) : Int :=
  let minutes : Int := (day * 24 + t.hour) * 60 + t.minute - t.offset.getD 0
  (minutes * 60 + t.second) * 1000000 + t.microsecond

/-- Whether moments of two days are the same. -/
def isSame (day : Nat) (t : Moment) (day' : Nat) (t' : Moment) : Bool :=
  t.offset.isSome == t'.offset.isSome && t.microseconds day == t'.microseconds day'

end Moment
end Reckoner
