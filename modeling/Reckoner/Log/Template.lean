import Reckoner.Datum
import Reckoner.Number.Fixed

/-!
# Message templates

Messages with places for values: a percent sign, perhaps a name in parentheses, flags, a width, a
precision, and a letter that says how the value is written. Values are given in order, or by name in
one mapping. A template with the wrong values has no text.
-/
namespace Reckoner.Log.Template

/-- The values that are still to be written. Behind a name only the value under it is left. -/
structure Values where
  entries : Option (List (Datum × Datum))
  rest : List Datum

def Values.next? (v : Values) : Option (Datum × Values) :=
  match v.rest with
  | [] => none
  | d :: rest => some (d, { v with rest })

/-- How a value is written. -/
structure Place where
  isLeft : Bool
  isZeroed : Bool
  isMarked : Bool
  plus : Option Char
  width : Nat
  precision : Option Nat
  letter : Char

/-- Widths and precisions are not greater. -/
def amountLimit : Nat := 2147483647

/-- The name up to the parenthesis that closes `depth` of them, and what follows it. -/
def key? : Nat → List Char → Option (List Char × List Char)
  | _, [] => none
  | depth, c :: cs =>
    if c = ')' && depth = 1 then some ([], cs)
    else
      let depth := if c = '(' then depth + 1 else if c = ')' then depth - 1 else depth
      (key? depth cs).map fun (name, rest) => (c :: name, rest)

/-- The values after a name in parentheses, if there is one. -/
def named? (cs : List Char) (v : Values) : Option (List Char × Values) :=
  match cs with
  | '(' :: more => do
    let (name, rest) ← key? 1 more
    let d ← Datum.entry? (String.ofList name) (← v.entries)
    return (rest, { v with rest := [d] })
  | cs => some (cs, v)

/-- A width or a precision: digits, or a star for the next value, which must be an integer. -/
def amount? (cs : List Char) (v : Values) : Option (Option Int × List Char × Values) :=
  match cs with
  | '*' :: rest => do
    let (d, v) ← v.next?
    let n ← match d with
      | .bool b => some (b.toNat : Int)
      | .int n => some n
      | _ => none
    if n.natAbs ≤ amountLimit then return (some n, rest, v) else none
  | cs =>
    let ds := cs.takeWhile Char.isDigit
    if ds.isEmpty then some (none, cs, v)
    else if Number.natural ds ≤ amountLimit then
      some (some (Number.natural ds : Int), cs.drop ds.length, v)
    else none

def isFlag (c : Char) : Bool := "-+ #0".contains c

def isLength (c : Char) : Bool := c = 'h' || c = 'l' || c = 'L'

/-- The place behind a percent sign, what follows it, and the values that are left for it. A
negative width fills on the right, a negative precision counts as zero. -/
def place? (cs : List Char) (v : Values) : Option (Place × List Char × Values) := do
  let (cs, v) ← named? cs v
  let flags := cs.takeWhile isFlag
  let (width, cs, v) ← amount? (cs.drop flags.length) v
  let (precision, cs, v) ← match cs with
    | '.' :: more => do
      let (n, cs, v) ← amount? more v
      pure (some (n.getD 0).toNat, cs, v)
    | cs => some (none, cs, v)
  let cs := if cs.head?.any isLength then cs.drop 1 else cs
  match cs with
  | [] => none
  | letter :: rest =>
    let place :=
      { isLeft := flags.contains '-' || width.any (· < 0)
        isZeroed := flags.contains '0'
        isMarked := flags.contains '#'
        plus := if flags.contains '+' then some '+'
          else if flags.contains ' ' then some ' ' else none
        width := (width.getD 0).natAbs, precision, letter }
    return (place, rest, v)

/-- Fills a text up to the width of its place. -/
def Place.pad (p : Place) (sign body : List Char) (isNumber : Bool) : List Char :=
  let missing := p.width - (sign.length + body.length)
  if p.isLeft then sign ++ body ++ List.replicate missing ' '
  else if p.isZeroed && isNumber then sign ++ List.replicate missing '0' ++ body
  else List.replicate missing ' ' ++ sign ++ body

def Place.text (p : Place) (s : String) : List Char :=
  let cs := s.toList
  p.pad [] (match p.precision with
    | some n => cs.take n
    | none => cs) false

def Place.sign (p : Place) (negative : Bool) : List Char :=
  if negative then ['-'] else p.plus.toList

def integer? : Datum → Option Int
  | .bool b => some b.toNat
  | .int n => some n
  | _ => none

def truncated? : Datum → Option Int
  | .float x => match Parts.ofFloat x with
    | .finite negative m q =>
      let n : Nat := if 0 ≤ q then m * Nat.pow 2 q.toNat else m / Nat.pow 2 (-q).toNat
      some (if negative then -n else n)
    | _ => none
  | d => integer? d

def float? : Datum → Option Float
  | .float x => some x
  | d => (integer? d).bind fun n => let x := Float.ofInt n; if x.isInf then none else some x

/-- An integer in a base; the mark of the base comes before all zeros. -/
def Place.integer (p : Place) (base : Nat) (mark : List Char) (n : Int) : List Char :=
  let ds := Nat.toDigits base n.natAbs
  let ds := List.replicate (p.precision.getD 0 - ds.length) '0' ++ ds
  p.pad (p.sign (n < 0) ++ if p.isMarked then mark else []) ds true

def Place.float (p : Place) (x : Float) : List Char :=
  let places := p.precision.getD 6
  let write (d : Decimal) : List Char := match p.letter.toLower with
    | 'f' => Number.placesOf d places
    | 'e' => Number.scientificOf d places
    | _ => if p.isMarked then Number.generalOf d places
      else Number.writeDecimal (Number.generalStyle places) (d.toSignificant places)
  let body := Number.magnitude (if p.isMarked then Number.withPoint ∘ write else write) x
  p.pad (p.sign (Number.isNegative x && !x.isNaN)) body true

/-- The character of a text of length one, or of a code point. -/
def character? : Datum → Option Char
  | .text s => match s.toList with
    | [c] => some c
    | _ => none
  | d => (integer? d).bind fun n =>
    if 0 ≤ n && n < 0x110000 then some (Text.ofCode n.toNat) else none

/-- Characters outside of ASCII by their escapes. -/
def asciiOnly (s : String) : String :=
  String.ofList (s.toList.flatMap fun c => if c.toNat < 128 then [c] else Text.codeEscape c)

/-- A value in a place. -/
def Place.write (p : Place) (d : Datum) : Option (List Char) :=
  match p.letter with
  | 's' => some (p.text d.plain)
  | 'r' => some (p.text d.display)
  | 'a' => some (p.text (asciiOnly d.display))
  | 'd' | 'i' | 'u' => (truncated? d).map (p.integer 10 [])
  | 'x' => (integer? d).map (p.integer 16 ['0', 'x'])
  | 'X' => (integer? d).map fun n => (p.integer 16 ['0', 'x'] n).map Char.toUpper
  | 'o' => (integer? d).map (p.integer 8 ['0', 'o'])
  | 'f' | 'e' | 'g' => (float? d).map p.float
  | 'F' | 'E' | 'G' => (float? d).map fun x => (p.float x).map Char.toUpper
  | 'c' => (character? d).map fun c => p.pad [] [c] false
  | _ => none

/-- Fills the places one after the other; all values that are given in order must be used. -/
def fillChars : Nat → List Char → Values → Option (List Char)
  | 0, _, _ => none
  | _, [], v => if v.rest.isEmpty || v.entries.isSome then some [] else none
  | fuel + 1, '%' :: '%' :: cs, v => (fillChars fuel cs v).map ('%' :: ·)
  | fuel + 1, '%' :: cs, v => do
    let (p, rest, v) ← place? cs v
    let (d, v) ← v.next?
    return (← p.write d) ++ (← fillChars fuel rest v)
  | fuel + 1, c :: cs, v => (fillChars fuel cs v).map (c :: ·)

/-- A template with its values; without values it is no template. One mapping that is not empty
gives values by name. -/
def fill (template : String) (values : List Datum) : Option String :=
  let cs := template.toList
  match values with
  | [] => some template
  | [.mapping (e :: es)] =>
    (fillChars (cs.length + 1) cs ⟨some (e :: es), values⟩).map String.ofList
  | _ => (fillChars (cs.length + 1) cs ⟨none, values⟩).map String.ofList

end Reckoner.Log.Template
