import Reckoner.Yaml.Token

/-!
# Places in a YAML text

A place is what is left of the text with the index, line and column of its first character.
-/
namespace Reckoner.Yaml

structure Place where
  rest : List Char
  index : Nat := 0
  line : Nat := 0
  column : Nat := 0

namespace Place

def peek (p : Place) : Option Char := p.rest.head?

def peekAt (p : Place) (n : Nat) : Option Char := (p.rest.drop n).head?

/-- The place behind the next character. -/
def next (p : Place) : Place :=
  match p.rest with
  | [] => p
  | c :: rest =>
    if isBreak c && !(c = '\r' && rest.head? = some '\n') then ⟨rest, p.index + 1, p.line + 1, 0⟩
    else ⟨rest, p.index + 1, p.line, if c = '\ufeff' then p.column else p.column + 1⟩

def forward : Nat → Place → Place
  | 0, p => p
  | n + 1, p => forward n p.next

/-- The longest run of characters with a property, and the place behind it. -/
def run (f : Char → Bool) (p : Place) : List Char × Place :=
  let cs := p.rest.takeWhile f
  (cs, p.forward cs.length)

def skip (f : Char → Bool) (p : Place) : Place := (p.run f).2

/-- A line break, which counts as a line feed unless it separates lines or paragraphs. -/
def lineBreak (p : Place) : Option (Char × Place) :=
  match p.rest with
  | '\r' :: '\n' :: _ => some ('\n', p.forward 2)
  | c :: _ =>
    if c = '\u2028' || c = '\u2029' then some (c, p.next)
    else if isBreak c then some ('\n', p.next)
    else none
  | [] => none

/-- Three dashes or points that stand alone. -/
def atMarker (mark : Char) (p : Place) : Bool :=
  p.rest.take 3 = [mark, mark, mark] && isGap (p.peekAt 3)

def atSeparator (p : Place) : Bool := p.atMarker '-' || p.atMarker '.'

/-- The rest of a line that may hold only a comment, and its break. -/
def endOfLine (p : Place) : Result Place :=
  let p := p.skip (· = ' ')
  let p := if p.peek = some '#' then p.skip (!isBreak ·) else p
  if isLineEnd p.peek then .ok ((p.lineBreak.map Prod.snd).getD p) else malformed

/-- Line breaks after spaces up to a column; collects the breaks. -/
def breaks (limit : Nat) : Nat → Place → List Char × Place
  | 0, p => ([], p)
  | fuel + 1, p =>
    let p := p.forward (min (p.rest.takeWhile (· = ' ')).length (limit - p.column))
    match p.lineBreak with
    | none => ([], p)
    | some (c, p) => let (cs, p) := breaks limit fuel p; (c :: cs, p)

end Place
end Reckoner.Yaml
