import Reckoner.Number.Integer
import Reckoner.Yaml.Token.Place

/-!
# Scalars of YAML documents

The texts of quoted, plain and block scalars. Single line breaks inside a scalar become spaces,
further ones stay; block scalars keep or fold their lines by style.
-/
namespace Reckoner.Yaml.Scalar

/-- A line break with the breaks that follow it, folded: one line feed alone becomes a space. -/
def folded (first : Char) (more : List Char) : List Char :=
  if first ≠ '\n' then first :: more else if more.isEmpty then [' '] else more

def simpleEscape? : Char → Option Char
  | '0' => some '\x00'
  | 'a' => some '\x07'
  | 'b' => some '\x08'
  | 't' => some '\t'
  | '\t' => some '\t'
  | 'n' => some '\n'
  | 'v' => some '\x0b'
  | 'f' => some '\x0c'
  | 'r' => some '\r'
  | 'e' => some '\x1b'
  | ' ' => some ' '
  | '"' => some '"'
  | '\\' => some '\\'
  | '/' => some '/'
  | 'N' => some '\x85'
  | '_' => some '\xa0'
  | 'L' => some '\u2028'
  | 'P' => some '\u2029'
  | _ => none

def codeLength? : Char → Option Nat
  | 'x' => some 2
  | 'u' => some 4
  | 'U' => some 8
  | _ => none

def hexadecimal? (cs : List Char) : Option Nat :=
  cs.foldlM (fun n c => (Number.digitOf? 16 c).map (16 * n + ·)) 0

/-- The character of an escaped code, which may be half of a pair. -/
def ofCode (n : Nat) : Result Char :=
  if n < 0x110000 then .ok (Text.ofCode n)
  else if n < 0x80000000 then escaped .value "chr() arg not in range(0x110000)"
  else escaped .overflow "Python int too large to convert to C int"

/-- Line breaks with blanks before and between them; a document separator may not stand there. -/
def quotedBreaks : Nat → Place → Result (List Char × Place)
  | 0, p => .ok ([], p)
  | fuel + 1, p =>
    if p.atSeparator then malformed
    else
      let p := p.skip fun c => c = ' ' || c = '\t'
      match p.lineBreak with
      | none => .ok ([], p)
      | some (c, p) => do
        let (cs, p) ← quotedBreaks fuel p
        return (c :: cs, p)

/-- The character of an escape and the place behind it, or a folded line break. -/
def escape (fuel : Nat) (p : Place) : Result (List Char × Place) :=
  match p.peek with
  | none => malformed
  | some c =>
    match simpleEscape? c, codeLength? c, p.lineBreak with
    | some d, _, _ => .ok ([d], p.next)
    | none, some n, _ =>
      let digits := (p.next.rest.take n)
      match hexadecimal? digits with
      | some code =>
        if digits.length < n then malformed
        else (ofCode code).map fun c => ([c], p.next.forward n)
      | none => malformed
    | none, none, some (_, p) => quotedBreaks fuel p
    | none, none, none => malformed

/-- The inside of a quoted scalar up to the closing mark. -/
def quotedTail (mark : Char) : Nat → Place → Result (List Char × Place)
  | 0, _ => malformed
  | fuel + 1, p =>
    match p.rest with
    | [] => malformed
    | c :: rest =>
      if c = mark then
        if mark = '\'' && rest.head? = some '\'' then do
          let (cs, p) ← quotedTail mark fuel (p.forward 2)
          return (mark :: cs, p)
        else .ok ([], p.next)
      else if mark = '"' && c = '\\' then do
        let (cs, p) ← escape fuel p.next
        let (more, p) ← quotedTail mark fuel p
        return (cs ++ more, p)
      else if c = ' ' || c = '\t' then do
        let (blanks, p) := p.run fun c => c = ' ' || c = '\t'
        let (cs, p) ← quotedTail mark fuel p
        return (if isLineEnd (rest.dropWhile (fun c => c = ' ' || c = '\t')).head? then cs
          else blanks ++ cs, p)
      else match p.lineBreak with
        | some (first, p) => do
          let (more, p) ← quotedBreaks fuel p
          let (cs, p) ← quotedTail mark fuel p
          return (folded first more ++ cs, p)
        | none => do
          let (cs, p) ← quotedTail mark fuel p.next
          return (c :: cs, p)

/-- A quoted scalar at its opening mark. -/
def quoted (mark : Char) (p : Place) : Result (List Char × Place) :=
  quotedTail mark (p.rest.length + 1) p.next

/-- Blank lines inside a plain scalar; `none` before a document separator. -/
def plainBreaks : Nat → Place → Option (List Char) × Place
  | 0, p => (some [], p)
  | fuel + 1, p =>
    let p := p.skip (· = ' ')
    match p.lineBreak with
    | none => (some [], p)
    | some (c, p) =>
      if p.atSeparator then (none, p)
      else
        let (cs, p) := plainBreaks fuel p
        (cs.map (c :: ·), p)

/-- The gap after a part of a plain scalar: its characters, none if the scalar ends here, and
whether it holds a line break. -/
def plainGap (p : Place) : List Char × Bool × Place :=
  let (blanks, p) := p.run (· = ' ')
  match p.lineBreak with
  | none => (blanks, false, p)
  | some (first, p) =>
    if p.atSeparator then ([], true, p)
    else match plainBreaks (p.rest.length + 1) p with
      | (none, p) => ([], true, p)
      | (some more, p) => (folded first more, true, p)

/-- The characters of a plain scalar up to the next gap. In flow collections their punctuation
ends it. -/
def plainPart (inFlow : Bool) : List Char → List Char
  | [] => []
  | c :: rest =>
    if isGap (some c) then []
    else if c = ':' && (isGap rest.head? ||
        (inFlow && rest.head?.any fun d => ",[]\x7b\x7d".toList.contains d)) then []
    else if inFlow && ",?[]\x7b\x7d".toList.contains c then []
    else c :: plainPart inFlow rest

/-- A plain scalar: its text, whether a line break followed its last part, and the place behind. -/
def plain (inFlow : Bool) (indent : Nat) :
    Nat → List Char → Bool → Place → List Char × Bool × Place
  | 0, _, broken, p => ([], broken, p)
  | fuel + 1, gap, broken, p =>
    let part := if p.peek = some '#' then [] else plainPart inFlow p.rest
    if part.isEmpty then ([], broken, p)
    else
      let (gap', broken, p) := plainGap (p.forward part.length)
      if gap'.isEmpty || p.peek = some '#' || (!inFlow && p.column < indent) then
        (gap ++ part, broken, p)
      else
        let (more, broken, p) := plain inFlow indent fuel gap' broken p
        (gap ++ part ++ more, broken, p)

/-- What becomes of the line breaks at the end of a block scalar. -/
inductive Chomping where
  | strip | clip | keep
deriving DecidableEq

def chomping? : Option Char → Option Chomping
  | some '+' => some .keep
  | some '-' => some .strip
  | _ => none

def increment? : Option Char → Option Nat
  | some c => if c.isDigit then some (c.toNat - 48) else none
  | none => none

/-- The chomping and the indentation after the mark of a block scalar, in either order. -/
def header (p : Place) : Result (Chomping × Option Nat × Place) := do
  let (chomping, increment, p) := match chomping? p.peek, increment? p.peek with
    | some c, _ => match increment? p.next.peek with
      | some n => (c, some n, p.next.next)
      | none => (c, none, p.next)
    | none, some n => match chomping? p.next.peek with
      | some c => (c, some n, p.next.next)
      | none => (.clip, some n, p.next)
    | none, none => (.clip, none, p)
  if increment = some 0 || !isWordEnd p.peek then malformed
  else return (chomping, increment, ← p.endOfLine)

/-- The breaks before the first line and the greatest column of their spaces. -/
def leadingBreaks : Nat → Place → List Char × Nat × Place
  | 0, p => ([], 0, p)
  | fuel + 1, p =>
    let p := p.skip (· = ' ')
    match p.lineBreak with
    | none => ([], p.column, p)
    | some (c, q) =>
      let (cs, column, q) := leadingBreaks fuel q
      (c :: cs, max p.column column, q)

def startsText (p : Place) : Bool := !(p.peek = some ' ' || p.peek = some '\t')

/-- The lines of a block scalar; `before` are the breaks before the next line. -/
def blockLines (isFolded : Bool) (chomping : Chomping) (indent : Nat) :
    Nat → List Char → Place → List Char × Place
  | 0, _, p => ([], p)
  | fuel + 1, before, p =>
    if p.column ≠ indent || p.rest.isEmpty then
      (if chomping = .keep then before else [], p)
    else
      let (line, q) := p.run (!isBreak ·)
      let (first, q) := match q.lineBreak with
        | some (c, q) => ([c], q)
        | none => ([], q)
      let (more, q) := q.breaks indent (q.rest.length + 1)
      if q.column = indent && !q.rest.isEmpty then
        let isJoined := isFolded && first == ['\n'] && startsText p && startsText q
        let join := if isJoined then (if more.isEmpty then [' '] else []) else first
        let (rest, q) := blockLines isFolded chomping indent fuel more q
        (before ++ line ++ join ++ rest, q)
      else
        (before ++ line ++ (if chomping = .strip then [] else first) ++
          (if chomping = .keep then more else []), q)

/-- A block scalar at its mark, below a parent with the given indentation. -/
def block (parent : Int) (p : Place) : Result (List Char × Place) := do
  let isFolded := p.peek = some '>'
  let (chomping, increment, p) ← header p.next
  let least := max (parent + 1) 1 |>.toNat
  let (before, indent, p) := match increment with
    | some n =>
      let indent := least + n - 1
      let (cs, p) := p.breaks indent (p.rest.length + 1)
      (cs, indent, p)
    | none =>
      let (cs, column, p) := leadingBreaks (p.rest.length + 1) p
      (cs, max least column, p)
  return blockLines isFolded chomping indent (p.rest.length + 1) before p

end Reckoner.Yaml.Scalar
