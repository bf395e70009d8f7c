import Reckoner.Yaml.Token.Scalar

/-!
# The token sequence of a YAML document

Tokens are read one after the other. Indentation opens and closes block collections. Where a token
may turn out to be a key, its place in the sequence is remembered; the colon that follows on the
same line inserts the key there.
-/
namespace Reckoner.Yaml

/-- A place in the token sequence where a key may have started. -/
structure PossibleKey where
  /-- Whether a key must stand here. -/
  isRequired : Bool
  tokens : Nat
  index : Nat
  line : Nat
  column : Nat

structure Lexer where
  place : Place
  /-- The column of the innermost block collection. -/
  indent : Int := -1
  indents : List Int := []
  /-- How many flow collections are open. -/
  flow : Nat := 0
  keyAllowed : Bool := true
  /-- At most one possible key for each depth of flow collections, the deepest first. -/
  keys : List (Nat × PossibleKey) := []
  tokens : Array Token := #[]

namespace Lexer

def push (t : Token) (s : Lexer) : Lexer := { s with tokens := s.tokens.push t }

def moveTo (p : Place) (s : Lexer) : Lexer := { s with place := p }

def allowKey (b : Bool) (s : Lexer) : Lexer := { s with keyAllowed := b }

/-- The next token or text that is not a space, a comment or a line break. -/
def skipGaps : Nat → Lexer → Lexer
  | 0, s => s
  | fuel + 1, s =>
    let p := s.place.skip (· = ' ')
    let p := if p.peek = some '#' then p.skip (!isBreak ·) else p
    match p.lineBreak with
    | none => s.moveTo p
    | some (_, p) => skipGaps fuel ((s.moveTo p).allowKey (s.flow = 0 || s.keyAllowed))

/-- Possible keys must end on their line and within 1024 characters. -/
def dropStale (s : Lexer) : Result Lexer :=
  let isStale (k : PossibleKey) : Bool :=
    k.line ≠ s.place.line || s.place.index - k.index > 1024
  if s.keys.any fun k => isStale k.2 && k.2.isRequired then malformed
  else .ok { s with keys := s.keys.filter fun k => !isStale k.2 }

/-- Closes the block collections that are indented deeper than a column. -/
def unwind (column : Int) (s : Lexer) : Lexer :=
  if s.flow ≠ 0 then s
  else
    let deeper := (s.indent :: s.indents).takeWhile (· > column)
    match (s.indent :: s.indents).drop deeper.length with
    | [] => s
    | indent :: indents =>
      { s with
        indent, indents
        tokens := s.tokens ++ (List.replicate deeper.length Token.blockEnd).toArray }

def dropKey (s : Lexer) : Result Lexer :=
  if s.keys.any fun k => k.1 == s.flow && k.2.isRequired then malformed
  else .ok { s with keys := s.keys.filter (·.1 != s.flow) }

/-- Remembers that a key may start here. -/
def saveKey (s : Lexer) : Result Lexer :=
  if !s.keyAllowed then .ok s
  else do
    let s ← s.dropKey
    let p := s.place
    let key : PossibleKey :=
      { isRequired := s.flow = 0 && s.indent = p.column
        tokens := s.tokens.size, index := p.index, line := p.line, column := p.column }
    return { s with keys := (s.flow, key) :: s.keys }

def insertAt (i : Nat) (t : Token) (s : Lexer) : Lexer :=
  { s with tokens := (s.tokens.toList.take i ++ t :: s.tokens.toList.drop i).toArray }

/-- Opens a block collection unless one with this indentation is open; its token comes before the
token with the given number. -/
def openBlock (column number : Nat) (t : Token) (s : Lexer) : Lexer :=
  if s.flow = 0 && s.indent < column then
    insertAt number t { s with indent := column, indents := s.indent :: s.indents }
  else s

def single (t : Token) (width : Nat) (s : Lexer) : Lexer :=
  (s.push t).moveTo (s.place.forward width)

def endStream (s : Lexer) : Result Lexer := (s.unwind (-1)).dropKey

def marker (t : Token) (s : Lexer) : Result Lexer := do
  let s ← (s.unwind (-1)).dropKey
  return (s.allowKey false).single t 3

def openFlow (t : Token) (s : Lexer) : Result Lexer := do
  let s ← s.saveKey
  return ({ s with flow := s.flow + 1, keyAllowed := true } : Lexer).single t 1

def closeFlow (t : Token) (s : Lexer) : Result Lexer := do
  let s ← s.dropKey
  if s.flow = 0 then malformed
  else return ({ s with flow := s.flow - 1, keyAllowed := false } : Lexer).single t 1

def flowEntry (s : Lexer) : Result Lexer := do
  let s ← (s.allowKey true).dropKey
  return s.single .flowEntry 1

def blockEntry (s : Lexer) : Result Lexer := do
  if s.flow = 0 && !s.keyAllowed then malformed
  let s := s.openBlock s.place.column s.tokens.size .blockSequenceStart
  let s ← (s.allowKey true).dropKey
  return s.single .blockEntry 1

def explicitKey (s : Lexer) : Result Lexer := do
  if s.flow = 0 && !s.keyAllowed then malformed
  let s := s.openBlock s.place.column s.tokens.size .blockMappingStart
  let s ← (s.allowKey (s.flow = 0)).dropKey
  return s.single .key 1

/-- A colon makes a key of the possible key before it, or gives a value to an explicit or an empty
key. -/
def value (s : Lexer) : Result Lexer := do
  match s.keys.lookup s.flow with
  | some key =>
    let s := { s with keys := s.keys.filter (·.1 != s.flow), keyAllowed := false }
    let s := s.insertAt key.tokens .key
    return (s.openBlock key.column key.tokens .blockMappingStart).single .value 1
  | none =>
    if s.flow = 0 && !s.keyAllowed then malformed
    let s := s.openBlock s.place.column s.tokens.size .blockMappingStart
    let s ← (s.allowKey (s.flow = 0)).dropKey
    return s.single .value 1

/-- The name after `&` or `*`, which must end before a gap or punctuation. -/
def name (token : String → Token) (s : Lexer) : Result Lexer := do
  let s ← s.saveKey
  let (cs, p) := s.place.next.run isWordChar
  let ends := isGap p.peek || p.peek.any fun c => "?:,]\x7d%@`".toList.contains c
  if cs.isEmpty || !ends then malformed
  else return ((s.allowKey false).push (token (String.ofList cs))).moveTo p

def isUriChar (c : Char) : Bool := c.isAlphanum || "-;/?:@&=+$,_.!~*'()[]%".toList.contains c

/-- The bytes that percent escapes stand for, as characters. -/
def unescapeUri : Nat → List Char → Result (List Char)
  | 0, _ => malformed
  | _, [] => .ok []
  | fuel + 1, '%' :: cs => do
    let rec bytes : Nat → List Char → Option (List UInt8 × List Char)
      | fuel + 1, '%' :: a :: b :: cs => do
        let n ← Scalar.hexadecimal? [a, b]
        let (bs, cs) ← bytes fuel cs
        return (UInt8.ofNat n :: bs, cs)
      | _, '%' :: _ => none
      | _, cs => some ([], cs)
    match bytes (fuel + 1) ('%' :: cs) with
    | none => malformed
    | some (bs, cs) => match String.fromUTF8? ⟨bs.toArray⟩ with
      | none => malformed
      | some s => return s.toList ++ (← unescapeUri fuel cs)
  | fuel + 1, c :: cs => return c :: (← unescapeUri fuel cs)

def uri (p : Place) : Result (String × Place) := do
  let (cs, p) := p.run isUriChar
  if cs.isEmpty then malformed
  return (String.ofList (← unescapeUri (cs.length + 1) cs), p)

/-- A tag handle: an exclamation mark, or a word between two. -/
def handle (p : Place) : Result (String × Place) :=
  let (cs, q) := p.next.run isWordChar
  if p.peekAt 1 = some ' ' then .ok ("!", p.next)
  else if q.peek = some '!' then .ok (String.ofList ('!' :: cs ++ ['!']), q.next)
  else malformed

def tag (s : Lexer) : Result Lexer := do
  let s ← s.saveKey
  let p := s.place
  let (t, p) ← (do
    if p.peekAt 1 = some '<' then
      let (suffix, p) ← uri (p.forward 2)
      if p.peek = some '>' then return (Token.tag none suffix, p.next) else malformed
    else if isGap (p.peekAt 1) then return (Token.tag none "!", p.next)
    else
      let word := p.next.rest.takeWhile fun c => !isWordEnd (some c)
      let (h, p) ← if word.contains '!' then handle p else .ok ("!", p.next)
      let (suffix, p) ← uri p
      return (Token.tag (some h) suffix, p) : Result (Token × Place))
  if isWordEnd p.peek then return ((s.allowKey false).push t).moveTo p else malformed

/-- A directive at the start of a line. -/
def directive (s : Lexer) : Result Lexer := do
  let s ← (s.unwind (-1)).dropKey
  let (cs, p) := s.place.next.run isWordChar
  if cs.isEmpty || !isWordEnd p.peek then malformed
  let (t, p) ← (do
    if cs = ['Y', 'A', 'M', 'L'] then
      let (major, p) := (p.skip (· = ' ')).run Char.isDigit
      if major.isEmpty || p.peek ≠ some '.' then malformed
      let (minor, p) := p.next.run Char.isDigit
      if minor.isEmpty || !isWordEnd p.peek then malformed
      return (Token.version (Number.natural major), p)
    else if cs = ['T', 'A', 'G'] then
      let p := p.skip (· = ' ')
      if p.peek ≠ some '!' then malformed
      let (h, p) ← handle p
      if p.peek ≠ some ' ' then malformed
      let (expansion, p) ← uri (p.skip (· = ' '))
      if !isWordEnd p.peek then malformed
      return (Token.tagHandle h expansion, p)
    else return (Token.reserved, p.skip (!isBreak ·)) : Result (Token × Place))
  let p ← p.endOfLine
  return ((s.allowKey false).push t).moveTo p

def blockScalar (s : Lexer) : Result Lexer := do
  let s ← (s.allowKey true).dropKey
  let (cs, p) ← Scalar.block s.indent s.place
  return (s.push (.scalar (String.ofList cs) false)).moveTo p

def quotedScalar (mark : Char) (s : Lexer) : Result Lexer := do
  let s ← s.saveKey
  let (cs, p) ← Scalar.quoted mark s.place
  return ((s.allowKey false).push (.scalar (String.ofList cs) false)).moveTo p

def plainScalar (s : Lexer) : Result Lexer := do
  let s ← s.saveKey
  let (cs, broken, p) :=
    Scalar.plain (s.flow ≠ 0) (s.indent + 1).toNat (s.place.rest.length + 1) [] false s.place
  return ((s.allowKey broken).push (.scalar (String.ofList cs) true)).moveTo p

/-- Whether a plain scalar can start here. -/
def startsPlain (s : Lexer) (c : Char) : Bool :=
  (!isGap (some c) && !"-?:,[]\x7b\x7d#&*!|>'\"%@`".toList.contains c) ||
    (!isGap (s.place.peekAt 1) && (c = '-' || (s.flow = 0 && (c = '?' || c = ':'))))

/-- The next token at a character that is no gap. -/
def token (c : Char) (s : Lexer) : Result Lexer :=
  let p := s.place
  let gapFollows := isGap (p.peekAt 1)
  if p.column = 0 && c = '%' then s.directive
  else if p.column = 0 && p.atMarker '-' then s.marker .documentStart
  else if p.column = 0 && p.atMarker '.' then s.marker .documentEnd
  else if c = '[' then s.openFlow .flowSequenceStart
  else if c = '\x7b' then s.openFlow .flowMappingStart
  else if c = ']' then s.closeFlow .flowSequenceEnd
  else if c = '\x7d' then s.closeFlow .flowMappingEnd
  else if c = ',' then s.flowEntry
  else if c = '-' && gapFollows then s.blockEntry
  else if c = '?' && (s.flow ≠ 0 || gapFollows) then s.explicitKey
  else if c = ':' && (s.flow ≠ 0 || gapFollows) then s.value
  else if c = '*' then s.name .aliasOf
  else if c = '&' then s.name .anchor
  else if c = '!' then s.tag
  else if s.flow = 0 && (c = '|' || c = '>') then s.blockScalar
  else if c = '\'' || c = '"' then s.quotedScalar c
  else if s.startsPlain c then s.plainScalar
  else malformed

def step (s : Lexer) : Result Lexer := do
  let s ← (skipGaps (s.place.rest.length + 1) s).dropStale
  let s := s.unwind s.place.column
  match s.place.peek with
  | none => s.endStream
  | some c => s.token c

/-- The tokens that stand whatever follows: those before the first possible key. -/
def settled (s : Lexer) : List Token :=
  let isPending (k : Nat × PossibleKey) : Bool :=
    k.2.line = s.place.line && s.place.index - k.2.index ≤ 1024
  let numbers := (s.keys.filter isPending).map fun k => k.2.tokens
  s.tokens.toList.take (numbers.foldl min s.tokens.size)

/-- Steps to the end of the text; every step takes at least one character. -/
def run : Nat → Lexer → List Token
  | 0, s => s.tokens.toList
  | fuel + 1, s => match s.step with
    | .error d => s.settled ++ [.broken d]
    | .ok s' =>
      if s'.place.rest.isEmpty && s.place.rest.isEmpty then s'.tokens.toList else run fuel s'

end Lexer

/-- The tokens of a document. A byte order mark may stand at its start. -/
def Token.ofText (cs : List Char) : List Token :=
  if !cs.all isAllowed then [.broken .malformed]
  else
    let start : Place := { rest := cs }
    let start := if cs.head? = some '\ufeff' then start.next else start
    Lexer.run (cs.length + 2) { place := start }

end Reckoner.Yaml
