import Reckoner.Failure

/-!
# Tokens of YAML documents

The tokens that the structure of a document is made of, and the ways in which reading a document can
go wrong. The tokens of a text that goes wrong end in what is wrong with it.
-/
namespace Reckoner.Yaml

/-- A document that is not well-formed, or a value in it that cannot be built. -/
inductive Defect where
  | malformed
  | escaped (f : Failure)
deriving DecidableEq, Repr

abbrev Result := Except Defect

def malformed {α : Type} : Result α := .error .malformed

def escaped {α : Type} (fault : HostFault) (message : String) : Result α :=
  .error (.escaped (.host fault message))

inductive Token where
  | version (major : Nat)
  | tagHandle (handle expansion : String)
  | reserved
  | documentStart | documentEnd
  | blockSequenceStart | blockMappingStart | blockEnd
  | flowSequenceStart | flowSequenceEnd
  | flowMappingStart | flowMappingEnd
  | blockEntry | flowEntry | key | value
  | aliasOf (name : String)
  | anchor (name : String)
  | tag (handle : Option String) (suffix : String)
  | scalar (text : String) (isPlain : Bool)
  /-- What is wrong with the text from here on. -/
  | broken (d : Defect)
deriving DecidableEq, Repr

def isBreak (c : Char) : Bool :=
  c = '\n' || c = '\r' || c = '\x85' || c = '\u2028' || c = '\u2029'

/-- The end of the text, a blank or a line break. -/
def isGap : Option Char → Bool
  | none => true
  | some c => c = ' ' || c = '\t' || isBreak c

/-- The end of the text or a line break. -/
def isLineEnd : Option Char → Bool
  | none => true
  | some c => isBreak c

/-- A gap that ends a word of a directive or a tag: the end, a space or a line break. -/
def isWordEnd : Option Char → Bool
  | none => true
  | some c => c = ' ' || isBreak c

def isWordChar (c : Char) : Bool := c.isAlphanum || c = '-' || c = '_'

/-- Characters that a document may hold. -/
def isAllowed (c : Char) : Bool :=
  let n := c.toNat
  n = 9 || n = 10 || n = 13 || (32 ≤ n && n ≤ 126) || n = 133 || (160 ≤ n && n ≤ 0xd7ff) ||
    (0xe000 ≤ n && n ≤ 0xfffd) || 0x10000 ≤ n

end Reckoner.Yaml
