import Reckoner.Expr
import Reckoner.Proofs.Grammar.Call
import Reckoner.Proofs.Scanning

/-!
# Phrases of the grammar

The grammar on its own: phrases are its derivations, each with the tokens that it consists of and
the tree that it prescribes. A text spells tokens with blanks before, between and after them.
-/
namespace Reckoner

namespace Grammar

/-- The symbols that join the operands of a chain. -/
def Chain.symbols : Chain → List Char
  | sum => ['+', '-']
  | product => ['*', '/', '%']

/-- What phrases stand for: expressions and terms, which are chains, factors and primaries. -/
inductive Level where
  | chain (l : Chain) | factor | primary
deriving DecidableEq

abbrev Level.expression : Level := .chain .sum

/-- The operands of expressions are terms, those of terms factors. -/
def Chain.level : Chain → Level
  | sum => .chain .product
  | product => .factor

/-- An ASCII letter with ASCII letters, digits and underscores behind it. -/
abbrev Identifier := { name : String // isIdentifier name = true }

/-- A derivation of a text without its blanks. Sums and products nest to the left, powers to the
right, and a sign covers a whole power. -/
inductive Phrase : Level → Type
  | operand {l : Chain} (p : Phrase l.level) : Phrase (.chain l)
  | join {l : Chain} (left : Phrase (.chain l)) (op : { ch // ch ∈ l.symbols })
      (right : Phrase l.level) : Phrase (.chain l)
  | sign (op : { ch // ch ∈ ['-', '+'] }) (p : Phrase .factor) : Phrase .factor
  | base (p : Phrase .primary) : Phrase .factor
  | power (base : Phrase .primary) (exponent : Phrase .factor) : Phrase .factor
  | group (p : Phrase .expression) : Phrase .primary
  | call (f : Identifier) (argument : Phrase .expression) : Phrase .primary
  | constant (name : Identifier) : Phrase .primary
  | number (l : Literal) : Phrase .primary

inductive Token where
  | symbol (ch : Char)
  | name (name : Identifier)
  | number (l : Literal)

def Token.chars : Token → List Char
  | symbol ch => [ch]
  | name s => s.1.toList
  | number l => l.chars

namespace Phrase

def tokens {l : Level} : Phrase l → List Token
  | operand p => p.tokens
  | join left op right => left.tokens ++ .symbol op :: right.tokens
  | sign op p => .symbol op :: p.tokens
  | base p => p.tokens
  | power b e => b.tokens ++ .symbol '^' :: e.tokens
  | group p => .symbol '(' :: (p.tokens ++ [.symbol ')'])
  | call f p => .name f :: .symbol '(' :: (p.tokens ++ [.symbol ')'])
  | constant s => [.name s]
  | number l => [.number l]

def tree {l : Level} : Phrase l → Expr
  | operand p => p.tree
  | join left op right => .binary left.tree (String.singleton op) right.tree
  | sign op p => .unary (String.singleton op) p.tree
  | base p => p.tree
  | power b e => .binary b.tree "^" e.tree
  | group p => p.tree
  | call f p => .call f p.tree
  | constant s => .constant s
  | number l => .number l.value

/-- Whether a limit on nesting lets every factor of a phrase be opened, from a depth on. -/
def Admitted (n : Nesting) {l : Level} : Phrase l → Depth → Prop
  | operand p, k => p.Admitted n k
  | join left _ right, k => left.Admitted n k ∧ right.Admitted n k
  | sign _ p, k => n.refuses k.inFactor = false ∧ p.Admitted n k.inFactor
  | base p, k => n.refuses k.inFactor = false ∧ p.Admitted n k.inFactor
  | power b e, k =>
    n.refuses k.inFactor = false ∧ b.Admitted n k.inFactor ∧ e.Admitted n k.inFactor
  | group p, k => p.Admitted n k.inGroup
  | call _ p, k => p.Admitted n k.inGroup
  | constant _, _ => True
  | number _, _ => True

end Phrase

/-- A text that consists of tokens with any blanks around them. -/
inductive Spells : List Token → List Char → Prop
  | blanks {bs} : Blanks bs → Spells [] bs
  | token {bs t ts cs} : Blanks bs → Spells ts cs → Spells (t :: ts) (bs ++ (t.chars ++ cs))

/-- A text that has a tree by the grammar. -/
def Derives (text : String) (t : Expr) : Prop :=
  ∃ p : Phrase .expression, Spells p.tokens text.toList ∧ p.tree = t

namespace Spells

theorem nil : Spells [] [] := .blanks .nil

theorem blanks_append {ts : List Token} {bs cs : List Char} (hb : Blanks bs) (h : Spells ts cs) :
    Spells ts (bs ++ cs) := by
  cases h with
  | blanks hc => exact .blanks (hb.append hc)
  | token hc h =>
    rw [← List.append_assoc]
    exact .token (hb.append hc) h

theorem one {bs : List Char} (hb : Blanks bs) (t : Token) : Spells [t] (bs ++ t.chars) := by
  simpa using Spells.token (t := t) hb nil

theorem append {ts us : List Token} {cs ds : List Char} (h : Spells ts cs) (h' : Spells us ds) :
    Spells (ts ++ us) (cs ++ ds) := by
  induction h with
  | blanks hb => exact h'.blanks_append hb
  | token hb _ ih =>
    rw [List.append_assoc, List.append_assoc]
    exact .token hb ih

theorem cons_iff {t : Token} {ts : List Token} {cs : List Char} :
    Spells (t :: ts) cs ↔ ∃ bs ds, Blanks bs ∧ Spells ts ds ∧ cs = bs ++ (t.chars ++ ds) := by
  constructor
  · rintro (_ | ⟨hb, h⟩)
    exact ⟨_, _, hb, h, rfl⟩
  · rintro ⟨bs, ds, hb, h, rfl⟩
    exact .token hb h

theorem append_iff {ts us : List Token} {cs : List Char} :
    Spells (ts ++ us) cs ↔ ∃ ds es, Spells ts ds ∧ Spells us es ∧ cs = ds ++ es := by
  constructor
  · intro h
    induction ts generalizing cs with
    | nil => exact ⟨[], cs, .nil, h, rfl⟩
    | cons t ts ih =>
      obtain ⟨bs, ds, hb, hts, rfl⟩ := cons_iff.1 h
      obtain ⟨ds, es, h₁, h₂, rfl⟩ := ih hts
      exact ⟨_, es, .token hb h₁, h₂, by simp⟩
  · rintro ⟨ds, es, h₁, h₂, rfl⟩
    exact h₁.append h₂

/-- An operator with a blank on either side. -/
theorem join {ts us : List Token} {cs ds : List Char} (ch : Char) (h : Spells ts cs)
    (h' : Spells us ds) : Spells (ts ++ .symbol ch :: us) (cs ++ ' ' :: ch :: ' ' :: ds) := by
  have hblank : Blanks [' '] := by simp [Blanks, isBlank]
  have hop : Spells (.symbol ch :: us) (' ' :: ch :: ' ' :: ds) :=
    .token hblank (h'.blanks_append hblank)
  exact h.append hop

theorem group {ts : List Token} {cs : List Char} (h : Spells ts cs) :
    Spells (.symbol '(' :: (ts ++ [.symbol ')'])) ('(' :: (cs ++ [')'])) :=
  .token .nil (h.append (.one .nil (.symbol ')')))

end Spells

end Grammar
end Reckoner
