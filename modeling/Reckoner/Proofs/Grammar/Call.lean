import Reckoner.Grammar
import Mathlib

/-!
# Calls of the grammar

One production at work is a `Call`; sums and products are chains at two levels. The equations say
what a call returns in terms of the calls that it makes, without the bounds on what is left.
-/
namespace Reckoner.Grammar

/-- The two levels at which operands are chained from the left. -/
inductive Chain where
  | sum | product
deriving DecidableEq

def Chain.read : Chain → Char → Option BinaryOperator
  | sum => BinaryOperator.ofSumChar?
  | product => BinaryOperator.ofProductChar?

/-- A production at work, from a cursor and a depth: a whole chain, what follows in a chain after
`left`, a factor or a primary. -/
inductive Call (α : Type) where
  | chain (l : Chain) (c : Cursor) (k : Depth)
  | tail (l : Chain) (left : α) (c : Cursor) (k : Depth)
  | factor (c : Cursor) (k : Depth)
  | primary (c : Cursor) (k : Depth)

variable {α : Type}

abbrev Call.expression (c : Cursor) (k : Depth) : Call α := .chain .sum c k

/-- The operands of sums are products, those of products factors. -/
def Chain.operand : Chain → Cursor → Depth → Call α
  | sum => .chain .product
  | product => .factor

/-- What comes next after blanks, if `read` knows it. -/
def next? {β : Type} (read : Char → Option β) (c : Cursor) : Option β :=
  c.skipBlanks.peek?.bind read

/-- A result without the bound on what is left. -/
def forget {bound : Nat} (r : Parsed α bound) : α × Cursor := (r.1, r.2.1)

variable (P : Productions α) (n : Nesting)

/-- What a call returns. -/
def Call.run : Call α → Except Failure (α × Cursor)
  | chain .sum c k => (Grammar.expression P n c k).map forget
  | chain .product c k => (Grammar.term P n c k).map forget
  | tail .sum left c k =>
    (Grammar.sum P n left c k (c.rest.length + 1) (Nat.lt_succ_self _)).map forget
  | tail .product left c k =>
    (Grammar.product P n left c k (c.rest.length + 1) (Nat.lt_succ_self _)).map forget
  | factor c k => (Grammar.factor P n c k).map forget
  | primary c k => (Grammar.primary P n c k).map forget

/-! ## Equations -/

theorem sum_forget (left : α) (c : Cursor) (k : Depth) (b b' : Nat)
    (h : c.rest.length < b) (h' : c.rest.length < b') :
    (sum P n left c k b h).map forget = (sum P n left c k b' h').map forget := by
  induction hl : c.rest.length using Nat.strongRecOn generalizing left c b b' with
  | ind l ih =>
    unfold sum
    split
    · rfl
    · rename_i ch hp
      split
      · rfl
      · split
        · rfl
        · split
          · rfl
          · have := Cursor.drop_one_length_lt hp
            have := c.skipBlanks_length_le
            exact ih _ (by omega) _ _ _ _ _ _ rfl

theorem product_forget (left : α) (c : Cursor) (k : Depth) (b b' : Nat)
    (h : c.rest.length < b) (h' : c.rest.length < b') :
    (product P n left c k b h).map forget = (product P n left c k b' h').map forget := by
  induction hl : c.rest.length using Nat.strongRecOn generalizing left c b b' with
  | ind l ih =>
    unfold product
    split
    · rfl
    · rename_i ch hp
      split
      · rfl
      · split
        · rfl
        · split
          · rfl
          · have := Cursor.drop_one_length_lt hp
            have := c.skipBlanks_length_le
            exact ih _ (by omega) _ _ _ _ _ _ rfl

namespace Call

theorem run_chain (l : Chain) (c : Cursor) (k : Depth) :
    (chain l c k).run P n =
      ((l.operand c k).run P n).bind fun r => (tail l r.1 r.2 k).run P n := by
  cases l with
  | sum =>
    simp only [run, Chain.operand]
    rw [Grammar.expression]
    cases Grammar.term P n c k with
    | error e => rfl
    | ok r => exact sum_forget P n _ _ _ _ _ _ _
  | product =>
    simp only [run, Chain.operand]
    rw [Grammar.term]
    cases Grammar.factor P n c k with
    | error e => rfl
    | ok r => exact product_forget P n _ _ _ _ _ _ _

theorem run_tail (l : Chain) (left : α) (c : Cursor) (k : Depth) :
    (tail l left c k).run P n = match next? l.read c with
      | none => .ok (left, c.skipBlanks)
      | some op => ((l.operand (c.skipBlanks.drop 1) k).run P n).bind fun r =>
        (P.binary op left r.1).bind fun result => (tail l result r.2 k).run P n := by
  cases l with
  | sum =>
    simp only [run, Chain.operand, next?, Chain.read]
    conv_lhs => rw [Grammar.sum]
    split
    · rename_i h
      simp only [h]; rfl
    · rename_i ch h
      simp only [h, Option.bind_some]
      cases BinaryOperator.ofSumChar? ch with
      | none => rfl
      | some op =>
        dsimp only
        cases Grammar.term P n (c.skipBlanks.drop 1) k with
        | error e => rfl
        | ok r =>
          simp only [Except.map, Except.bind, forget]
          cases P.binary op left r.1 with
          | error e => rfl
          | ok result => exact sum_forget P n _ _ _ _ _ _ _
  | product =>
    simp only [run, Chain.operand, next?, Chain.read]
    conv_lhs => rw [Grammar.product]
    split
    · rename_i h
      simp only [h]; rfl
    · rename_i ch h
      simp only [h, Option.bind_some]
      cases BinaryOperator.ofProductChar? ch with
      | none => rfl
      | some op =>
        dsimp only
        cases Grammar.factor P n (c.skipBlanks.drop 1) k with
        | error e => rfl
        | ok r =>
          simp only [Except.map, Except.bind, forget]
          cases P.binary op left r.1 with
          | error e => rfl
          | ok result => exact product_forget P n _ _ _ _ _ _ _

theorem run_factor (c : Cursor) (k : Depth) :
    (factor c k : Call α).run P n = match c.skipBlanks.peek? with
      | none => .error (.unexpectedEnd c.skipBlanks.position)
      | some ch =>
        if n.refuses k.inFactor then .error (.nestingTooDeep c.skipBlanks.position n.guard)
        else match Sign.ofChar? ch with
          | some sign => ((factor (c.skipBlanks.drop 1) k.inFactor).run P n).bind fun r =>
            (P.unary sign r.1).map (·, r.2)
          | none => ((primary c.skipBlanks k.inFactor).run P n).bind fun base =>
            match base.2.accept (some '^') with
            | (false, d) => .ok (base.1, d)
            | (true, d) => ((factor d k.inFactor).run P n).bind fun r =>
              (P.binary .power base.1 r.1).map (·, r.2) := by
  simp only [run]
  conv_lhs => rw [Grammar.factor]
  split
  · rename_i h
    simp only [h]; rfl
  · rename_i ch h
    simp only [h]
    split
    · rfl
    · cases Sign.ofChar? ch with
      | some sign =>
        dsimp only
        cases Grammar.factor P n (c.skipBlanks.drop 1) k.inFactor with
        | error e => rfl
        | ok r =>
          simp only [Except.map, Except.bind, forget]
          cases P.unary sign r.1 <;> rfl
      | none =>
        dsimp only
        cases Grammar.primary P n c.skipBlanks k.inFactor with
        | error e => rfl
        | ok r =>
          dsimp only
          split
          · rename_i d' hd
            simp only [Except.map, Except.bind, forget, hd]
          · rename_i d' hd
            simp only [Except.map, Except.bind, forget, hd]
            cases Grammar.factor P n d' k.inFactor with
            | error e => rfl
            | ok r' =>
              dsimp only
              cases P.binary .power r.1 r'.1 <;> rfl

theorem run_primary (c : Cursor) (k : Depth) :
    (primary c k : Call α).run P n =
      if c.peek? = some '(' then ((expression (c.drop 1) k.inGroup).run P n).bind fun r =>
        match r.2.accept (some ')') with
        | (false, d) => .error (.mismatchedParentheses d.position false)
        | (true, d) => .ok (r.1, d)
      else match c.scanIdentifier with
        | some (name, d) => match d.accept (some '(') with
          | (false, d') => (P.constant name c.position).map (·, d')
          | (true, inner) => ((expression inner k.inGroup).run P n).bind fun r =>
            match r.2.accept (some ')') with
            | (false, d') => .error (.mismatchedParentheses d'.position true)
            | (true, d') => (P.call name r.1 c.position d'.position).map (·, d')
        | none => match c.scanNumber with
          | (.error e, _) => .error e
          | (.ok x, d) => .ok (P.number x, d) := by
  simp only [run]
  conv_lhs => rw [Grammar.primary]
  split
  · rename_i h
    rw [if_pos h]
    cases Grammar.expression P n (c.drop 1) k.inGroup with
    | error e => rfl
    | ok r =>
      dsimp only
      split <;> rename_i d hd <;> simp only [Except.map, Except.bind, forget, hd]
  · rename_i h
    rw [if_neg h]
    split
    · rename_i name d found
      simp only [found]
      split
      · rename_i d' hd
        simp only [hd]
        cases P.constant name c.position <;> rfl
      · rename_i inner hd
        simp only [hd]
        cases Grammar.expression P n inner k.inGroup with
        | error e => rfl
        | ok r =>
          dsimp only
          split
          · rename_i d' hd'
            simp only [Except.map, Except.bind, forget, hd']
          · rename_i d' hd'
            simp only [Except.map, Except.bind, forget, hd']
            cases P.call name r.1 c.position d'.position <;> rfl
    · rename_i found
      simp only [found]
      split <;> rename_i hs <;> simp only [hs] <;> rfl

end Call

end Reckoner.Grammar
