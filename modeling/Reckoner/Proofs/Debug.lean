import Reckoner.Proofs.Double.Shortest
import Reckoner.Proofs.Equality
import Reckoner.Proofs.Identifiers

/-!
# Debug forms

The debug form escapes nothing. Yet no name and no operator of a tree that was read holds a quote,
and no text of a number a parenthesis, so one can see where each of them ends: no debug form goes on
as another one. What is more, the debug form tells all there is to tell about such a tree.
-/
namespace Reckoner

open Double Grammar

namespace Grammar

theorem singleton_mem_of_mem {ch : Char} {chs : List Char} {ops : List String} (h : ch ∈ chs)
    (hops : chs.map String.singleton ⊆ ops) : String.singleton ch ∈ ops :=
  hops (List.mem_map_of_mem h)

/-- The names and operators of a phrase are those of the grammar. -/
theorem Phrase.wellFormed_tree {l : Level} (p : Phrase l) : p.tree.WellFormed := by
  induction p with
  | operand _ ih => exact ih
  | @join l _ op _ ih₁ ih₂ =>
    refine ⟨singleton_mem_of_mem op.2 ?_, ih₁, ih₂⟩
    cases l <;> decide
  | sign op _ ih => exact ⟨singleton_mem_of_mem op.2 (by decide), ih⟩
  | base _ ih => exact ih
  | power _ _ ih₁ ih₂ => exact ⟨by decide, ih₁, ih₂⟩
  | group _ ih => exact ih
  | call f _ ih => exact ⟨f.2, ih⟩
  | constant name => exact name.2
  | number l => trivial

end Grammar

/-- Two texts end at the same delimiter if neither holds it. -/
theorem eq_of_delimited {d : Char} {xs ys r s : List Char} (hx : d ∉ xs) (hy : d ∉ ys)
    (h : xs ++ d :: r = ys ++ d :: s) : xs = ys ∧ r = s := by
  have hrun {zs : List Char} (hz : d ∉ zs) (t : List Char) :
      (zs ++ d :: t).takeWhile (· != d) = zs := by
    refine takeWhile_run (fun c hc => ?_) (by simp [Stops])
    simpa using ne_of_mem_of_not_mem hc hz
  have heq : xs = ys := by rw [← hrun hx r, h, hrun hy s]
  subst heq
  simpa using h

theorem parenthesis_notMem_shortestChars {x : Float} (h : FromZero x) :
    ')' ∉ Number.shortestChars x := by
  rcases Number.shortestChars_cases h with ⟨hx, -⟩ | ⟨l, hx, -⟩ <;> rw [hx]
  · decide
  · exact fun hm => absurd (l.isPart_of_mem _ hm) (by decide)

namespace Expr

/-! ## Quoted texts -/

/-- The quote around names and operators. -/
def quote : Char := '\''

def quoted (text : String) : List Char := quote :: (text.toList ++ [quote])

theorem quote_notMem_of_isIdentifier {name : String} (h : isIdentifier name = true) :
    quote ∉ name.toList := by
  obtain ⟨ch, cs, hname, -, hall⟩ := exists_name_chars ⟨name, h⟩
  intro hq
  rw [show name.toList = ch :: cs from hname] at hq
  exact absurd (hall quote hq) (by decide)

theorem quote_notMem_of_mem {op : String} (h : op ∈ ["+", "-", "*", "/", "%", "^"]) :
    quote ∉ op.toList := by
  revert op
  decide

theorem quoted_append_inj {x y : String} {r s : List Char} (hx : quote ∉ x.toList)
    (hy : quote ∉ y.toList) (h : quoted x ++ r = quoted y ++ s) : x = y ∧ r = s := by
  simp only [quoted, List.cons_append, List.append_assoc, List.nil_append, List.cons.injEq,
    true_and] at h
  obtain ⟨hxy, hrest⟩ := eq_of_delimited hx hy h
  exact ⟨String.toList_injective hxy, hrest⟩

/-! ## The parts of a debug form -/

/-- The constructors of trees. -/
inductive Shape where
  | number | constant | unary | binary | call

/-- The word at the front of a debug form. -/
def Shape.word : Shape → String
  | number => "Number"
  | constant => "Constant"
  | unary => "UnaryOp"
  | binary => "BinaryOp"
  | call => "FunctionCall"

theorem Shape.eq_of_word {a b : Shape} (h : a.word.toList = b.word.toList) : a = b := by
  cases a <;> cases b <;> first | rfl | exact absurd h (by decide)

def shape : Expr → Shape
  | number _ => .number
  | constant _ => .constant
  | unary .. => .unary
  | binary .. => .binary
  | call .. => .call

/-- What stands between parts of a tree. -/
def separator : List Char := [',', ' ']

/-- What a debug form has in its parentheses. -/
def parts : Expr → List Char
  | number x => Number.shortestChars x
  | constant name => quoted name
  | unary op a => quoted op ++ (separator ++ a.debug.toList)
  | binary a op b => a.debug.toList ++ (separator ++ (quoted op ++ (separator ++ b.debug.toList)))
  | call f a => quoted f ++ (separator ++ a.debug.toList)

theorem toList_debug (t : Expr) :
    t.debug.toList = t.shape.word.toList ++ '(' :: (t.parts ++ [')']) := by
  cases t <;> dsimp only [debug] <;>
    simp [shape, Shape.word, parts, quoted, quote, separator, toString, Number.shortestText]

/-- No word holds a parenthesis, so debug forms that go on alike begin with the same one. -/
theorem shape_eq_of_debug {a b : Expr} {r s : List Char}
    (h : a.debug.toList ++ r = b.debug.toList ++ s) :
    a.shape = b.shape ∧ a.parts ++ ')' :: r = b.parts ++ ')' :: s := by
  have hword (w : Shape) : '(' ∉ w.word.toList := by cases w <;> decide
  simp only [toList_debug, List.append_assoc, List.cons_append, List.nil_append] at h
  obtain ⟨hshape, hparts⟩ := eq_of_delimited (hword _) (hword _) h
  exact ⟨Shape.eq_of_word hshape, hparts⟩

/-! ## Unique readability -/

/-- No debug form goes on as another one. -/
theorem debug_append_inj {a b : Expr} {r s : List Char} (ha : a.WellFormed) (hb : b.WellFormed)
    (hna : a.Numbers FromZero) (hnb : b.Numbers FromZero)
    (h : a.debug.toList ++ r = b.debug.toList ++ s) : a = b ∧ r = s := by
  have hsigns : ["+", "-"] ⊆ ["+", "-", "*", "/", "%", "^"] := by decide
  -- an operand is followed by the rest of the form, so what is behind the forms may differ
  induction a generalizing b r s with
  | number x =>
    obtain ⟨hshape, hparts⟩ := shape_eq_of_debug h
    cases b <;> cases hshape
    obtain ⟨hxy, rfl⟩ := eq_of_delimited (parenthesis_notMem_shortestChars hna)
      (parenthesis_notMem_shortestChars hnb) hparts
    exact ⟨congrArg number (Number.eq_of_shortestChars hna hnb hxy), rfl⟩
  | constant name =>
    obtain ⟨hshape, hparts⟩ := shape_eq_of_debug h
    cases b <;> cases hshape
    obtain ⟨rfl, hrest⟩ := quoted_append_inj (quote_notMem_of_isIdentifier ha)
      (quote_notMem_of_isIdentifier hb) hparts
    exact ⟨rfl, (List.cons.inj hrest).2⟩
  | unary op a ih =>
    obtain ⟨hshape, hparts⟩ := shape_eq_of_debug h
    cases b <;> cases hshape
    simp only [parts, List.append_assoc] at hparts
    obtain ⟨rfl, hoperand⟩ := quoted_append_inj (quote_notMem_of_mem (hsigns ha.1))
      (quote_notMem_of_mem (hsigns hb.1)) hparts
    obtain ⟨rfl, hrest⟩ := ih ha.2 hb.2 hna hnb (List.append_cancel_left hoperand)
    exact ⟨rfl, (List.cons.inj hrest).2⟩
  | binary a op d iha ihd =>
    obtain ⟨hshape, hparts⟩ := shape_eq_of_debug h
    cases b <;> cases hshape
    simp only [parts, List.append_assoc] at hparts
    obtain ⟨rfl, hop⟩ := iha ha.2.1 hb.2.1 hna.1 hnb.1 hparts
    obtain ⟨rfl, hright⟩ := quoted_append_inj (quote_notMem_of_mem ha.1)
      (quote_notMem_of_mem hb.1) (List.append_cancel_left hop)
    obtain ⟨rfl, hrest⟩ := ihd ha.2.2 hb.2.2 hna.2 hnb.2 (List.append_cancel_left hright)
    exact ⟨rfl, (List.cons.inj hrest).2⟩
  | call f a ih =>
    obtain ⟨hshape, hparts⟩ := shape_eq_of_debug h
    cases b <;> cases hshape
    simp only [parts, List.append_assoc] at hparts
    obtain ⟨rfl, hargument⟩ := quoted_append_inj (quote_notMem_of_isIdentifier ha.1)
      (quote_notMem_of_isIdentifier hb.1) hparts
    obtain ⟨rfl, hrest⟩ := ih ha.2 hb.2 hna hnb (List.append_cancel_left hargument)
    exact ⟨rfl, (List.cons.inj hrest).2⟩

end Expr

namespace Reading

theorem wellFormed_of_parse {r : Reading} {text : String} {t : Expr}
    (h : r.parse text = .ok t) : t.WellFormed := by
  obtain ⟨p, -, -, -, rfl, -, -, -⟩ := exists_phrase h
  exact p.wellFormed_tree

/-- Trees that were read have the same debug form exactly when they are equal. -/
theorem debug_eq_iff_same {r r' : Reading} {text text' : String} {a b : Expr}
    (ha : r.parse text = .ok a) (hb : r'.parse text' = .ok b) :
    a.debug = b.debug ↔ a.same b = true := by
  have hna := fromZero_of_parse ha
  have hnb := fromZero_of_parse hb
  constructor
  · intro h
    obtain ⟨rfl, -⟩ := Expr.debug_append_inj (r := []) (s := []) (wellFormed_of_parse ha)
      (wellFormed_of_parse hb) hna hnb (by rw [h])
    exact Expr.same_self (hna.mono fun _ hx => hx.not_isNaN)
  · intro h
    rw [Expr.eq_of_same_of_fromZero hna hnb h]

/-- Only parentheses set these texts apart, and their debug forms show it. -/
theorem debug_ne_of_group :
    ∃ a b : Expr, (⟨.unlimited, true⟩ : Reading).parse "-x^2" = .ok a ∧
      (⟨.unlimited, true⟩ : Reading).parse "(-x)^2" = .ok b ∧ a.debug ≠ b.debug := by
  let minus : { ch // ch ∈ ['-', '+'] } := ⟨'-', by decide⟩
  let x : Phrase .primary := .constant ⟨"x", by decide⟩
  let two : Literal := ⟨['2'], none, none, by simp, by simp, by simp⟩
  have ha : (⟨.unlimited, true⟩ : Reading).parse "-x^2" =
      .ok (.unary "-" (.binary (.constant "x") "^" (.number two.value))) :=
    parse_unlimited_iff.2 ⟨(Phrase.sign minus (.power x (.base (.number two)))).expression,
      .token .nil (.token .nil (.token .nil (.one .nil (.number two)))), rfl⟩
  have hb : (⟨.unlimited, true⟩ : Reading).parse "(-x)^2" =
      .ok (.binary (.unary "-" (.constant "x")) "^" (.number two.value)) :=
    parse_unlimited_iff.2
      ⟨(Phrase.power (.group (Phrase.sign minus (.base x)).expression)
        (.base (.number two))).expression,
      .token .nil (.token .nil (.token .nil (.token .nil (.token .nil
        (.one .nil (.number two)))))), rfl⟩
  exact ⟨_, _, ha, hb, fun h => Bool.false_ne_true ((debug_eq_iff_same ha hb).1 h)⟩

end Reading
end Reckoner
