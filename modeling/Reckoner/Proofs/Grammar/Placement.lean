import Reckoner.Proofs.Grammar.Phrase

/-!
# Phrases in their places

A phrase can stand at every level: where it binds less than the level needs it is enclosed in
parentheses. No other phrase at that level with the same core has fewer parentheses or nests less,
so a limit on nesting that admits any of them admits this one.
-/
namespace Reckoner

namespace Depth

/-- No more factors and no more groups are open. -/
instance : LE Depth := ⟨fun j k => j.factors ≤ k.factors ∧ j.groups ≤ k.groups⟩

variable {j k : Depth}

theorem le_inFactor (k : Depth) : k ≤ k.inFactor := ⟨Nat.le_succ _, Nat.le_refl _⟩

theorem le_inGroup (k : Depth) : k ≤ k.inGroup := ⟨Nat.le_refl _, Nat.le_succ _⟩

theorem inFactor_mono (h : j ≤ k) : j.inFactor ≤ k.inFactor := ⟨Nat.succ_le_succ h.1, h.2⟩

theorem inGroup_mono (h : j ≤ k) : j.inGroup ≤ k.inGroup := ⟨h.1, Nat.succ_le_succ h.2⟩

/-- What is refused at some depth is refused at every greater one. -/
theorem refuses_mono {n : Nesting} (h : j ≤ k) (hk : n.refuses k = false) :
    n.refuses j = false := by
  obtain ⟨hf, hg⟩ := h
  simp only [Nesting.refuses, Depth.room, Bool.or_eq_false_iff, Bool.and_eq_false_iff,
    decide_eq_false_iff_not] at hk ⊢
  refine ⟨hk.1.imp id fun h => by omega, ?_⟩
  cases hr : n.room with
  | none => rfl
  | some room =>
    have hle : k.factors + 4 * k.groups ≤ room := by simpa [hr] using hk.2
    have : j.factors + 4 * j.groups ≤ room := by omega
    simpa using this

end Depth

namespace Grammar

namespace Level

/-- How strongly a phrase of a level binds, at least. -/
def rank : Level → Nat
  | chain .sum => 1
  | chain .product => 2
  | factor => 3
  | primary => 5

theorem rank_level (c : Chain) : c.level.rank = (Level.chain c).rank + 1 := by cases c <;> rfl

end Level

namespace Phrase

/-- How many parentheses a phrase opens. -/
def opens {l : Level} : Phrase l → Nat
  | operand p => p.opens
  | join left _ right => left.opens + right.opens
  | sign _ p => p.opens
  | base p => p.opens
  | power b e => b.opens + e.opens
  | group p => p.opens + 1
  | call _ p => p.opens + 1
  | constant _ => 0
  | number _ => 0

/-- A phrase as an expression, which needs no parentheses. -/
def expression : {l : Level} → Phrase l → Phrase .expression
  | .chain .sum, p => p
  | .chain .product, p => operand (l := .sum) p
  | .factor, p => operand (l := .sum) (operand (l := .product) p)
  | .primary, p => operand (l := .sum) (operand (l := .product) (base p))

/-- A phrase at a level, in parentheses if it binds too little. -/
def place : {l : Level} → Phrase l → (m : Level) → Phrase m
  | _, p, .chain .sum => p.expression
  | .chain .product, p, .chain .product => p
  | .chain .sum, p, .chain .product => operand (l := .product) (base (group p.expression))
  | .factor, p, .chain .product => operand (l := .product) p
  | .primary, p, .chain .product => operand (l := .product) (base p)
  | .factor, p, .factor => p
  | .primary, p, .factor => base p
  | .chain _, p, .factor => base (group p.expression)
  | .primary, p, .primary => p
  | .factor, p, .primary => group p.expression
  | .chain _, p, .primary => group p.expression

variable {l m : Level} {n : Nesting}

/-- Depths that stand in a relation open factors and groups together; if one of them is refused no
sooner than the other, it is so for every phrase. -/
theorem Admitted.transfer {n' : Nesting} {R : Depth → Depth → Prop}
    (hfactor : ∀ {j k}, R j k → R j.inFactor k.inFactor)
    (hgroup : ∀ {j k}, R j k → R j.inGroup k.inGroup)
    (hrefuses : ∀ {j k}, R j k → n.refuses k = false → n'.refuses j = false)
    {p : Phrase l} {j k : Depth} (h : p.Admitted n k) (hj : R j k) : p.Admitted n' j := by
  induction p generalizing j k with
  | operand _ ih => exact ih h hj
  | join _ _ _ ih₁ ih₂ => exact ⟨ih₁ h.1 hj, ih₂ h.2 hj⟩
  | sign _ _ ih => exact ⟨hrefuses (hfactor hj) h.1, ih h.2 (hfactor hj)⟩
  | base _ ih => exact ⟨hrefuses (hfactor hj) h.1, ih h.2 (hfactor hj)⟩
  | power _ _ ih₁ ih₂ =>
    exact ⟨hrefuses (hfactor hj) h.1, ih₁ h.2.1 (hfactor hj), ih₂ h.2.2 (hfactor hj)⟩
  | group _ ih => exact ih h (hgroup hj)
  | call _ _ ih => exact ih h (hgroup hj)
  | constant _ => trivial
  | number _ => trivial

theorem Admitted.mono {p : Phrase l} {j k : Depth} (h : p.Admitted n k) (hj : j ≤ k) :
    p.Admitted n j :=
  h.transfer (R := (· ≤ ·)) Depth.inFactor_mono Depth.inGroup_mono Depth.refuses_mono hj

@[simp] theorem tree_place (p : Phrase l) (m : Level) : (p.place m).tree = p.tree := by
  rcases l with (_ | _) | _ | _ <;> rcases m with (_ | _) | _ | _ <;> rfl

/-- Parentheses are all that a place adds. -/
theorem tokens_place (p : Phrase l) (m : Level) : (p.place m).tokens =
    if l.rank < m.rank then .symbol '(' :: (p.tokens ++ [.symbol ')']) else p.tokens := by
  rcases l with (_ | _) | _ | _ <;> rcases m with (_ | _) | _ | _ <;> rfl

/-- No more parentheses than another phrase, and admitted wherever that one is. -/
structure Spares (p : Phrase l) (q : Phrase m) : Prop where
  opens_le : p.opens ≤ q.opens
  admitted : ∀ n k, q.Admitted n k → p.Admitted n k

namespace Spares

variable {l' : Level} {p : Phrase l} {q : Phrase m} {r : Phrase l'}

theorem refl (p : Phrase l) : p.Spares p := ⟨le_rfl, fun _ _ h => h⟩

theorem trans (h : p.Spares q) (h' : q.Spares r) : p.Spares r :=
  ⟨h.opens_le.trans h'.opens_le, fun n k hr => h.admitted n k (h'.admitted n k hr)⟩

theorem join {c : Chain} {left left' : Phrase (.chain c)} {right right' : Phrase c.level}
    (op : { ch // ch ∈ c.symbols }) (hl : left.Spares left') (hr : right.Spares right') :
    (Phrase.join left op right).Spares (.join left' op right') :=
  ⟨Nat.add_le_add hl.opens_le hr.opens_le,
    fun n k h => ⟨hl.admitted n k h.1, hr.admitted n k h.2⟩⟩

theorem sign {p q : Phrase .factor} (op : { ch // ch ∈ ['-', '+'] }) (h : p.Spares q) :
    (Phrase.sign op p).Spares (.sign op q) :=
  ⟨h.opens_le, fun n _ ha => ⟨ha.1, h.admitted n _ ha.2⟩⟩

theorem base {p q : Phrase .primary} (h : p.Spares q) : (Phrase.base p).Spares (.base q) :=
  ⟨h.opens_le, fun n _ ha => ⟨ha.1, h.admitted n _ ha.2⟩⟩

theorem power {b b' : Phrase .primary} {e e' : Phrase .factor} (hb : b.Spares b')
    (he : e.Spares e') : (Phrase.power b e).Spares (.power b' e') :=
  ⟨Nat.add_le_add hb.opens_le he.opens_le,
    fun n _ h => ⟨h.1, hb.admitted n _ h.2.1, he.admitted n _ h.2.2⟩⟩

theorem group {p q : Phrase .expression} (h : p.Spares q) : (Phrase.group p).Spares (.group q) :=
  ⟨Nat.succ_le_succ h.opens_le, fun n _ ha => h.admitted n _ ha⟩

theorem call {p q : Phrase .expression} (f : Identifier) (h : p.Spares q) :
    (Phrase.call f p).Spares (.call f q) :=
  ⟨Nat.succ_le_succ h.opens_le, fun n _ ha => h.admitted n _ ha⟩

theorem operand_self (c : Chain) (p : Phrase c.level) : (operand p).Spares p :=
  ⟨le_rfl, fun _ _ h => h⟩

theorem self_operand (c : Chain) (p : Phrase c.level) : p.Spares (operand p) :=
  ⟨le_rfl, fun _ _ h => h⟩

theorem self_base (p : Phrase .primary) : p.Spares (.base p) :=
  ⟨le_rfl, fun n k h => by
    have hp : p.Admitted n k.inFactor := h.2
    exact hp.mono k.le_inFactor⟩

theorem self_group (p : Phrase .expression) : p.Spares (.group p) :=
  ⟨Nat.le_succ _, fun n k h => by
    have hp : p.Admitted n k.inGroup := h
    exact hp.mono k.le_inGroup⟩

theorem self_base_group (p : Phrase .expression) : p.Spares (.base (.group p)) :=
  (self_group p).trans (self_base _)

end Spares

/-! ## Places that need less

A phrase that stands at a level that needs more spares nothing against the same phrase here. -/

theorem place_chain_spares (p : Phrase m) (l : Chain) :
    (p.place (.chain l)).Spares (p.place l.level) :=
  match l, m with
  | .sum, .chain .sum => (Spares.self_base_group p).trans (Spares.self_operand .product _)
  | .sum, .chain .product => Spares.operand_self .sum p
  | .sum, .factor => Spares.operand_self .sum (p.place (.chain .product))
  | .sum, .primary => Spares.operand_self .sum (p.place (.chain .product))
  | .product, .chain .sum => Spares.operand_self .product (p.place .factor)
  | .product, .chain .product =>
    (Spares.self_operand .sum p).trans (Spares.self_base_group p.expression)
  | .product, .factor => Spares.operand_self .product p
  | .product, .primary => Spares.operand_self .product (base p)

theorem expression_spares (p : Phrase m) : p.Spares p.expression :=
  match m with
  | .chain .sum => Spares.refl p
  | .chain .product => Spares.self_operand .sum p
  | .factor => (Spares.self_operand .product p).trans (Spares.self_operand .sum _)
  | .primary => (Spares.self_base p).trans
      ((Spares.self_operand .product _).trans (Spares.self_operand .sum _))

theorem place_factor_spares (p : Phrase m) : (p.place .factor).Spares (base (p.place .primary)) :=
  match m with
  | .chain _ => Spares.refl (base (group p.expression))
  | .factor => p.expression_spares.trans (Spares.self_base_group p.expression)
  | .primary => Spares.refl (base p)

theorem place_primary_spares (p : Phrase m) :
    (p.place .primary).Spares (group (p.place .expression)) :=
  match m with
  | .chain _ => Spares.refl (group p.expression)
  | .factor => Spares.refl (group p.expression)
  | .primary => p.expression_spares.trans (Spares.self_group p.expression)

end Phrase
end Grammar
end Reckoner
