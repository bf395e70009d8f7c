import Reckoner.Proofs.Acceptance
import Reckoner.Proofs.Double.Written
import Reckoner.Proofs.Grammar.Placement
import Reckoner.Proofs.Value

/-!
# Rendered trees

The text of a tree spells a phrase whose level is given by the strength of the tree, so it is read
again. A tree of numbers from zero on comes back as it is. A negative number comes back as a sign
with its absolute value, which has the same value in every place of a tree.
-/
namespace Reckoner

open Double Grammar

namespace Expr

/-- Names are identifiers, operators those of the grammar. -/
def WellFormed : Expr → Prop
  | number _ => True
  | constant name => isIdentifier name = true
  | unary op a => op ∈ ["+", "-"] ∧ a.WellFormed
  | binary a op b => op ∈ ["+", "-", "*", "/", "%", "^"] ∧ a.WellFormed ∧ b.WellFormed
  | call f a => isIdentifier f = true ∧ a.WellFormed

instance : DecidablePred WellFormed := decide
where
  decide : (t : Expr) → Decidable t.WellFormed
    | number _ => .isTrue trivial
    | constant name => inferInstanceAs (Decidable (isIdentifier name = true))
    | unary op a =>
      have := decide a
      inferInstanceAs (Decidable (op ∈ ["+", "-"] ∧ a.WellFormed))
    | binary a op b =>
      have := decide a
      have := decide b
      inferInstanceAs (Decidable (op ∈ ["+", "-", "*", "/", "%", "^"] ∧ _ ∧ _))
    | call f a =>
      have := decide a
      inferInstanceAs (Decidable (isIdentifier f = true ∧ a.WellFormed))

/-- All numbers of a tree are such that `p`. -/
def Numbers (p : Float → Prop) : Expr → Prop
  | number x => p x
  | constant _ => True
  | unary _ a | call _ a => a.Numbers p
  | binary a _ b => a.Numbers p ∧ b.Numbers p

/-- What the text of a number is read as. -/
def ofNumber (x : Float) : Expr :=
  if x.isNaN then .constant "nan"
  else if x < 0.0 then .unary "-" (.number (-x))
  else if x = -0.0 then .number 0.0
  else .number x

/-- What the text of a tree is read as. -/
def reread : Expr → Expr
  | number x => ofNumber x
  | constant name => constant name
  | unary op a => unary op a.reread
  | binary a op b => binary a.reread op b.reread
  | call f a => call f a.reread

end Expr

namespace Grammar

/-- The level of a tree of some strength. -/
def Level.ofStrength : Nat → Level
  | 0 | 1 => .chain .sum
  | 2 => .chain .product
  | 3 | 4 => .factor
  | _ => .primary

theorem Level.ofStrength_rank (l : Level) : .ofStrength l.rank = l := by
  rcases l with (_ | _) | _ | _ <;> rfl

/-- What binds stronger than a chain are its operands. -/
theorem Level.ofStrength_rank_succ (l : Chain) :
    .ofStrength ((Level.chain l).rank + 1) = l.level := by
  cases l <;> rfl

/-- Characters that spell a phrase with the given tree. -/
def Renders (l : Level) (cs : List Char) (t : Expr) : Prop :=
  ∃ p : Phrase l, Spells p.tokens cs ∧ p.tree = t

namespace Renders

variable {cs : List Char} {t : Expr}

theorem base (h : Renders .primary cs t) : Renders .factor cs t := by
  obtain ⟨p, hs, ht⟩ := h
  exact ⟨.base p, hs, ht⟩

theorem operand {l : Chain} (h : Renders l.level cs t) : Renders (.chain l) cs t := by
  obtain ⟨p, hs, ht⟩ := h
  exact ⟨.operand p, hs, ht⟩

theorem of_succ {n : Nat} (h : Renders (.ofStrength (n + 1)) cs t) :
    Renders (.ofStrength n) cs t := by
  match n with
  | 0 => exact h
  | 1 => exact operand (l := .sum) h
  | 2 => exact operand (l := .product) h
  | 3 => exact h
  | 4 => exact base h
  | _ + 5 => exact h

/-- What binds stronger may stand where less is needed. -/
theorem of_le {m n : Nat} (hle : m ≤ n) (h : Renders (.ofStrength n) cs t) :
    Renders (.ofStrength m) cs t := by
  induction hle with
  | refl => exact h
  | step _ ih => exact ih h.of_succ

theorem group (h : Renders .expression cs t) : Renders .primary ('(' :: (cs ++ [')'])) t := by
  obtain ⟨p, hs, ht⟩ := h
  exact ⟨.group p, hs.group, ht⟩

/-- An operand that binds less than needed is enclosed, so that it can stand there. -/
theorem enclose {m n : Nat} {text : String} (hm : m ≤ 5)
    (h : Renders (.ofStrength n) text.toList t) :
    Renders (.ofStrength m) (Expr.enclose (n < m) text).toList t := by
  by_cases hlt : n < m
  · have hgroup : Renders (.ofStrength 5) ('(' :: (text.toList ++ [')'])) t :=
      (h.of_le n.zero_le).group
    have htext : (Expr.enclose (n < m) text).toList = '(' :: (text.toList ++ [')']) := by
      simp [Expr.enclose, hlt]
    rw [htext]
    exact hgroup.of_le hm
  · rw [Expr.enclose, if_neg (by simpa using hlt)]
    exact h.of_le (Nat.not_lt.1 hlt)

theorem join {l : Chain} {ch : Char} {left right : List Char} {a b : Expr} (hch : ch ∈ l.symbols)
    (ha : Renders (.chain l) left a) (hb : Renders l.level right b) :
    Renders (.chain l) (left ++ ' ' :: ch :: ' ' :: right) (.binary a (String.singleton ch) b) := by
  obtain ⟨p, hp, rfl⟩ := ha
  obtain ⟨q, hq, rfl⟩ := hb
  exact ⟨.join p ⟨ch, hch⟩ q, hp.join ch hq, rfl⟩

theorem power {left right : List Char} {a b : Expr} (ha : Renders .primary left a)
    (hb : Renders .factor right b) : Renders .factor (left ++ '^' :: right) (.binary a "^" b) := by
  obtain ⟨p, hp, rfl⟩ := ha
  obtain ⟨q, hq, rfl⟩ := hb
  exact ⟨.power p q, hp.append (.token .nil hq), rfl⟩

theorem sign (ch : Char) (hch : ch ∈ ['-', '+']) (h : Renders .factor cs t) :
    Renders .factor (ch :: cs) (.unary (String.singleton ch) t) := by
  obtain ⟨p, hs, rfl⟩ := h
  exact ⟨.sign ⟨ch, hch⟩ p, .token .nil hs, rfl⟩

theorem constant (name : String) (h : isIdentifier name = true) :
    Renders .primary name.toList (.constant name) :=
  ⟨.constant ⟨name, h⟩, .one .nil _, rfl⟩

theorem call {f : String} (hf : isIdentifier f = true) (h : Renders .expression cs t) :
    Renders .primary (f.toList ++ '(' :: (cs ++ [')'])) (.call f t) := by
  obtain ⟨p, hs, rfl⟩ := h
  exact ⟨.call ⟨f, hf⟩ p, .token .nil hs.group, rfl⟩

theorem number {x : Float} (h : Number.Reads cs x) : Renders .primary cs (.number x) := by
  obtain ⟨l, rfl, rfl⟩ := h
  exact ⟨.number l, .one .nil _, rfl⟩

end Renders

end Grammar

namespace Expr

/-- A number binds as what it is read as. -/
theorem renders_number (x : Float) :
    Renders (.ofStrength (if x < 0.0 then Sign.strength else atomStrength))
      (Number.rendered x).toList (ofNumber x) := by
  rw [Number.rendered, String.toList_ofList, ofNumber]
  by_cases hlt : x < 0.0
  · have hnan : ¬x.isNaN = true := Bool.eq_false_iff.1 (not_isNaN_of_lt hlt)
    rw [if_pos hlt, if_neg hnan, if_pos hlt, Number.renderedChars_negative hlt]
    have hnumber := Renders.number (Number.reads_rendered (fromZero_neg hlt))
    exact Renders.sign '-' (by simp) hnumber.base
  · rw [if_neg hlt, if_neg hlt]
    by_cases hnan : x.isNaN = true
    · rw [if_pos hnan, Number.renderedChars_nan hnan]
      exact Renders.constant "nan" (by decide)
    · rw [if_neg hnan]
      by_cases hz : x = -0.0
      · rw [if_pos hz, hz, Number.renderedChars_negativeZero]
        exact Renders.number Number.reads_zero
      · rw [if_neg hz]
        have hx : FromZero x := by
          rcases isNaN_or x with h | h | h | h
          · exact absurd h hnan
          · exact absurd h hlt
          · exact absurd h hz
          · exact h
        exact Renders.number (Number.reads_rendered hx)

/-- The text of a tree, with a phrase at the level of its strength. -/
structure Rendered (t : Expr) (text : String) (n : Nat) : Prop where
  render_eq : t.render = .ok text
  strength_eq : t.strength = .ok n
  renders : Renders (.ofStrength n) text.toList t.reread

theorem rendered_number (x : Float) : Rendered (.number x) (Number.rendered x)
    (if x < 0.0 then Sign.strength else atomStrength) :=
  ⟨rfl, rfl, renders_number x⟩

theorem rendered_constant {name : String} (h : isIdentifier name = true) :
    Rendered (.constant name) name atomStrength :=
  ⟨rfl, rfl, Renders.constant name h⟩

theorem rendered_unary {op : String} {a : Expr} {text : String} {n : Nat} (hop : op ∈ ["+", "-"])
    (h : Rendered a text n) :
    Rendered (.unary op a) (op ++ enclose (n < Sign.strength) text) Sign.strength := by
  refine ⟨?_, rfl, ?_⟩
  · simp only [render, h.render_eq, h.strength_eq]
    rfl
  · have hinner : Renders .factor (enclose (n < Sign.strength) text).toList a.reread :=
      Renders.enclose (m := 3) (by norm_num) h.renders
    rw [String.toList_append]
    simp only [List.mem_cons, List.not_mem_nil, or_false] at hop
    rcases hop with rfl | rfl
    · exact Renders.sign '+' (by simp) hinner
    · exact Renders.sign '-' (by simp) hinner

theorem singleton_ne_power {l : Chain} {ch : Char} (hch : ch ∈ l.symbols) :
    String.singleton ch ≠ "^" := by
  cases l <;> simp only [Chain.symbols, List.mem_cons, List.not_mem_nil, or_false] at hch
  · rcases hch with rfl | rfl <;> decide
  · rcases hch with rfl | rfl | rfl <;> decide

theorem strengthOf?_of_mem {l : Chain} {ch : Char} (hch : ch ∈ l.symbols) :
    strengthOf? (String.singleton ch) = some (Level.chain l).rank := by
  cases l <;> simp only [Chain.symbols, List.mem_cons, List.not_mem_nil, or_false] at hch
  · rcases hch with rfl | rfl <;> decide
  · rcases hch with rfl | rfl | rfl <;> decide

theorem rendered_chain (l : Chain) (ch : Char) {a b : Expr} {left right : String} {m n : Nat}
    (hch : ch ∈ l.symbols) (ha : Rendered a left m) (hb : Rendered b right n) :
    Rendered (.binary a (String.singleton ch) b)
      (enclose (m < (Level.chain l).rank) left ++ " " ++ String.singleton ch ++ " " ++
        enclose (n ≤ (Level.chain l).rank) right) (Level.chain l).rank := by
  have hs := strengthOf?_of_mem hch
  refine ⟨?_, ?_, ?_⟩
  · simp only [render, ha.render_eq, ha.strength_eq, hb.render_eq, hb.strength_eq, hs]
    simp only [bind, Except.bind, if_neg (singleton_ne_power hch)]
    rfl
  · simp only [strength, hs]
  · have hleft := ha.renders.enclose (m := (Level.chain l).rank) (by cases l <;> decide)
    have hright := hb.renders.enclose (m := (Level.chain l).rank + 1) (by cases l <;> decide)
    rw [Level.ofStrength_rank] at hleft
    rw [Level.ofStrength_rank_succ] at hright
    simp only [Nat.lt_succ_iff] at hright
    rw [Level.ofStrength_rank, reread]
    simpa using hleft.join hch hright

theorem rendered_power {a b : Expr} {left right : String} {m n : Nat} (ha : Rendered a left m)
    (hb : Rendered b right n) :
    Rendered (.binary a "^" b)
      (enclose (m ≤ BinaryOperator.power.strength) left ++ "^" ++
        enclose (n < Sign.strength) right) BinaryOperator.power.strength := by
  have hs : strengthOf? "^" = some BinaryOperator.power.strength := by decide
  refine ⟨?_, ?_, ?_⟩
  · simp only [render, ha.render_eq, ha.strength_eq, hb.render_eq, hb.strength_eq, hs]
    rfl
  · simp only [strength, hs]
  · have hleft := ha.renders.enclose (m := BinaryOperator.power.strength + 1) le_rfl
    have hright := hb.renders.enclose (m := Sign.strength) (by decide)
    simp only [Nat.lt_succ_iff] at hleft
    change Renders .factor _ _
    rw [reread]
    simpa using hleft.power hright

theorem rendered_call {f : String} {a : Expr} {text : String} {n : Nat}
    (hf : isIdentifier f = true) (h : Rendered a text n) :
    Rendered (.call f a) (f ++ "(" ++ text ++ ")") atomStrength := by
  refine ⟨?_, rfl, ?_⟩
  · simp only [render, h.render_eq]
    rfl
  · change Renders .primary _ _
    rw [reread]
    simpa using Renders.call hf (h.renders.of_le n.zero_le)

theorem exists_rendered {t : Expr} (h : t.WellFormed) : ∃ text n, Rendered t text n := by
  induction t with
  | number x => exact ⟨_, _, rendered_number x⟩
  | constant name => exact ⟨_, _, rendered_constant h⟩
  | unary op a ih =>
    obtain ⟨text, n, ha⟩ := ih h.2
    exact ⟨_, _, rendered_unary h.1 ha⟩
  | binary a op b iha ihb =>
    obtain ⟨hop, ha, hb⟩ := h
    obtain ⟨left, m, ha⟩ := iha ha
    obtain ⟨right, n, hb⟩ := ihb hb
    simp only [List.mem_cons, List.not_mem_nil, or_false] at hop
    rcases hop with rfl | rfl | rfl | rfl | rfl | rfl
    · exact ⟨_, _, rendered_chain .sum '+' (by decide) ha hb⟩
    · exact ⟨_, _, rendered_chain .sum '-' (by decide) ha hb⟩
    · exact ⟨_, _, rendered_chain .product '*' (by decide) ha hb⟩
    · exact ⟨_, _, rendered_chain .product '/' (by decide) ha hb⟩
    · exact ⟨_, _, rendered_chain .product '%' (by decide) ha hb⟩
    · exact ⟨_, _, rendered_power ha hb⟩
  | call f a ih =>
    obtain ⟨text, n, ha⟩ := ih h.2
    exact ⟨_, _, rendered_call h.1 ha⟩

theorem Rendered.parse_eq {t : Expr} {text : String} {n : Nat} (h : Rendered t text n) :
    (⟨.unlimited, true⟩ : Reading).parse text = .ok t.reread := by
  obtain ⟨p, hs, ht⟩ := h.renders.of_le n.zero_le
  exact Reading.parse_unlimited_iff.2 ⟨p, hs, ht⟩

/-! ## Trees that come back -/

theorem ofNumber_of_fromZero {x : Float} (h : FromZero x) : ofNumber x = .number x := by
  rw [ofNumber, h.not_isNaN, if_neg (by simp), if_neg h.not_lt, if_neg h.2]

theorem reread_of_fromZero {t : Expr} (h : t.Numbers FromZero) : t.reread = t := by
  induction t with
  | number x => exact ofNumber_of_fromZero h
  | constant name => rfl
  | unary op a ih => rw [reread, ih h]
  | binary a op b iha ihb => rw [reread, iha h.1, ihb h.2]
  | call f a ih => rw [reread, ih h]

theorem same_self {t : Expr} (h : t.Numbers fun x => x.isNaN = false) : t.same t = true := by
  induction t with
  | number x => exact beq_self h
  | constant name => simp [same]
  | unary op a ih => simp [same, ih h]
  | binary a op b iha ihb => simp [same, iha h.1, ihb h.2]
  | call f a ih => simp [same, ih h]

theorem Numbers.mono {p q : Float → Prop} (hpq : ∀ x, p x → q x) {t : Expr} (h : t.Numbers p) :
    t.Numbers q := by
  induction t with
  | number x => exact hpq x h
  | constant name => trivial
  | unary op a ih => exact ih h
  | binary a op b iha ihb => exact ⟨iha h.1, ihb h.2⟩
  | call f a ih => exact ih h

/-- Reading undoes rendering: a tree of numbers from zero on comes back as it is, and so equal. -/
theorem parse_render (t : Expr) (h : t.WellFormed) (hn : t.Numbers FromZero) :
    ∃ text, t.render = .ok text ∧ (⟨.unlimited, true⟩ : Reading).parse text = .ok t ∧
      t.same t = true := by
  obtain ⟨text, n, hr⟩ := exists_rendered h
  have hparse := hr.parse_eq
  rw [reread_of_fromZero hn] at hparse
  exact ⟨text, hr.render_eq, hparse, same_self (hn.mono fun _ hx => hx.not_isNaN)⟩

/-- Operands are enclosed where they bind less, and an infinity is a literal. -/
theorem parse_render_power :
    (⟨.unlimited, true⟩ : Reading).parse "(2.5 - f(x))^-1e999" =
      .ok (.binary (.binary (.number 2.5) "-" (.call "f" (.constant "x"))) "^"
        (.unary "-" (.number Number.infinity))) := by
  obtain ⟨text, hr, hp, -⟩ := parse_render
    (.binary (.binary (.number 2.5) "-" (.call "f" (.constant "x"))) "^"
      (.unary "-" (.number Number.infinity)))
    (by decide) (by simp only [Numbers, FromZero]; decide +kernel)
  have htext : (.binary (.binary (.number 2.5) "-" (.call "f" (.constant "x"))) "^"
      (.unary "-" (.number Number.infinity)) : Expr).render = .ok "(2.5 - f(x))^-1e999" := by
    decide +kernel
  rw [htext] at hr
  cases hr
  exact hp

/-! ## Values that come back -/

variable (E : Elementary) (c : Context) (b : Bindings)

theorem value_ofNumber {x : Float} (hx : x.isNaN = false) (hz : x ≠ -0.0) :
    (ofNumber x).value E c b = .ok x := by
  rw [ofNumber, hx, if_neg (by simp)]
  by_cases hlt : x < 0.0
  · have hvalue := value_unary E c b .minus (.number (-x))
    rw [Sign.symbol] at hvalue
    rw [if_pos hlt, hvalue]
    simp [value, Except.map, Sign.apply]
  · rw [if_neg hlt, if_neg hz, value]

theorem value_reread {t : Expr} (h : t.Numbers fun x => x.isNaN = false ∧ x ≠ -0.0) :
    t.reread.value E c b = t.value E c b := by
  induction t with
  | number x => exact value_ofNumber E c b h.1 h.2
  | constant name => rfl
  | unary op a ih => simp only [reread, value, ih h]
  | binary a op d iha ihb => simp only [reread, value, iha h.1, ihb h.2]
  | call f a ih => simp only [reread, value, ih h]

/-- Rendering keeps the meaning of every tree of numbers but negative zero: what comes back has the
same value or fails alike under all bindings. -/
theorem value_parse_render (t : Expr) (h : t.WellFormed)
    (hn : t.Numbers fun x => x.isNaN = false ∧ x ≠ -0.0) :
    ∃ text u, t.render = .ok text ∧ (⟨.unlimited, true⟩ : Reading).parse text = .ok u ∧
      ∀ (E : Elementary) (c : Context) (b : Bindings), u.value E c b = t.value E c b := by
  obtain ⟨text, n, hr⟩ := exists_rendered h
  exact ⟨text, t.reread, hr.render_eq, hr.parse_eq, fun E c b => value_reread E c b hn⟩

/-- A negative base is enclosed, so that its sign does not cover the power. -/
theorem value_parse_render_negative :
    ∃ u, (⟨.unlimited, true⟩ : Reading).parse "(-2.5)^(-1e999 - -1)" = .ok u ∧
      ∀ (E : Elementary) (c : Context) (b : Bindings), u.value E c b =
        (.binary (.number (-2.5)) "^" (.binary (.number (-Number.infinity)) "-" (.number (-1.0))) :
          Expr).value E c b := by
  obtain ⟨text, u, hr, hp, hv⟩ := value_parse_render
    (.binary (.number (-2.5)) "^" (.binary (.number (-Number.infinity)) "-" (.number (-1.0))))
    (by decide) (by simp only [Numbers]; decide +kernel)
  have htext : (.binary (.number (-2.5)) "^" (.binary (.number (-Number.infinity)) "-"
      (.number (-1.0))) : Expr).render = .ok "(-2.5)^(-1e999 - -1)" := by decide +kernel
  rw [htext] at hr
  cases hr
  exact ⟨u, hp, hv⟩

end Expr
end Reckoner
