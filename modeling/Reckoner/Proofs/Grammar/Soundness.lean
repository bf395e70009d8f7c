import Reckoner.Proofs.Grammar.Phrase
import Reckoner.Proofs.Grammar.Progress

/-!
# Soundness of the tree builder

What the tree builder takes from a text is a phrase, its result is the tree of the phrase, and the
limit on nesting admits the phrase.
-/
namespace Reckoner

namespace Grammar

/-- A production at work on a phrase. -/
def Level.call {α : Type} : Level → Cursor → Depth → Call α
  | chain l => .chain l
  | factor => .factor
  | primary => .primary

@[simp] theorem call_level {α : Type} (l : Chain) (c : Cursor) (k : Depth) :
    (l.level.call c k : Call α) = l.operand c k := by cases l <;> rfl

theorem Chain.read_eq_none_iff {l : Chain} {ch : Char} : l.read ch = none ↔ ch ∉ l.symbols := by
  cases l with
  | sum =>
    simp only [read, BinaryOperator.ofSumChar?, symbols, List.mem_cons, List.not_mem_nil]
    split <;> simp_all
  | product =>
    simp only [read, BinaryOperator.ofProductChar?, symbols, List.mem_cons, List.not_mem_nil]
    split <;> simp_all

theorem Chain.mem_symbols_of_read {l : Chain} {ch : Char} {op : BinaryOperator}
    (h : l.read ch = some op) : ch ∈ l.symbols := by
  by_contra hn
  rw [read_eq_none_iff.2 hn] at h
  cases h

theorem Chain.symbol_of_read {l : Chain} {ch : Char} {op : BinaryOperator}
    (h : l.read ch = some op) : op.symbol = String.singleton ch := by
  cases l with
  | sum =>
    simp only [read, BinaryOperator.ofSumChar?] at h
    split at h <;> cases h <;> rfl
  | product =>
    simp only [read, BinaryOperator.ofProductChar?] at h
    split at h <;> cases h <;> rfl

theorem Sign.ofChar?_eq_none_iff {ch : Char} : Sign.ofChar? ch = none ↔ ch ∉ ['-', '+'] := by
  simp only [Sign.ofChar?, List.mem_cons, List.not_mem_nil]
  split <;> simp_all

theorem Sign.mem_of_ofChar? {ch : Char} {s : Sign} (h : Sign.ofChar? ch = some s) :
    ch ∈ ['-', '+'] := by
  by_contra hn
  rw [ofChar?_eq_none_iff.2 hn] at h
  cases h

theorem Sign.symbol_of_ofChar? {ch : Char} {s : Sign} (h : Sign.ofChar? ch = some s) :
    s.symbol = String.singleton ch := by
  simp only [Sign.ofChar?] at h
  split at h <;> cases h <;> rfl

theorem exists_blanks_of_next? {β : Type} {read : Char → Option β} {c : Cursor} {b : β}
    (h : next? read c = some b) : ∃ ch bs, read ch = some b ∧ Blanks bs ∧
      c.rest = bs ++ ch :: (c.skipBlanks.drop 1).rest := by
  obtain ⟨ch, hp, hb⟩ := Option.bind_eq_some_iff.1 h
  obtain ⟨bs, hbs, hc⟩ := c.exists_blanks
  exact ⟨ch, bs, hb, hbs, by rw [hc, ← Cursor.rest_eq_of_peek? hp]⟩

variable (n : Nesting)

/-- A phrase stands between two cursors and has the given tree. -/
def Reads (l : Level) (c : Cursor) (k : Depth) (t : Expr) (d : Cursor) : Prop :=
  ∃ (p : Phrase l) (s : List Char), p.tree = t ∧ Spells p.tokens s ∧ c.rest = s ++ d.rest ∧
    p.Admitted n k

/-- What it means that the result of a call is right: the rest of a chain makes every phrase for
what is before it longer. -/
def Sound : Call Expr → Expr → Cursor → Prop
  | .chain l c k, a, d => Reads n (.chain l) c k a d
  | .factor c k, a, d => Reads n .factor c k a d
  | .primary c k, a, d => Reads n .primary c k a d
  | .tail l left c k, a, d => ∀ p : Phrase (.chain l), p.tree = left → p.Admitted n k →
    ∃ (q : Phrase (.chain l)) (us : List Token) (s : List Char), q.tree = a ∧
      q.tokens = p.tokens ++ us ∧ Spells us s ∧ c.rest = s ++ d.rest ∧ q.Admitted n k

variable {n}

theorem sound_operand {l : Chain} {c d : Cursor} {k : Depth} {a : Expr} :
    Sound n (l.operand c k) a d ↔ Reads n l.level c k a d := by cases l <;> rfl

theorem Reads.blanks {l : Level} {c d e : Cursor} {k : Depth} {t : Expr} {bs : List Char}
    (h : Reads n l c k t d) (hb : Blanks bs) (hd : d.rest = bs ++ e.rest) : Reads n l c k t e := by
  obtain ⟨p, s, ht, hs, hc, hf⟩ := h
  refine ⟨p, s ++ bs, ht, ?_, by rw [hc, hd, List.append_assoc], hf⟩
  simpa using hs.append (.blanks hb)

theorem Reads.skip {l : Level} {c d : Cursor} {k : Depth} {t : Expr}
    (h : Reads n l c.skipBlanks k t d) : Reads n l c k t d := by
  obtain ⟨p, s, ht, hs, hc, hf⟩ := h
  obtain ⟨bs, hb, hr⟩ := c.exists_blanks
  exact ⟨p, bs ++ s, ht, hs.blanks_append hb, by rw [hr, hc, List.append_assoc], hf⟩

theorem sound_chain {l : Chain} {c d e : Cursor} {k : Depth} {left a : Expr}
    (hl : Reads n l.level c k left d) (ha : Sound n (.tail l left d k) a e) :
    Reads n (.chain l) c k a e := by
  obtain ⟨p, s, ht, hs, hc, hf⟩ := hl
  obtain ⟨q, us, s', hq, htok, hs', hd, hf'⟩ := ha (.operand p) ht hf
  exact ⟨q, s ++ s', hq, by rw [htok]; exact hs.append hs', by rw [hc, hd, List.append_assoc], hf'⟩

theorem sound_more {l : Chain} {left right a : Expr} {c d e : Cursor} {k : Depth}
    {op : BinaryOperator} (h : next? l.read c = some op)
    (hr : Reads n l.level (c.skipBlanks.drop 1) k right d)
    (ha : Sound n (.tail l (.binary left op.symbol right) d k) a e) :
    Sound n (.tail l left c k) a e := by
  rintro p rfl hp
  obtain ⟨ch, bs, hop, hb, hc⟩ := exists_blanks_of_next? h
  obtain ⟨q, s, rfl, hs, hd, hq⟩ := hr
  obtain ⟨r, us, s', hrt, htok, hs', he, hf⟩ :=
    ha (.join p ⟨ch, Chain.mem_symbols_of_read hop⟩ q)
      (by simp [Phrase.tree, Chain.symbol_of_read hop]) ⟨hp, hq⟩
  refine ⟨r, .symbol ch :: (q.tokens ++ us), bs ++ (ch :: (s ++ s')), hrt, ?_, ?_, ?_, hf⟩
  · rw [htok]
    simp [Phrase.tokens]
  · exact .token hb (hs.append hs')
  · rw [hc, hd, he]
    simp

theorem sound_sign {c d : Cursor} {k : Depth} {s : Sign} {operand : Expr}
    (h : next? Sign.ofChar? c = some s) (hn : n.refuses k.inFactor = false)
    (ho : Reads n .factor (c.skipBlanks.drop 1) k.inFactor operand d) :
    Reads n .factor c k (.unary s.symbol operand) d := by
  obtain ⟨ch, bs, hs, hb, hc⟩ := exists_blanks_of_next? h
  obtain ⟨p, u, rfl, hu, hd, hf⟩ := ho
  refine ⟨.sign ⟨ch, Sign.mem_of_ofChar? hs⟩ p, bs ++ (ch :: u), ?_, .token hb hu, ?_, ?_⟩
  · simp [Phrase.tree, Sign.symbol_of_ofChar? hs]
  · rw [hc, hd]
    simp
  · exact ⟨hn, hf⟩

theorem sound_base {c d e : Cursor} {k : Depth} {a : Expr} (hn : n.refuses k.inFactor = false)
    (h : Reads n .primary c.skipBlanks k.inFactor a d) (he : d.accept (some '^') = (false, e)) :
    Reads n .factor c k a e := by
  obtain ⟨p, s, ht, hs, hc, hf⟩ := h.skip
  have hread : Reads n .factor c k a d :=
    ⟨.base p, s, ht, hs, hc, ⟨hn, hf⟩⟩
  obtain ⟨bs, hb, hd⟩ := d.exists_blanks
  obtain ⟨rfl, -⟩ := Cursor.accept_false he
  exact hread.blanks hb hd

theorem sound_power {c d e f : Cursor} {k : Depth} {base exponent : Expr}
    (hn : n.refuses k.inFactor = false) (hb : Reads n .primary c.skipBlanks k.inFactor base d)
    (ha : d.accept (some '^') = (true, e)) (he : Reads n .factor e k.inFactor exponent f) :
    Reads n .factor c k (.binary base "^" exponent) f := by
  obtain ⟨p, s, rfl, hs, hc, hf⟩ := hb.skip
  obtain ⟨bs, hbs, hd⟩ := Cursor.accept_true ha
  obtain ⟨q, u, rfl, hu, hr, hg⟩ := he
  refine ⟨.power p q, s ++ (bs ++ ('^' :: u)), rfl, hs.append (.token hbs hu), ?_, ?_⟩
  · rw [hc, hd, hr]
    simp
  · exact ⟨hn, hf, hg⟩

theorem sound_group {c d e : Cursor} {k : Depth} {a : Expr} (hp : c.peek? = some '(')
    (h : Reads n .expression (c.drop 1) k.inGroup a d) (ha : d.accept (some ')') = (true, e)) :
    Reads n .primary c k a e := by
  obtain ⟨p, s, rfl, hs, hc, hf⟩ := h
  obtain ⟨bs, hb, hd⟩ := Cursor.accept_true ha
  refine ⟨.group p, '(' :: (s ++ (bs ++ [')'])), rfl, ?_, ?_, hf⟩
  · exact .token .nil (hs.append (.one hb (.symbol ')')))
  · rw [Cursor.rest_eq_of_peek? hp, hc, hd]
    simp

theorem sound_constant {c d e : Cursor} {k : Depth} {name : String}
    (hi : c.scanIdentifier = some (name, d)) (ha : d.accept (some '(') = (false, e)) :
    Reads n .primary c k (.constant name) e := by
  obtain ⟨hn, hc⟩ := Cursor.scanIdentifier_some hi
  have hread : Reads n .primary c k (.constant name) d :=
    ⟨.constant ⟨name, hn⟩, name.toList, rfl, .one .nil _, hc, trivial⟩
  obtain ⟨bs, hb, hd⟩ := d.exists_blanks
  obtain ⟨rfl, -⟩ := Cursor.accept_false ha
  exact hread.blanks hb hd

theorem sound_call {c d e f g : Cursor} {k : Depth} {name : String} {argument : Expr}
    (hi : c.scanIdentifier = some (name, d)) (ha : d.accept (some '(') = (true, e))
    (h : Reads n .expression e k.inGroup argument f) (hb : f.accept (some ')') = (true, g)) :
    Reads n .primary c k (.call name argument) g := by
  obtain ⟨hn, hc⟩ := Cursor.scanIdentifier_some hi
  obtain ⟨bs, hbs, hd⟩ := Cursor.accept_true ha
  obtain ⟨p, s, rfl, hs, he, hf⟩ := h
  obtain ⟨bs', hbs', hr⟩ := Cursor.accept_true hb
  refine ⟨.call ⟨name, hn⟩ p, name.toList ++ (bs ++ ('(' :: (s ++ (bs' ++ [')'])))), rfl, ?_,
    ?_, hf⟩
  · exact .token .nil (.token hbs (hs.append (.one hbs' (.symbol ')'))))
  · rw [hc, hd, he, hr]
    simp

theorem sound_number {c d : Cursor} {k : Depth} {x : Float} (hs : c.scanNumber = (.ok x, d)) :
    Reads n .primary c k (.number x) d := by
  obtain ⟨l, hc, rfl⟩ := Cursor.scanNumber_ok hs
  exact Reads.skip ⟨.number l, l.chars, rfl, .one .nil _, hc, trivial⟩

theorem Parses.sound {q : Call Expr} {a : Expr} {d : Cursor}
    (h : Parses Expr.productions n q a d) : Sound n q a d := by
  induction h with
  | chain _ _ ih₁ ih₂ => exact sound_chain (sound_operand.1 ih₁) ih₂
  | @last l left c k _ =>
    intro p hp hf
    obtain ⟨bs, hb, hc⟩ := c.exists_blanks
    exact ⟨p, [], bs, hp, (List.append_nil _).symm, .blanks hb, hc, hf⟩
  | more h _ hb _ ih₁ ih₂ =>
    cases hb
    exact sound_more h (sound_operand.1 ih₁) ih₂
  | sign h hn _ hu ih =>
    cases hu
    exact sound_sign h hn ih
  | base _ _ hn _ ha ih => exact sound_base hn ih ha
  | power _ _ hn _ ha _ hb ih₁ ih₂ =>
    cases hb
    exact sound_power hn ih₁ ha ih₂
  | group hp _ ha ih => exact sound_group hp ih ha
  | constant hi ha hc =>
    cases hc
    exact sound_constant hi ha
  | call hi ha _ hb hc ih =>
    cases hc
    exact sound_call hi ha ih hb
  | number _ hs => exact sound_number hs

end Grammar
end Reckoner
