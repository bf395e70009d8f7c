import Reckoner.Proofs.Rendering

/-!
# Parentheses of rendered trees

Beside every phrase there is the one that the text of its tree spells. Wherever the first can stand
the second has no more parentheses and is admitted under every limit on nesting that admits the
first. So a text is never nested deeper than one that it was rendered from, and none of its
parentheses can be left out.
-/
namespace Reckoner

open Double Grammar

namespace Grammar

namespace Phrase

variable {l m : Level}

/-- The numbers of a text are from zero on. -/
theorem fromZero_tree (p : Phrase l) : p.tree.Numbers FromZero := by
  induction p with
  | operand _ ih => exact ih
  | join _ _ _ ih₁ ih₂ => exact ⟨ih₁, ih₂⟩
  | sign _ _ ih => exact ih
  | base _ ih => exact ih
  | power _ _ ih₁ ih₂ => exact ⟨ih₁, ih₂⟩
  | group _ ih => exact ih
  | call _ _ ih => exact ih
  | constant _ => trivial
  | number l => exact l.fromZero_value

@[simp] theorem place_self (p : Phrase l) : p.place l = p := by
  rcases l with (_ | _) | _ | _ <;> rfl

/-- The text of a tree with the phrase `p` that it spells, beside a phrase `q` with that tree. The
tree binds less than a level needs when `p` does. -/
structure Tidied (q : Phrase l) (text : String) (n : Nat) (p : Phrase m) : Prop where
  rendered : Expr.Rendered q.tree text n
  lt_rank_iff : ∀ k : Level, n < k.rank ↔ m.rank < k.rank
  spells : Spells p.tokens text.toList
  tree_eq : p.tree = q.tree
  spares : (p.place l).Spares q

namespace Tidied

variable {text : String} {n : Nat} {q : Phrase l} {p : Phrase m}

/-- A placed phrase is spelled by the enclosed text. -/
theorem spells_place (h : Tidied q text n p) (k : Level) :
    Spells (p.place k).tokens (Expr.enclose (n < k.rank) text).toList := by
  rw [tokens_place]
  by_cases hlt : m.rank < k.rank
  · have htext : (Expr.enclose (n < k.rank) text).toList = '(' :: (text.toList ++ [')']) := by
      simp [Expr.enclose, h.lt_rank_iff, hlt]
    rw [if_pos hlt, htext]
    exact h.spells.group
  · rw [if_neg hlt, Expr.enclose, if_neg (by simpa [h.lt_rank_iff] using hlt)]
    exact h.spells

/-- No parentheses are needed where any expression may stand. -/
theorem spells_expression (h : Tidied q text n p) :
    Spells (p.place .expression).tokens text.toList := by
  have hplace := h.spells_place .expression
  have hlt : ¬n < Level.expression.rank := by
    rw [h.lt_rank_iff]
    rcases m with (_ | _) | _ | _ <;> decide
  rwa [Expr.enclose, if_neg (by simpa using hlt)] at hplace

/-- The same text beside another phrase with the tree. -/
theorem beside {k : Level} {q' : Phrase k} (h : Tidied q text n p) (ht : q'.tree = q.tree)
    (hs : (p.place k).Spares q') : Tidied q' text n p where
  rendered := ht ▸ h.rendered
  lt_rank_iff := h.lt_rank_iff
  spells := h.spells
  tree_eq := h.tree_eq.trans ht.symm
  spares := hs

theorem operand {c : Chain} {q : Phrase c.level} (h : Tidied q text n p) :
    Tidied (.operand q) text n p :=
  h.beside rfl ((place_chain_spares p c).trans (h.spares.trans (.self_operand c q)))

theorem base {q : Phrase .primary} (h : Tidied q text n p) : Tidied (.base q) text n p :=
  h.beside rfl ((place_factor_spares p).trans h.spares.base)

theorem group {q : Phrase .expression} (h : Tidied q text n p) : Tidied (.group q) text n p :=
  h.beside rfl ((place_primary_spares p).trans h.spares.group)

theorem join {c : Chain} {q₁ : Phrase (.chain c)} {q₂ : Phrase c.level} {m₁ m₂ : Level}
    {p₁ : Phrase m₁} {p₂ : Phrase m₂} {left right : String} {n₁ n₂ : Nat}
    (op : { ch // ch ∈ c.symbols }) (h₁ : Tidied q₁ left n₁ p₁) (h₂ : Tidied q₂ right n₂ p₂) :
    ∃ text, Tidied (.join q₁ op q₂) text (Level.chain c).rank
      (.join (p₁.place (.chain c)) op (p₂.place c.level)) := by
  refine ⟨_, Expr.rendered_chain c op op.2 h₁.rendered h₂.rendered, fun _ => .rfl, ?_, ?_, ?_⟩
  · have hright := h₂.spells_place c.level
    rw [Level.rank_level] at hright
    simp only [Nat.lt_succ_iff] at hright
    simpa [tokens] using (h₁.spells_place (.chain c)).join op hright
  · simp [tree, h₁.tree_eq, h₂.tree_eq]
  · rw [place_self]
    exact h₁.spares.join op h₂.spares

theorem sign {q : Phrase .factor} (op : { ch // ch ∈ ['-', '+'] }) (h : Tidied q text n p) :
    ∃ text, Tidied (.sign op q) text Sign.strength (.sign op (p.place .factor)) := by
  have hop : String.singleton op ∈ ["+", "-"] := by
    have hch := op.2
    simp only [List.mem_cons, List.not_mem_nil, or_false] at hch
    rcases hch with hch | hch <;> rw [hch] <;> decide
  have hinner : Spells _ (Expr.enclose (n < Sign.strength) text).toList := h.spells_place .factor
  refine ⟨_, Expr.rendered_unary hop h.rendered, fun _ => .rfl, ?_, ?_, ?_⟩
  · simpa [tokens, Token.chars] using Spells.token (t := .symbol op) .nil hinner
  · simp [tree, h.tree_eq]
  · exact h.spares.sign op

theorem power {q₁ : Phrase .primary} {q₂ : Phrase .factor} {m₁ m₂ : Level}
    {p₁ : Phrase m₁} {p₂ : Phrase m₂} {left right : String} {n₁ n₂ : Nat}
    (h₁ : Tidied q₁ left n₁ p₁) (h₂ : Tidied q₂ right n₂ p₂) :
    ∃ text, Tidied (.power q₁ q₂) text BinaryOperator.power.strength
      (.power (p₁.place .primary) (p₂.place .factor)) := by
  have hleft : Spells _ (Expr.enclose (n₁ < BinaryOperator.power.strength + 1) left).toList :=
    h₁.spells_place .primary
  have hright : Spells _ (Expr.enclose (n₂ < Sign.strength) right).toList := h₂.spells_place .factor
  simp only [Nat.lt_succ_iff] at hleft
  refine ⟨_, Expr.rendered_power h₁.rendered h₂.rendered, fun k => ?_, ?_, ?_, ?_⟩
  · rcases k with (_ | _) | _ | _ <;> decide
  · simpa [tokens, Token.chars] using hleft.append (.token (t := .symbol '^') .nil hright)
  · simp [tree, h₁.tree_eq, h₂.tree_eq]
  · exact h₁.spares.power h₂.spares

theorem call {q : Phrase .expression} (f : Identifier) (h : Tidied q text n p) :
    ∃ text, Tidied (.call f q) text Expr.atomStrength (.call f (p.place .expression)) := by
  refine ⟨_, Expr.rendered_call f.2 h.rendered, fun _ => .rfl, ?_, ?_, ?_⟩
  · simpa [tokens, Token.chars] using
      Spells.token (t := .name f) .nil h.spells_expression.group
  · simp [tree, h.tree_eq]
  · exact h.spares.call f

end Tidied

/-- The text of the tree of a phrase, in every place. -/
theorem exists_tidied (q : Phrase l) :
    ∃ text n, ∃ (m : Level) (p : Phrase m), Tidied q text n p := by
  -- Not on the tree: a group has the tree of what it encloses, and only the phrase knows of it.
  induction q with
  | operand q ih =>
    obtain ⟨text, n, m, p, h⟩ := ih
    exact ⟨text, n, m, p, h.operand⟩
  | base q ih =>
    obtain ⟨text, n, m, p, h⟩ := ih
    exact ⟨text, n, m, p, h.base⟩
  | group q ih =>
    obtain ⟨text, n, m, p, h⟩ := ih
    exact ⟨text, n, m, p, h.group⟩
  | join left op right ih₁ ih₂ =>
    obtain ⟨_, _, _, _, h₁⟩ := ih₁
    obtain ⟨_, _, _, _, h₂⟩ := ih₂
    obtain ⟨text, h⟩ := Tidied.join op h₁ h₂
    exact ⟨text, _, _, _, h⟩
  | sign op q ih =>
    obtain ⟨_, _, _, _, h⟩ := ih
    obtain ⟨text, h⟩ := h.sign op
    exact ⟨text, _, _, _, h⟩
  | power b e ih₁ ih₂ =>
    obtain ⟨_, _, _, _, h₁⟩ := ih₁
    obtain ⟨_, _, _, _, h₂⟩ := ih₂
    obtain ⟨text, h⟩ := h₁.power h₂
    exact ⟨text, _, _, _, h⟩
  | call f q ih =>
    obtain ⟨_, _, _, _, h⟩ := ih
    obtain ⟨text, h⟩ := h.call f
    exact ⟨text, _, _, _, h⟩
  | constant name =>
    exact ⟨_, _, _, .constant name, Expr.rendered_constant name.2, fun _ => .rfl,
      .one .nil _, rfl, .refl _⟩
  | number l =>
    obtain ⟨l', hl, hv⟩ := Number.reads_rendered l.fromZero_value
    have hr := Expr.rendered_number l.value
    rw [if_neg l.fromZero_value.not_lt] at hr
    refine ⟨_, _, _, .number l', hr, fun _ => .rfl, ?_, congrArg Expr.number hv, ?_⟩
    · rw [Number.rendered, String.toList_ofList, ← hl]
      exact .one .nil (.number l')
    · exact ⟨le_rfl, fun _ _ _ => trivial⟩

end Phrase

/-! ## How many parentheses a text has -/

theorem count_identifier (name : Identifier) : name.1.toList.count '(' = 0 := by
  obtain ⟨name, h⟩ := name
  refine List.count_eq_zero.2 fun hmem => ?_
  unfold isIdentifier at h
  split at h
  · cases h
  · rename_i ch cs hname
    obtain ⟨hch, hcs⟩ := (Bool.and_eq_true _ _).mp h
    rw [hname, List.mem_cons] at hmem
    rcases hmem with rfl | hmem
    · exact absurd hch (by decide)
    · exact absurd (List.all_eq_true.1 hcs _ hmem) (by decide)

theorem count_literal (l : Literal) : l.chars.count '(' = 0 :=
  List.count_eq_zero.2 fun hmem => absurd (l.isPart_of_mem _ hmem) (by decide)

theorem Phrase.count_tokens {l : Level} (p : Phrase l) :
    (p.tokens.flatMap Token.chars).count '(' = p.opens := by
  induction p with
  | @join c left op right ih₁ ih₂ =>
    have hop : ¬op.1 = '(' := by
      intro h
      have := h ▸ op.2
      cases c <;> simp [Chain.symbols] at this
    simp [tokens, opens, Token.chars, ih₁, ih₂, hop]
  | sign op _ ih =>
    have hop : ¬op.1 = '(' := by
      intro h
      have := h ▸ op.2
      simp at this
    simp [tokens, opens, Token.chars, ih, hop]
  | operand _ ih => exact ih
  | base _ ih => exact ih
  | power _ _ ih₁ ih₂ => simp [tokens, opens, Token.chars, ih₁, ih₂]
  | group _ ih => simp [tokens, opens, Token.chars, ih]
  | call f _ ih => simp [tokens, opens, Token.chars, ih, count_identifier]
  | constant name => simp [tokens, opens, Token.chars, count_identifier]
  | number l => simp [tokens, opens, Token.chars, count_literal]

theorem Spells.count_eq {ts : List Token} {cs : List Char} (h : Spells ts cs) :
    cs.count '(' = (ts.flatMap Token.chars).count '(' := by
  have hblank {bs : List Char} (hb : Blanks bs) : bs.count '(' = 0 :=
    List.count_eq_zero.2 fun hmem => absurd (hb _ hmem) (by decide)
  induction h with
  | blanks hb => simpa using hblank hb
  | token hb _ ih => simp [hblank hb, ih]

end Grammar

/-! ## The fewest parentheses and the least nesting -/

namespace Expr

/-- Trees that compare equal have the same text, since both zeros are written alike. -/
theorem render_eq_of_same {t u : Expr} (hu : u.Numbers FromZero) (h : t.same u = true) :
    t.render = u.render ∧ t.strength = u.strength := by
  induction u generalizing t with
  | number x =>
    cases t <;> simp only [same, Bool.false_eq_true] at h
    rcases eq_or_of_beq hu h with rfl | ⟨rfl, rfl⟩
    · exact ⟨rfl, rfl⟩
    · exact ⟨by decide +kernel, by decide +kernel⟩
  | constant name =>
    cases t <;> simp_all [same]
  | unary op a ih =>
    cases t <;> simp only [same, Bool.and_eq_true, beq_iff_eq, Bool.false_eq_true] at h
    obtain ⟨rfl, h⟩ := h
    obtain ⟨hr, hs⟩ := ih hu h
    exact ⟨by simp only [render, hr, hs], rfl⟩
  | binary a op b iha ihb =>
    cases t <;> simp only [same, Bool.and_eq_true, beq_iff_eq, Bool.false_eq_true] at h
    obtain ⟨⟨ha, rfl⟩, hb⟩ := h
    obtain ⟨har, has⟩ := iha hu.1 ha
    obtain ⟨hbr, hbs⟩ := ihb hu.2 hb
    exact ⟨by simp only [render, har, has, hbr, hbs], rfl⟩
  | call f a ih =>
    cases t <;> simp only [same, Bool.and_eq_true, beq_iff_eq, Bool.false_eq_true] at h
    obtain ⟨rfl, h⟩ := h
    exact ⟨by simp only [render, (ih hu h).1], rfl⟩

/-- A text has no more parentheses than any phrase with an equal tree. -/
theorem count_render_le {t : Expr} {text : String} (h : t.render = .ok text)
    {q : Phrase .expression} (hq : t.same q.tree = true) : text.toList.count '(' ≤ q.opens := by
  obtain ⟨own, n, m, p, hp⟩ := q.exists_tidied
  obtain rfl : own = text := by
    have hr := (render_eq_of_same q.fromZero_tree hq).1
    rw [h, hp.rendered.render_eq] at hr
    cases hr
    rfl
  rw [hp.spells_expression.count_eq, Phrase.count_tokens]
  exact hp.spares.opens_le

theorem count_render_le_of_parse {t u : Expr} {text s : String} {r : Reading}
    (h : t.render = .ok text) (hs : r.parse s = .ok u) (hu : t.same u = true) :
    text.toList.count '(' ≤ s.toList.count '(' := by
  obtain ⟨q, cs, rest, hq, rfl, -, hsplit, -⟩ := Reading.exists_phrase hs
  calc text.toList.count '(' ≤ q.opens := count_render_le h hu
    _ = cs.count '(' := by rw [hq.count_eq, q.count_tokens]
    _ ≤ s.toList.count '(' := by rw [hsplit, List.count_append]; exact Nat.le_add_right _ _

/-- A rendered text has the fewest parentheses: no text that is read as an equal tree has less of
them, so whichever pair is left out, what is left is refused or read as another tree. -/
theorem render_fewest_parentheses (t : Expr) (h : t.WellFormed) :
    ∃ text, t.render = .ok text ∧
      (∀ (r : Reading) s u, r.parse s = .ok u → t.same u = true →
        text.toList.count '(' ≤ s.toList.count '(') ∧
      ∀ before inside after, text.toList = before ++ '(' :: (inside ++ ')' :: after) →
        ∀ (r : Reading) u, r.parse (String.ofList (before ++ (inside ++ after))) = .ok u →
          t.same u = false := by
  obtain ⟨text, n, hr⟩ := exists_rendered h
  refine ⟨text, hr.render_eq, fun r s u hs hu => count_render_le_of_parse hr.render_eq hs hu,
    fun before inside after htext r u hu => ?_⟩
  by_contra hsame
  have hle := count_render_le_of_parse hr.render_eq hu (by simpa using hsame)
  rw [htext, String.toList_ofList] at hle
  have hcount : (before ++ '(' :: (inside ++ ')' :: after)).count '(' =
      (before ++ (inside ++ after)).count '(' + 1 := by
    simp [Nat.add_assoc]
  omega

/-- Without the pair around the left operand of a product, the product binds its right end only. -/
theorem render_fewest_parentheses_product :
    ∃ u, (⟨.unlimited, true⟩ : Reading).parse "a - b * c" = .ok u ∧
      (.binary (.binary (.constant "a") "-" (.constant "b")) "*" (.constant "c") : Expr).same u =
        false := by
  obtain ⟨text, hr, -, hpair⟩ := render_fewest_parentheses
    (.binary (.binary (.constant "a") "-" (.constant "b")) "*" (.constant "c")) (by decide)
  have htext : (.binary (.binary (.constant "a") "-" (.constant "b")) "*" (.constant "c") :
      Expr).render = .ok "(a - b) * c" := by decide
  rw [htext] at hr
  cases hr
  obtain ⟨other, n, ho⟩ := exists_rendered
    (t := .binary (.constant "a") "-" (.binary (.constant "b") "*" (.constant "c"))) (by decide)
  have hother : (.binary (.constant "a") "-" (.binary (.constant "b") "*" (.constant "c")) :
      Expr).render = .ok "a - b * c" := by decide
  cases hother.symm.trans ho.render_eq
  exact ⟨_, ho.parse_eq, hpair [] "a - b".toList " * c".toList (by decide) _ _ ho.parse_eq⟩

end Expr

/-- A tree that was read is read again from its own text under the same limit on nesting. -/
theorem Reading.parse_render_of_parse {r : Reading} {text : String} {t : Expr}
    (h : r.parse text = .ok t) :
    ∃ own, t.render = .ok own ∧ (⟨r.nesting, true⟩ : Reading).parse own = .ok t ∧
      t.same t = true := by
  obtain ⟨q, -, -, -, rfl, hadmitted, -, -⟩ := exists_phrase h
  obtain ⟨own, n, m, p, hp⟩ := q.exists_tidied
  have hparse : (⟨r.nesting, true⟩ : Reading).parse own = .ok q.tree :=
    parse_eq_ok_iff_phrase.2 ⟨p.place .expression, hp.spells_expression,
      (p.tree_place _).trans hp.tree_eq, hp.spares.admitted _ _ hadmitted⟩
  exact ⟨own, hp.rendered.render_eq, hparse,
    Expr.same_self (q.fromZero_tree.mono fun _ hx => hx.not_isNaN)⟩

/-- What was read of a text with parentheses in it is read again without them. -/
theorem Reading.parse_render_of_parse_group :
    (⟨⟨3, none⟩, true⟩ : Reading).parse "-(a)" = .ok (.unary "-" (.constant "a")) ∧
      (⟨⟨3, none⟩, true⟩ : Reading).parse "-a" = .ok (.unary "-" (.constant "a")) := by
  have ha : isIdentifier "a" = true := by decide
  have hminus : '-' ∈ ['-', '+'] := by decide
  have hname : Spells [.name ⟨"a", ha⟩] ['a'] := by
    simpa [Token.chars] using Spells.one .nil (.name ⟨"a", ha⟩)
  have hspells : Spells [.symbol '-', .symbol '(', .name ⟨"a", ha⟩, .symbol ')'] "-(a)".toList :=
    .token .nil hname.group
  have h : (⟨⟨3, none⟩, true⟩ : Reading).parse "-(a)" = .ok (.unary "-" (.constant "a")) :=
    parse_eq_ok_iff_phrase.2 ⟨(Phrase.sign ⟨'-', hminus⟩
      (.base (.group (Phrase.base (.constant ⟨"a", ha⟩)).expression))).expression,
      hspells, rfl, rfl, rfl, rfl, trivial⟩
  obtain ⟨own, hr, hp, -⟩ := parse_render_of_parse h
  have htext : (.unary "-" (.constant "a") : Expr).render = .ok "-a" := by decide
  rw [htext] at hr
  cases hr
  exact ⟨h, hp⟩

end Reckoner
