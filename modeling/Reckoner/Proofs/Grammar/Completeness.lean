import Reckoner.Proofs.Grammar.Soundness

/-!
# Completeness of the tree builder

Every phrase that a limit on nesting admits is read, provided that what follows it does not go on
with it. Joined operands are read from the left, so a chain is read for any rest of it.
-/
namespace Reckoner

namespace Cursor

theorem skipBlanks_of_rest {c : Cursor} {bs cs : List Char} {ch : Char} (hb : Blanks bs)
    (h : c.rest = bs ++ ch :: cs) (hch : isBlank ch = false) : c.skipBlanks.rest = ch :: cs := by
  rw [skipBlanks_rest, h, hb.dropWhile]
  simp [hch]

@[simp] theorem skipBlanks_skipBlanks (c : Cursor) : c.skipBlanks.skipBlanks = c.skipBlanks := by
  have h : c.skipBlanks.rest.takeWhile isBlank = [] := by
    rw [skipBlanks_rest]
    exact (stops_dropWhile _ _).takeWhile
  rw [show c.skipBlanks.skipBlanks = c.skipBlanks.drop (c.skipBlanks.rest.takeWhile isBlank).length
    from rfl, h]
  rfl

end Cursor

namespace Grammar

/-- The symbols that go on with what is before them, also after blanks. -/
def Level.continues : Level → List Char
  | chain .sum => ['(', '^', '*', '/', '%', '+', '-']
  | chain .product => ['(', '^', '*', '/', '%']
  | factor => ['(', '^']
  | primary => ['(']

/-- Text that does not go on with a phrase before it. -/
structure Ends (l : Level) (r : List Char) : Prop where
  joined : Stops isJoined r
  symbol : Stops (· ∈ l.continues) (r.dropWhile isBlank)

theorem Ends.mono {l l' : Level} {r : List Char} (h : Ends l r)
    (hl : l'.continues ⊆ l.continues := by decide) : Ends l' r :=
  ⟨h.joined, h.symbol.mono fun _ hc => by simpa using hl (by simpa using hc)⟩

/-- The level up to which a phrase is read from the left before the end of it is found. -/
def Level.inner : Level → Level
  | chain l => l.level
  | factor => factor
  | primary => primary

theorem stops_joined_append {bs r : List Char} (hb : Blanks bs) (h : Stops isJoined r) :
    Stops isJoined (bs ++ r) := by
  cases bs with
  | nil => exact h
  | cons b bs =>
    have := not_isJoined_of_isBlank (hb b (by simp))
    simpa [Stops] using this

theorem ends_nil (l : Level) : Ends l [] := ⟨by simp [Stops], by simp [Stops]⟩

theorem ends_symbol {l : Level} {bs r : List Char} {ch : Char} (hb : Blanks bs)
    (hch : (isJoined ch || isBlank ch || ch ∈ l.continues) = false) :
    Ends l (bs ++ ch :: r) := by
  simp only [Bool.or_eq_false_iff] at hch
  refine ⟨stops_joined_append hb (by simpa [Stops] using hch.1.1), ?_⟩
  rw [hb.dropWhile, List.dropWhile_cons_of_neg (by simp [hch.1.2])]
  simpa [Stops] using hch.2

variable (n : Nesting)

/-- That a phrase has been read, up to the cursor `d`. A chain has been if reading on from there
gives what the whole chain does. -/
def Level.reads : Level → Cursor → Depth → Expr → Cursor → Prop
  | chain l, c, k, t, d => ∀ a e, Parses Expr.productions n (.tail l t d k) a e →
    Parses Expr.productions n (.chain l c k) a e
  | factor, c, k, t, d => Parses Expr.productions n (.factor c k) t d
  | primary, c, k, t, d => Parses Expr.productions n (.primary c.skipBlanks k) t d

/-- Every text that spells a phrase is read, with whatever does not go on with it. -/
def Complete (l : Level) (p : Phrase l) : Prop :=
  ∀ (c : Cursor) (k : Depth) (s r : List Char), Spells p.tokens s → c.rest = s ++ r →
    Ends l.inner r → p.Admitted n k →
    ∃ d : Cursor, d.skipBlanks.rest = r.dropWhile isBlank ∧ l.reads n c k p.tree d

variable {n}

theorem next?_eq_none {β : Type} {read : Char → Option β} {c : Cursor}
    (h : Stops (fun ch => (read ch).isSome) c.skipBlanks.rest) : next? read c = none := by
  refine Option.bind_eq_none_iff.2 fun ch hch => ?_
  simpa using h ch hch

/-- A chain ends where no operand follows. -/
theorem Ends.next? {l : Chain} {r : List Char} {d : Cursor} (h : Ends (.chain l) r)
    (hd : d.skipBlanks.rest = r.dropWhile isBlank) : next? l.read d = none := by
  refine next?_eq_none ?_
  rw [hd]
  refine h.symbol.mono fun ch hch => ?_
  obtain ⟨op, hop⟩ := Option.isSome_iff_exists.1 hch
  have := Chain.mem_symbols_of_read hop
  cases l <;> simp [Chain.symbols, Level.continues] at this ⊢ <;> tauto

theorem parses_chain {l : Chain} {c d : Cursor} {k : Depth} {t : Expr} {r : List Char}
    (h : (Level.chain l).reads n c k t d) (hd : d.skipBlanks.rest = r.dropWhile isBlank)
    (hr : Ends (.chain l) r) :
    Parses Expr.productions n (.chain l c k) t d.skipBlanks := h _ _ (.last (hr.next? hd))

theorem Complete.operand {l : Chain} {p : Phrase l.level} (h : Complete n l.level p) {c : Cursor}
    {k : Depth} {s r : List Char} (hs : Spells p.tokens s) (hc : c.rest = s ++ r)
    (hr : Ends l.level r) (hf : p.Admitted n k) :
    ∃ d : Cursor, d.skipBlanks.rest = r.dropWhile isBlank ∧
      Parses Expr.productions n (l.operand c k) p.tree d := by
  cases l with
  | sum =>
    obtain ⟨d, hd, hp⟩ := h c k s r hs hc hr.mono hf
    exact ⟨d.skipBlanks, by simpa using hd, parses_chain hp hd hr⟩
  | product => exact h c k s r hs hc hr hf

theorem complete_operand {l : Chain} {p : Phrase l.level} (h : Complete n l.level p) :
    Complete n (.chain l) (.operand p) := by
  intro c k s r hs hc hr hf
  obtain ⟨d, hd, hp⟩ := h.operand hs hc hr hf
  exact ⟨d, hd, fun a e htail => .chain hp htail⟩

theorem not_continues_of_mem_symbols {l : Chain} {ch : Char} (h : ch ∈ l.symbols) :
    (isJoined ch || isBlank ch || ch ∈ l.level.continues) = false := by
  cases l <;> simp only [Chain.symbols, List.mem_cons, List.not_mem_nil, or_false] at h
  · rcases h with rfl | rfl <;> decide
  · rcases h with rfl | rfl | rfl <;> decide

theorem exists_next? {l : Chain} {ch : Char} {c : Cursor} {r : List Char} (h : ch ∈ l.symbols)
    (hc : c.skipBlanks.rest = ch :: r) :
    ∃ op, next? l.read c = some op ∧ op.symbol = String.singleton ch := by
  cases hop : l.read ch with
  | none => exact absurd h (Chain.read_eq_none_iff.1 hop)
  | some op => exact ⟨op, by simp [Grammar.next?, Cursor.peek?, hc, hop], Chain.symbol_of_read hop⟩

theorem complete_join {l : Chain} {left : Phrase (.chain l)} {op : { ch // ch ∈ l.symbols }}
    {right : Phrase l.level} (hl : Complete n (.chain l) left) (hr : Complete n l.level right) :
    Complete n (.chain l) (.join left op right) := by
  obtain ⟨ch, hch⟩ := op
  intro c k s r hs hc hend hf
  obtain ⟨hfl, hfr⟩ := hf
  obtain ⟨s₁, s₂, h₁, h₂, rfl⟩ := Spells.append_iff.1 hs
  obtain ⟨bs, s₃, hb, h₃, rfl⟩ := Spells.cons_iff.1 h₂
  have hop := not_continues_of_mem_symbols hch
  obtain ⟨d, hd, hread⟩ := hl c k s₁ (bs ++ ch :: (s₃ ++ r)) h₁ (by simp [hc, Token.chars])
    (ends_symbol hb hop) hfl
  have hblank : isBlank ch = false := by
    simp only [Bool.or_eq_false_iff] at hop
    exact hop.1.2
  rw [hb.dropWhile, List.dropWhile_cons_of_neg (by simp [hblank])] at hd
  obtain ⟨o, ho, hsym⟩ := exists_next? hch hd
  obtain ⟨e, he, hp⟩ := hr.operand (c := d.skipBlanks.drop 1) h₃ (by simp [hd]) hend hfr
  refine ⟨e, he, fun a f htail => hread a f (.more ho hp rfl ?_)⟩
  rw [hsym]
  exact htail

theorem complete_sign {op : { ch // ch ∈ ['-', '+'] }} {p : Phrase .factor}
    (h : Complete n .factor p) : Complete n .factor (.sign op p) := by
  obtain ⟨ch, hch⟩ := op
  intro c k s r hs hc hend hf
  obtain ⟨hopen, hfp⟩ := hf
  obtain ⟨bs, s, hb, h₁, rfl⟩ := Spells.cons_iff.1 hs
  have hblank : isBlank ch = false := by
    simp only [List.mem_cons, List.not_mem_nil, or_false] at hch
    rcases hch with rfl | rfl <;> rfl
  have hrest : c.skipBlanks.rest = ch :: (s ++ r) :=
    Cursor.skipBlanks_of_rest hb (by simp [hc, Token.chars]) hblank
  obtain ⟨d, hd, hp⟩ := h (c.skipBlanks.drop 1) k.inFactor s r h₁ (by simp [hrest]) hend hfp
  cases hsign : Sign.ofChar? ch with
  | none => exact absurd hch (Sign.ofChar?_eq_none_iff.1 hsign)
  | some o =>
    have hnext : next? Sign.ofChar? c = some o := by simp [next?, Cursor.peek?, hrest, hsign]
    refine ⟨d, hd, .sign hnext hopen hp ?_⟩
    simp [Expr.productions, Phrase.tree, Sign.symbol_of_ofChar? hsign]

/-- A character that begins a name, a literal or a group. -/
def isOpening (ch : Char) : Bool := ch.isAlpha || isMantissaChar ch || ch = '('

theorem isBlank_of_isOpening {ch : Char} (h : isOpening ch = true) : isBlank ch = false := by
  by_contra hb
  simp only [isBlank, Bool.not_eq_false, Bool.or_eq_true, decide_eq_true_eq] at hb
  rcases hb with rfl | rfl <;> exact absurd h (by decide)

theorem ofChar?_of_isOpening {ch : Char} (h : isOpening ch = true) : Sign.ofChar? ch = none := by
  refine Sign.ofChar?_eq_none_iff.2 fun hs => ?_
  simp only [List.mem_cons, List.not_mem_nil, or_false] at hs
  rcases hs with rfl | rfl <;> exact absurd h (by decide)

/-- A token that a name, a literal or a group begins with. -/
def Token.Opens (t : Token) : Prop := ∃ ch cs, t.chars = ch :: cs ∧ isOpening ch = true

theorem opens_group : (Token.symbol '(').Opens := ⟨'(', [], rfl, rfl⟩

/-- The characters of a name: a letter, and others that names go on with. -/
theorem exists_name_chars (s : Identifier) :
    ∃ ch cs, s.1.toList = ch :: cs ∧ ch.isAlpha = true ∧
      ∀ c ∈ ch :: cs, isIdentifierChar c = true := by
  obtain ⟨name, h⟩ := s
  unfold isIdentifier at h
  split at h
  · cases h
  · rename_i ch cs hname
    obtain ⟨ha, hcs⟩ := (Bool.and_eq_true _ _).mp h
    refine ⟨ch, cs, hname, ha, List.forall_mem_cons.2 ⟨?_, List.all_eq_true.1 hcs⟩⟩
    simp [isIdentifierChar, Char.isAlphanum, ha]

theorem opens_name (s : Identifier) : (Token.name s).Opens := by
  obtain ⟨ch, cs, hs, ha, -⟩ := exists_name_chars s
  exact ⟨ch, cs, hs, by simp [isOpening, ha]⟩

theorem exists_head_literal (l : Literal) :
    ∃ ch cs, l.chars = ch :: cs ∧ isMantissaChar ch = true := by
  cases hm : l.mantissa with
  | nil =>
    have := l.digits_ne_nil
    cases hf : l.fraction <;> simp_all [Literal.mantissa, Literal.point]
  | cons ch cs =>
    refine ⟨ch, _, by rw [Literal.chars, hm]; rfl, ?_⟩
    exact Cursor.isMantissaChar_mantissa l ch (by simp [hm])

theorem opens_number (l : Literal) : (Token.number l).Opens := by
  obtain ⟨ch, cs, h, ha⟩ := exists_head_literal l
  exact ⟨ch, cs, h, by simp [isOpening, ha]⟩

/-- The blanks before an opening token are all that is skipped. -/
theorem Token.Opens.skipBlanks {t : Token} (ht : t.Opens) {c : Cursor} {bs r : List Char}
    (hb : Blanks bs) (h : c.rest = bs ++ (t.chars ++ r)) : c.skipBlanks.rest = t.chars ++ r := by
  obtain ⟨ch, cs, hch, ho⟩ := ht
  rw [hch] at h ⊢
  exact Cursor.skipBlanks_of_rest hb h (isBlank_of_isOpening ho)

/-- The first token of a primary. -/
theorem exists_opens (p : Phrase .primary) : ∃ t ts, p.tokens = t :: ts ∧ t.Opens := by
  cases p with
  | group p => exact ⟨_, _, rfl, opens_group⟩
  | call f p => exact ⟨_, _, rfl, opens_name f⟩
  | constant s => exact ⟨_, _, rfl, opens_name s⟩
  | number l => exact ⟨_, _, rfl, opens_number l⟩

/-- No opening token begins with a sign. -/
theorem Token.Opens.exists_peek? {t : Token} (ht : t.Opens) {c : Cursor} {r : List Char}
    (h : c.skipBlanks.rest = t.chars ++ r) :
    ∃ ch, c.skipBlanks.peek? = some ch ∧ Sign.ofChar? ch = none := by
  obtain ⟨ch, cs, hch, ho⟩ := ht
  refine ⟨ch, ?_, ofChar?_of_isOpening ho⟩
  rw [Cursor.peek?, h, hch]
  rfl

/-- No primary begins with a sign. -/
theorem exists_peek? {p : Phrase .primary} {s r : List Char} {c : Cursor}
    (hs : Spells p.tokens s) (hc : c.rest = s ++ r) :
    ∃ ch, c.skipBlanks.peek? = some ch ∧ Sign.ofChar? ch = none := by
  obtain ⟨t, ts, htok, ht⟩ := exists_opens p
  rw [htok] at hs
  obtain ⟨bs, s, hb, -, rfl⟩ := Spells.cons_iff.1 hs
  exact ht.exists_peek? (ht.skipBlanks (r := s ++ r) hb (by simp [hc]))

theorem complete_base {p : Phrase .primary} (h : Complete n .primary p) :
    Complete n .factor (.base p) := by
  intro c k s r hs hc hend hf
  obtain ⟨hopen, hfp⟩ := hf
  obtain ⟨d, hd, hp⟩ := h c k.inFactor s r hs hc hend.mono hfp
  obtain ⟨ch, hch, hsign⟩ := exists_peek? hs hc
  have hpower : d.skipBlanks.peek? ≠ some '^' := by
    intro hpeek
    rw [Cursor.peek?, hd] at hpeek
    simpa [Level.inner, Level.continues] using hend.symbol _ hpeek
  exact ⟨d.skipBlanks, by simpa using hd,
    .base hch hsign hopen hp (Cursor.accept_of_ne hpower)⟩

theorem complete_power {p : Phrase .primary} {q : Phrase .factor}
    (hp : Complete n .primary p) (hq : Complete n .factor q) :
    Complete n .factor (.power p q) := by
  intro c k s r hs hc hend hf
  obtain ⟨hopen, hfp, hfq⟩ := hf
  obtain ⟨s₁, s₂, h₁, h₂, rfl⟩ := Spells.append_iff.1 hs
  obtain ⟨bs, s₃, hb, h₃, rfl⟩ := Spells.cons_iff.1 h₂
  have hrest : c.rest = s₁ ++ (bs ++ '^' :: (s₃ ++ r)) := by simp [hc, Token.chars]
  obtain ⟨d, hd, hbase⟩ := hp c k.inFactor s₁ _ h₁ hrest (ends_symbol hb (by decide)) hfp
  obtain ⟨ch, hch, hsign⟩ := exists_peek? h₁ hrest
  rw [hb.dropWhile, List.dropWhile_cons_of_neg (by decide)] at hd
  obtain ⟨haccept, hmore⟩ := Cursor.accept_of_rest hd
  obtain ⟨e, he, hexponent⟩ := hq (d.skipBlanks.drop 1) k.inFactor s₃ r h₃ hmore hend hfq
  exact ⟨e, he, .power hch hsign hopen hbase haccept hexponent rfl⟩

theorem Complete.expression {p : Phrase .expression} (h : Complete n .expression p) {c : Cursor}
    {k : Depth} {s r : List Char} (hs : Spells p.tokens s) (hc : c.rest = s ++ r)
    (hr : Ends .expression r) (hf : p.Admitted n k) :
    ∃ d : Cursor, d.skipBlanks.rest = r.dropWhile isBlank ∧
      Parses Expr.productions n (.expression c k) p.tree d := by
  obtain ⟨d, hd, hp⟩ := h c k s r hs hc hr.mono hf
  exact ⟨d.skipBlanks, by simpa using hd, parses_chain hp hd hr⟩

/-- What stands in parentheses is read up to the closing one, which is accepted. -/
theorem Complete.closed {p : Phrase .expression} (h : Complete n .expression p) {c : Cursor}
    {k : Depth} {s r : List Char} (hs : Spells (p.tokens ++ [.symbol ')']) s)
    (hc : c.rest = s ++ r) (hf : p.Admitted n k) :
    ∃ d e : Cursor, Parses Expr.productions n (.expression c k) p.tree d ∧
      d.accept (some ')') = (true, e) ∧ e.skipBlanks.rest = r.dropWhile isBlank := by
  obtain ⟨s₁, s₂, h₁, h₂, rfl⟩ := Spells.append_iff.1 hs
  obtain ⟨bs, s₃, hb, h₃, rfl⟩ := Spells.cons_iff.1 h₂
  cases h₃ with
  | blanks hb' =>
    obtain ⟨d, hd, hp⟩ := h.expression (c := c) (r := bs ++ ')' :: (s₃ ++ r)) h₁
      (by simp [hc, Token.chars]) (ends_symbol hb (by decide)) hf
    rw [hb.dropWhile, List.dropWhile_cons_of_neg (by decide)] at hd
    obtain ⟨haccept, hmore⟩ := Cursor.accept_of_rest hd
    refine ⟨d, _, hp, haccept, ?_⟩
    rw [Cursor.skipBlanks_rest, hmore, hb'.dropWhile]

theorem complete_group {p : Phrase .expression} (h : Complete n .expression p) :
    Complete n .primary (.group p) := by
  intro c k s r hs hc _ hf
  obtain ⟨bs, s, hb, h₁, rfl⟩ := Spells.cons_iff.1 hs
  have hrest : c.skipBlanks.rest = '(' :: (s ++ r) := opens_group.skipBlanks hb (by simp [hc])
  obtain ⟨d, e, hp, he, hr⟩ := h.closed (c := c.skipBlanks.drop 1) (k := k.inGroup) (r := r) h₁
    (by simp [hrest]) hf
  exact ⟨e, hr, .group (by simp [Cursor.peek?, hrest]) hp he⟩

/-- A name and the parenthesis that opens its argument, up to what is behind. -/
theorem exists_accept_name {f : Identifier} {c : Cursor} {bs r : List Char} (hb : Blanks bs)
    (h : c.rest = f.1.toList ++ (bs ++ '(' :: r)) :
    ∃ d e, c.scanIdentifier = some (f.1, d) ∧ d.accept (some '(') = (true, e) ∧ e.rest = r := by
  have hjoined : Stops isIdentifierChar (bs ++ '(' :: r) :=
    (stops_joined_append hb (by simp [Stops]; rfl)).mono fun _ => isJoined_of_isIdentifierChar
  obtain ⟨d, hd, hname⟩ := Cursor.scanIdentifier_of_rest f.2 h hjoined
  have hopen : d.skipBlanks.rest = '(' :: r := Cursor.skipBlanks_of_rest hb hname rfl
  obtain ⟨haccept, hmore⟩ := Cursor.accept_of_rest hopen
  exact ⟨d, _, hd, haccept, hmore⟩

theorem complete_call {f : Identifier} {p : Phrase .expression} (h : Complete n .expression p) :
    Complete n .primary (.call f p) := by
  intro c k s r hs hc _ hf
  obtain ⟨bs, s, hb, h₁, rfl⟩ := Spells.cons_iff.1 hs
  obtain ⟨bs', s, hb', h₂, rfl⟩ := Spells.cons_iff.1 h₁
  have hrest : c.skipBlanks.rest = f.1.toList ++ (bs' ++ '(' :: (s ++ r)) :=
    (opens_name f).skipBlanks hb (by simp [hc, Token.chars])
  obtain ⟨d, d', hd, haccept, hmore⟩ := exists_accept_name hb' hrest
  obtain ⟨e, g, hp, hg, hr⟩ := h.closed (k := k.inGroup) h₂ hmore hf
  exact ⟨g, hr, .call hd haccept hp hg rfl⟩

theorem complete_constant {name : Identifier} : Complete n .primary (.constant name) := by
  intro c k s r hs hc hend _
  obtain ⟨bs, s, hb, h₁, rfl⟩ := Spells.cons_iff.1 hs
  cases h₁ with
  | blanks hb' =>
    have hrest : c.skipBlanks.rest = name.1.toList ++ (s ++ r) :=
      (opens_name name).skipBlanks hb (by simp [hc])
    have hjoined : Stops isIdentifierChar (s ++ r) :=
      (stops_joined_append hb' hend.joined).mono fun _ => isJoined_of_isIdentifierChar
    obtain ⟨d, hd, hname⟩ := Cursor.scanIdentifier_of_rest name.2 hrest hjoined
    have hskip : d.skipBlanks.rest = r.dropWhile isBlank := by
      rw [Cursor.skipBlanks_rest, hname, hb'.dropWhile]
    have hopen : d.skipBlanks.peek? ≠ some '(' := by
      intro hpeek
      rw [Cursor.peek?, hskip] at hpeek
      simpa [Level.inner, Level.continues] using hend.symbol _ hpeek
    exact ⟨d.skipBlanks, by simpa using hskip, .constant hd (Cursor.accept_of_ne hopen) rfl⟩

theorem complete_number {l : Literal} : Complete n .primary (.number l) := by
  intro c k s r hs hc hend _
  obtain ⟨bs, s, hb, h₁, rfl⟩ := Spells.cons_iff.1 hs
  cases h₁ with
  | blanks hb' =>
    have hrest : c.skipBlanks.rest = l.chars ++ (s ++ r) :=
      (opens_number l).skipBlanks hb (by simp [hc])
    have hname : c.skipBlanks.scanIdentifier = none := by
      obtain ⟨ch, cs, hch, ha⟩ := exists_head_literal l
      rw [hch, List.cons_append] at hrest
      exact Cursor.scanIdentifier_of_not_isAlpha hrest (isAlpha_of_isMantissaChar ha)
    obtain ⟨d, hd, hnumber⟩ := Cursor.scanNumber_of_rest (c := c.skipBlanks)
      (by simpa using hrest) (stops_joined_append hb' hend.joined)
    refine ⟨d, ?_, .number hname hd⟩
    rw [Cursor.skipBlanks_rest, hnumber, hb'.dropWhile]

theorem complete {l : Level} (p : Phrase l) : Complete n l p := by
  induction p with
  | operand _ ih => exact complete_operand ih
  | join _ _ _ ih₁ ih₂ => exact complete_join ih₁ ih₂
  | sign _ _ ih => exact complete_sign ih
  | base _ ih => exact complete_base ih
  | power _ _ ih₁ ih₂ => exact complete_power ih₁ ih₂
  | group _ ih => exact complete_group ih
  | call _ _ ih => exact complete_call ih
  | constant _ => exact complete_constant
  | number _ => exact complete_number

end Grammar
end Reckoner
