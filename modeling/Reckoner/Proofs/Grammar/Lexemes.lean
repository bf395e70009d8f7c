import Reckoner.Proofs.Grammar.Completeness

/-!
# Lexemes

The tokens of a phrase stand apart: of two neighbours one is a symbol. So where a token ends can be
seen from the text alone, and the tokens that a text spells are unique, whatever blanks there are
around them. Without blanks the tokens touch and remain the same.
-/
namespace Reckoner

theorem isBlank_of_isJoined {c : Char} (h : isJoined c = true) : isBlank c = false := by
  by_contra hb
  simp [not_isJoined_of_isBlank (by simpa using hb)] at h

theorem Literal.isBlank_of_mem (l : Literal) : ∀ c ∈ l.chars, isBlank c = false := by
  intro c hc
  by_contra hb
  have hpart := l.isPart_of_mem c hc
  simp only [isBlank, Bool.not_eq_false, Bool.or_eq_true, decide_eq_true_eq] at hb
  rcases hb with rfl | rfl <;> exact absurd hpart (by decide)

namespace Grammar

/-- The symbols of the grammar. -/
def symbols : List Char := ['(', ')', '^', '*', '/', '%', '+', '-']

def Token.IsSymbol : Token → Prop
  | symbol _ => True
  | name _ => False
  | number _ => False

/-- A sequence of tokens with the symbols of the grammar between names and literals. -/
structure Lexical (ts : List Token) : Prop where
  mem_symbols : ∀ ch, .symbol ch ∈ ts → ch ∈ symbols
  separated : ts.IsChain fun t u => t.IsSymbol ∨ u.IsSymbol

theorem not_isJoined_of_mem_symbols {ch : Char} (h : ch ∈ symbols) : isJoined ch = false := by
  have hall : symbols.all (fun ch => !isJoined ch) = true := by decide
  simpa using List.all_eq_true.1 hall ch h

theorem not_isBlank_of_mem_symbols {ch : Char} (h : ch ∈ symbols) : isBlank ch = false := by
  have hall : symbols.all (fun ch => !isBlank ch) = true := by decide
  simpa using List.all_eq_true.1 hall ch h

theorem Chain.subset_symbols (l : Chain) : l.symbols ⊆ Grammar.symbols := by
  cases l <;> decide

namespace Lexical

theorem nil : Lexical [] := ⟨by simp, .nil⟩

theorem single (t : Token) (h : ¬t.IsSymbol) : Lexical [t] := by
  refine ⟨fun ch hch => absurd ?_ h, .singleton t⟩
  rw [← List.mem_singleton.1 hch]
  trivial

theorem tail {t : Token} {ts : List Token} (h : Lexical (t :: ts)) : Lexical ts :=
  ⟨fun ch hch => h.mem_symbols ch (List.mem_cons_of_mem t hch), h.separated.tail⟩

theorem join {ts us : List Token} {ch : Char} (hts : Lexical ts) (hus : Lexical us)
    (hch : ch ∈ symbols) : Lexical (ts ++ .symbol ch :: us) := by
  constructor
  · intro other hother
    simp only [List.mem_append, List.mem_cons, Token.symbol.injEq] at hother
    obtain h | rfl | h := hother
    · exact hts.mem_symbols other h
    · exact hch
    · exact hus.mem_symbols other h
  · refine List.isChain_append.2 ⟨hts.separated, List.isChain_cons.2 ⟨?_, hus.separated⟩, ?_⟩
    · exact fun _ _ => .inl trivial
    · rintro _ - _ ⟨⟩
      exact .inr trivial

end Lexical

theorem Phrase.lexical {l : Level} (p : Phrase l) : Lexical p.tokens := by
  induction p with
  | operand _ ih => exact ih
  | join _ op _ ih₁ ih₂ => exact ih₁.join ih₂ (Chain.subset_symbols _ op.2)
  | sign op _ ih =>
    have hsigns : ['-', '+'] ⊆ symbols := by decide
    exact Lexical.nil.join ih (hsigns op.2)
  | base _ ih => exact ih
  | power _ _ ih₁ ih₂ => exact ih₁.join ih₂ (by decide)
  | group _ ih => exact Lexical.nil.join (ih.join .nil (by decide)) (by decide)
  | call f _ ih => exact (Lexical.single (.name f) id).join (ih.join .nil (by decide)) (by decide)
  | constant name => exact .single (.name name) id
  | number l => exact .single (.number l) id

/-! ## Where a token ends -/

/-- The first token of a text without blanks before it: an identifier, a literal or a symbol. -/
def lexeme (cs : List Char) : List Char :=
  match cs.head? with
  | none => []
  | some ch =>
    if ch.isAlpha then cs.takeWhile isIdentifierChar
    else if isMantissaChar ch then cs.take (Cursor.literalLength cs)
    else [ch]

/-- As far as its form goes a literal reaches to its end. -/
theorem literalLength_append (l : Literal) {r : List Char} (hr : Stops isJoined r) :
    Cursor.literalLength (l.chars ++ r) = l.chars.length := by
  have hskip : (⟨0, l.chars ++ r⟩ : Cursor).skipBlanks.rest = l.chars ++ r :=
    (opens_number l).skipBlanks .nil rfl
  obtain ⟨d, hd, hrest⟩ := Cursor.scanNumber_of_rest hskip hr
  obtain ⟨-, -, -, rfl⟩ := Cursor.scanNumber_eq_ok_iff.1 hd
  rw [Cursor.drop_rest, hskip] at hrest
  have hle := Cursor.literalLength_le (l.chars ++ r)
  have hlength := congrArg List.length hrest
  rw [List.length_drop, List.length_append] at hlength
  rw [List.length_append] at hle
  omega

/-- What comes behind a name or a literal does not go on with it. -/
theorem Lexical.stops {t : Token} {ts : List Token} (h : Lexical (t :: ts)) (ht : ¬t.IsSymbol)
    {cs : List Char} (hs : Spells ts cs) : Stops isJoined cs := by
  cases hs with
  | blanks hb => simpa using stops_joined_append hb (r := []) (by simp [Stops])
  | @token bs u ts cs hb hs =>
    obtain hsymbol | hsymbol := (List.isChain_cons_cons.1 h.separated).1
    · exact absurd hsymbol ht
    · cases u with
      | symbol ch =>
        have hch : ch ∈ symbols := h.mem_symbols ch (by simp)
        refine stops_joined_append hb ?_
        simpa [Stops, Token.chars] using not_isJoined_of_mem_symbols hch
      | name _ => exact hsymbol.elim
      | number _ => exact hsymbol.elim

theorem Lexical.lexeme_eq {t : Token} {ts : List Token} (h : Lexical (t :: ts)) {cs : List Char}
    (hs : Spells ts cs) : lexeme (t.chars ++ cs) = t.chars := by
  cases t with
  | symbol ch =>
    have hjoined := not_isJoined_of_mem_symbols (h.mem_symbols ch (by simp))
    have halpha : ch.isAlpha = false ∧ isMantissaChar ch = false := by
      simp only [isJoined, isIdentifierChar, Char.isAlphanum, Bool.or_eq_false_iff] at hjoined
      simp [isMantissaChar, hjoined]
    simp [lexeme, Token.chars, halpha]
  | name s =>
    obtain ⟨ch, name, hname, ha, hall⟩ := exists_name_chars s
    have hstops := (h.stops id hs).mono fun _ => isJoined_of_isIdentifierChar
    rw [Token.chars, hname, lexeme, List.cons_append, List.head?_cons, ← List.cons_append]
    simp only [ha, if_true]
    exact takeWhile_run hall hstops
  | number l =>
    obtain ⟨ch, rest, hl, hch⟩ := exists_head_literal l
    have hlength := literalLength_append l (h.stops id hs)
    have hhead : (l.chars ++ cs).head? = some ch := by rw [hl]; rfl
    rw [Token.chars, lexeme, hhead]
    simp only [isAlpha_of_isMantissaChar hch, hch, Bool.false_eq_true, if_false, if_true]
    rw [hlength, List.take_left]

/-! ## Blanks -/

/-- No token has a blank in it. -/
theorem Lexical.isBlank_of_mem {ts : List Token} (h : Lexical ts) {t : Token} (ht : t ∈ ts) :
    ∀ c ∈ t.chars, isBlank c = false := by
  intro c hc
  cases t with
  | symbol ch =>
    rw [List.mem_singleton.1 hc]
    exact not_isBlank_of_mem_symbols (h.mem_symbols ch ht)
  | name s =>
    obtain ⟨ch, cs, hname, -, hall⟩ := exists_name_chars s
    exact isBlank_of_isJoined (isJoined_of_isIdentifierChar (hall c (hname ▸ hc)))
  | number l => exact l.isBlank_of_mem c hc

theorem Token.chars_ne_nil (t : Token) : t.chars ≠ [] := by
  cases t with
  | symbol ch => simp [Token.chars]
  | name s =>
    obtain ⟨ch, cs, h, -⟩ := opens_name s
    rw [h]
    simp
  | number l =>
    obtain ⟨ch, cs, h, -⟩ := opens_number l
    rw [h]
    simp

/-- The blanks before a token are all that is skipped. -/
theorem Lexical.dropWhile {t : Token} {ts : List Token} (h : Lexical (t :: ts)) {bs : List Char}
    (hb : Blanks bs) (cs : List Char) :
    (bs ++ (t.chars ++ cs)).dropWhile isBlank = t.chars ++ cs := by
  obtain ⟨c, rest, ht⟩ := List.exists_cons_of_ne_nil t.chars_ne_nil
  have hc : isBlank c = false := h.isBlank_of_mem List.mem_cons_self c (by simp [ht])
  rw [hb.dropWhile, ht, List.cons_append, List.dropWhile_cons_of_neg (by simp [hc])]

theorem Lexical.not_blanks {t : Token} {ts : List Token} (h : Lexical (t :: ts)) {cs : List Char}
    (hs : Spells (t :: ts) cs) : ¬Blanks cs := by
  obtain ⟨bs, ds, -, -, rfl⟩ := Spells.cons_iff.1 hs
  obtain ⟨c, rest, ht⟩ := List.exists_cons_of_ne_nil t.chars_ne_nil
  intro hb
  have hblank : isBlank c = true := hb c (by simp [ht])
  simp [h.isBlank_of_mem List.mem_cons_self c (by simp [ht])] at hblank

/-- No text spells two sequences of tokens that differ in a character. -/
theorem Lexical.chars_eq {ts us : List Token} (hts : Lexical ts) (hus : Lexical us)
    {cs : List Char} (h : Spells ts cs) (h' : Spells us cs) :
    ts.map Token.chars = us.map Token.chars := by
  induction h generalizing us with
  | blanks hb =>
    cases us with
    | nil => rfl
    | cons u us => exact absurd hb (hus.not_blanks h')
  | @token bs t ts cs hb hs ih =>
    cases us with
    | nil =>
      cases h' with
      | blanks hb' => exact absurd hb' (hts.not_blanks (.token hb hs))
    | cons u us =>
      obtain ⟨bs', ds, hb', hus', heq⟩ := Spells.cons_iff.1 h'
      have hrest : t.chars ++ cs = u.chars ++ ds := by
        rw [← hts.dropWhile hb, heq, hus.dropWhile hb']
      have hfirst : t.chars = u.chars := by
        rw [← hts.lexeme_eq hs, hrest, hus.lexeme_eq hus']
      rw [hfirst, List.append_cancel_left_eq] at hrest
      subst hrest
      rw [List.map_cons, List.map_cons, hfirst, ih hts.tail hus.tail hus']

/-- Tokens with the same blanks around each of them. -/
theorem Spells.surrounded {bs bs' : List Char} (hb : Blanks bs) (hb' : Blanks bs')
    (ts : List Token) : Spells ts (ts.flatMap fun t => bs ++ (t.chars ++ bs')) := by
  induction ts with
  | nil => exact .nil
  | cons t ts ih =>
    rw [List.flatMap_cons, List.append_assoc, List.append_assoc]
    exact .token hb (ih.blanks_append hb')

/-- Without its blanks a text spells the same tokens. -/
theorem Lexical.spells_filter {ts : List Token} (hts : Lexical ts) {cs : List Char}
    (h : Spells ts cs) : Spells ts (cs.filter fun c => !isBlank c) := by
  induction h with
  | blanks hb =>
    rw [List.filter_eq_nil_iff.2 fun c hc => by simp [hb c hc]]
    exact .nil
  | @token bs t ts cs hb _ ih =>
    have hblanks : bs.filter (fun c => !isBlank c) = [] :=
      List.filter_eq_nil_iff.2 fun c hc => by simp [hb c hc]
    have hchars : t.chars.filter (fun c => !isBlank c) = t.chars :=
      List.filter_eq_self.2 fun c hc => by simp [hts.isBlank_of_mem List.mem_cons_self c hc]
    rw [List.filter_append, List.filter_append, hblanks, hchars]
    exact .token .nil (ih hts.tail)

end Grammar
end Reckoner
