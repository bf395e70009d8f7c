import Reckoner.Proofs.Acceptance
import Reckoner.Proofs.Grammar.Position
import Reckoner.Proofs.Malformed

/-!
# Viable prefixes

Where the tree builder fails, the text before the position of the failure is the beginning of some
expression: an operand that is wanted can be put there, a literal can be ended, and all open
parentheses can be closed. So nothing before that position is to blame.
-/
namespace Reckoner

namespace Grammar

variable {α : Type}

/-- A text that makes every phrase of a chain before it longer. -/
def Extends (l : Chain) (cs : List Char) : Prop :=
  ∀ p : Phrase (.chain l), ∃ (q : Phrase (.chain l)) (us : List Token),
    q.tokens = p.tokens ++ us ∧ Spells us cs

/-- A text that a call takes as a whole. -/
@[simp] def Call.Takes : Call α → List Char → Prop
  | chain l _ _, cs => Phrased (.chain l) cs
  | tail l _ _ _, cs => Extends l cs
  | factor _ _, cs => Phrased .factor cs
  | primary _ _, cs => Phrased .primary cs

theorem takes_operand {l : Chain} {c : Cursor} {k : Depth} {cs : List Char} :
    (l.operand c k : Call α).Takes cs ↔ Phrased l.level cs := by cases l <;> rfl

variable {l : Chain} {bs cs ds : List Char}

/-! ## Texts of phrases -/

theorem Phrased.blanks {l : Level} (hb : Blanks bs) (h : Phrased l cs) : Phrased l (bs ++ cs) := by
  obtain ⟨p, hs⟩ := h
  exact ⟨p, hs.blanks_append hb⟩

theorem Phrased.operand (h : Phrased l.level cs) : Phrased (.chain l) cs := by
  obtain ⟨p, hs⟩ := h
  exact ⟨.operand p, hs⟩

theorem Phrased.extend (h : Phrased l.level cs) (hd : Extends l ds) :
    Phrased (.chain l) (cs ++ ds) := by
  obtain ⟨p, hs⟩ := h
  obtain ⟨q, us, hq, hu⟩ := hd (.operand p)
  exact ⟨q, by rw [hq]; exact hs.append hu⟩

theorem Extends.join {ch : Char} (hch : ch ∈ l.symbols) (hb : Blanks bs)
    (h : Phrased l.level cs) (hd : Extends l ds) : Extends l (bs ++ ch :: (cs ++ ds)) := by
  intro p
  obtain ⟨q, hs⟩ := h
  obtain ⟨r, us, hr, hu⟩ := hd (.join p ⟨ch, hch⟩ q)
  refine ⟨r, .symbol ch :: (q.tokens ++ us), ?_, .token hb (hs.append hu)⟩
  rw [hr]
  simp [Phrase.tokens]

theorem extends_nil : Extends l [] := fun p => ⟨p, [], (List.append_nil _).symm, .nil⟩

theorem Phrased.sign {ch : Char} (hch : ch ∈ ['-', '+']) (hb : Blanks bs)
    (h : Phrased .factor cs) : Phrased .factor (bs ++ ch :: cs) := by
  obtain ⟨p, hs⟩ := h
  exact ⟨.sign ⟨ch, hch⟩ p, .token hb hs⟩

theorem Phrased.base (h : Phrased .primary cs) : Phrased .factor cs := by
  obtain ⟨p, hs⟩ := h
  exact ⟨.base p, hs⟩

theorem Phrased.power (h : Phrased .primary cs) (hb : Blanks bs) (hd : Phrased .factor ds) :
    Phrased .factor (cs ++ (bs ++ '^' :: ds)) := by
  obtain ⟨p, hs⟩ := h
  obtain ⟨q, hq⟩ := hd
  exact ⟨.power p q, hs.append (.token hb hq)⟩

theorem Phrased.group (h : Phrased .expression cs) : Phrased .primary ('(' :: (cs ++ [')'])) := by
  obtain ⟨p, hs⟩ := h
  exact ⟨.group p, hs.group⟩

theorem Phrased.call {name : String} (hn : isIdentifier name = true) (hb : Blanks bs)
    (h : Phrased .expression cs) :
    Phrased .primary (name.toList ++ (bs ++ '(' :: (cs ++ [')']))) := by
  obtain ⟨p, hs⟩ := h
  exact ⟨.call ⟨name, hn⟩ p, .token .nil (hs.group.blanks_append hb)⟩

theorem Phrased.trailing {l : Level} (h : Phrased l cs) (hb : Blanks bs) :
    Phrased l (cs ++ bs) := by
  obtain ⟨p, hs⟩ := h
  exact ⟨p, by simpa using hs.append (.blanks hb)⟩

theorem phrased_literal (l : Literal) : Phrased .primary l.chars := ⟨.number l, .one .nil _⟩

/-- A digit is enough where an operand is wanted. -/
theorem phrased_digit (hb : Blanks bs) : Phrased .primary (bs ++ ['1']) :=
  (phrased_literal ⟨['1'], none, none, by simp, by simp, by simp⟩).blanks hb

/-! ## Completions -/

variable {P : Productions α} {n : Nesting}

/-- The failure names a position up to which the text is the beginning of one that the call takes as
a whole. -/
def Call.Completes (q : Call α) (e : Failure) : Prop :=
  ∃ s w d, q.cursor.Passes s d ∧ e.position? = some d.position ∧ q.Takes (s ++ w)

theorem completes_operand {c : Cursor} {k : Depth} {e : Failure} :
    (l.operand c k : Call α).Completes e ↔ ∃ s w d, c.Passes s d ∧ e.position? = some d.position ∧
      Phrased l.level (s ++ w) := by
  simp only [Call.Completes, cursor_operand, takes_operand]

/-- Before a literal, or up to its second point, a digit makes it complete. -/
theorem exists_literal_of_malformed {c : Cursor} {e : Failure} (h : c.Malformed e) :
    ∃ s w d, c.Passes s d ∧ e.position? = some d.position ∧ Phrased .primary (s ++ w) := by
  have here : c.Passes [] c := ⟨rfl, rfl⟩
  cases h with
  | missing _ => exact ⟨[], ['1'], c, here, rfl, phrased_digit .nil⟩
  | @points whole fraction more rest hc hw hf _ _ =>
    have hpasses : c.Passes (whole ++ '.' :: fraction)
        (c.drop (whole ++ '.' :: fraction).length) := by
      refine (Cursor.ahead_drop ?_).passes ?_
      · simp [hc]
      · simp [hc]
    refine ⟨_, ['0'], _, hpasses, rfl, ?_⟩
    have hliteral := phrased_literal ⟨whole, some (fraction ++ ['0']), none, hw, ?_, by simp⟩
    · simpa [Literal.chars, Literal.mantissa, Literal.point] using hliteral
    · rintro ds hds ch hch
      obtain rfl : fraction ++ ['0'] = ds := by simpa using hds
      rcases List.mem_append.1 hch with hch | hch
      · exact hf ch hch
      · obtain rfl := List.mem_singleton.1 hch
        rfl
  | point _ _ => exact ⟨[], ['1'], c, here, rfl, phrased_digit .nil⟩

theorem Refuses.completes {q : Call Expr} {e : Failure} (h : Refuses Expr.productions n q e) :
    q.Completes e := by
  cases h with
  | binary _ _ hb => cases hb
  | @atEnd c _ _ =>
    obtain ⟨bs, hb, hc⟩ := c.exists_passes_skipBlanks
    exact ⟨bs, ['1'], _, hc, rfl, (phrased_digit hb).base⟩
  | @tooDeep c _ _ _ _ =>
    obtain ⟨bs, hb, hc⟩ := c.exists_passes_skipBlanks
    exact ⟨bs, ['1'], _, hc, rfl, (phrased_digit hb).base⟩
  | unary _ _ _ hu => cases hu
  | power _ _ _ _ _ _ hb => cases hb
  | @group c k t d e hp hi ha =>
    obtain ⟨s, hs, hd⟩ := Parses.phrased (l := .expression) hi
    obtain ⟨bs, hb, he⟩ := d.exists_passes_skipBlanks
    obtain ⟨rfl, -⟩ := Cursor.accept_false ha
    refine ⟨_, [')'], _, (Cursor.passes_drop_one hp).trans (hd.trans he), rfl, ?_⟩
    simpa using (hs.trailing hb).group
  | constant _ _ hc => cases hc
  | @argument c k name d e t f g hi ha harg hb =>
    obtain ⟨bs, hbs, hd⟩ := Cursor.exists_passes_accept ha
    obtain ⟨s, hs, hf⟩ := Parses.phrased (l := .expression) harg
    obtain ⟨bs', hbs', hg⟩ := f.exists_passes_skipBlanks
    obtain ⟨rfl, -⟩ := Cursor.accept_false hb
    have hname := (Cursor.scanIdentifier_some hi).1
    have hpass := (Cursor.passes_of_scanIdentifier hi).trans (hd.trans (hf.trans hg))
    refine ⟨_, [')'], _, hpass, rfl, ?_⟩
    simpa using (hs.trailing hbs').call hname hbs
  | call _ _ _ _ hc => cases hc
  | @number c k d e _ _ hs =>
    obtain ⟨bs, hb, hc⟩ := c.exists_passes_skipBlanks
    obtain ⟨s, w, d, hd, he, hp⟩ := exists_literal_of_malformed (Cursor.scanNumber_malformed hs)
    exact ⟨_, w, d, hc.trans hd, he, by simpa using hp.blanks hb⟩

theorem Calls.completes {q q' : Call α} {e : Failure} (h : Calls P n q q')
    (ih : q'.Completes e) : q.Completes e := by
  cases h with
  | first =>
    obtain ⟨s, w, d, hd, he, hp⟩ := completes_operand.1 ih
    exact ⟨s, w, d, hd, he, hp.operand⟩
  | tail hl =>
    obtain ⟨s, hs, hpass⟩ := hl.phrased_operand
    obtain ⟨s', w, d, hd, he, hp⟩ := ih
    refine ⟨_, w, d, hpass.trans hd, he, ?_⟩
    simpa using hs.extend hp
  | operand hop =>
    obtain ⟨ch, bs, hch, hb, hpass⟩ := exists_passes_of_next? hop
    obtain ⟨s, w, d, hd, he, hp⟩ := completes_operand.1 ih
    refine ⟨_, w, d, hpass.trans hd, he, ?_⟩
    simpa using extends_nil.join (Chain.mem_symbols_of_read hch) hb hp
  | more hop hr _ =>
    obtain ⟨ch, bs, hch, hb, hpass⟩ := exists_passes_of_next? hop
    obtain ⟨s, hs, hpass'⟩ := hr.phrased_operand
    obtain ⟨s', w, d, hd, he, hp⟩ := ih
    refine ⟨_, w, d, hpass.trans (hpass'.trans hd), he, ?_⟩
    simpa using Extends.join (Chain.mem_symbols_of_read hch) hb hs hp
  | sign hop _ =>
    obtain ⟨ch, bs, hch, hb, hpass⟩ := exists_passes_of_next? hop
    obtain ⟨s, w, d, hd, he, hp⟩ := ih
    refine ⟨_, w, d, hpass.trans hd, he, ?_⟩
    simpa using Phrased.sign (Sign.mem_of_ofChar? hch) hb hp
  | @base c _ _ _ _ _ =>
    obtain ⟨bs, hb, hpass⟩ := c.exists_passes_skipBlanks
    obtain ⟨s, w, d, hd, he, hp⟩ := ih
    refine ⟨_, w, d, hpass.trans hd, he, ?_⟩
    simpa using (hp.blanks hb).base
  | @exponent c _ _ _ _ _ _ _ _ hb ha =>
    obtain ⟨bs, hbs, hpass⟩ := c.exists_passes_skipBlanks
    obtain ⟨s, hs, hbase⟩ := Parses.phrased (l := .primary) hb
    obtain ⟨bs', hbs', haccept⟩ := Cursor.exists_passes_accept ha
    obtain ⟨s', w, d, hd, he, hp⟩ := ih
    refine ⟨_, w, d, hpass.trans (hbase.trans (haccept.trans hd)), he, ?_⟩
    simpa using (hs.blanks hbs).power hbs' hp
  | group hp =>
    obtain ⟨s, w, d, hd, he, hs⟩ := ih
    refine ⟨_, w ++ [')'], d, (Cursor.passes_drop_one hp).trans hd, he, ?_⟩
    simpa using Phrased.group hs
  | argument hi ha =>
    obtain ⟨bs, hbs, hopen⟩ := Cursor.exists_passes_accept ha
    obtain ⟨s, w, d, hd, he, hs⟩ := ih
    have hname := (Cursor.scanIdentifier_some hi).1
    refine ⟨_, w ++ [')'], d, (Cursor.passes_of_scanIdentifier hi).trans (hopen.trans hd), he, ?_⟩
    simpa using Phrased.call hname hbs hs

theorem Fails.completes {q : Call Expr} {e : Failure} (h : Fails Expr.productions n q e) :
    q.Completes e := by
  induction h with
  | here h => exact h.completes
  | within h _ ih => exact h.completes ih

end Grammar

namespace Reading

open Grammar

variable {text : String}

theorem upTo_of_passes {s : List Char} {d : Cursor} (h : (Cursor.ofText text 0).Passes s d) :
    d.position ≤ text.length ∧ (upTo text d.position).toList = s := by
  rw [upTo, String.toList_ofList, ← h.length, ← String.length_toList, h.toList, List.take_left]
  exact ⟨by simp, rfl⟩

/-- A failure that the check of what is left over finds is behind the expression. -/
theorem finish_error {α : Type} {r : Reading} {a : α} {d : Cursor} {e : Failure}
    (h : r.finish a d = .error e) : e.position? = some d.skipBlanks.position := by
  obtain ⟨-, rfl⟩ | ⟨ch, -, -, rfl⟩ := finish_error_cases h <;> rfl

/-- Nothing before the position of a failure is to blame: under any limit, what is before it can be
made complete so that it is accepted. -/
theorem exists_parse_of_error (r : Reading) (text : String) (e : Failure)
    (h : r.parse text = .error e) :
    ∃ p ≤ text.length, e.report.position = some (p : Int) ∧
      ∃ rest t, (⟨.unlimited, true⟩ : Reading).parse (upTo text p ++ rest) = .ok t := by
  obtain ⟨s, w, d, hpass, he, p, hs⟩ : (call text : Call Expr).Completes e := by
    obtain hf | ⟨t, d, hp, hd⟩ := parse_eq_error_iff.1 h
    · exact hf.completes
    · obtain ⟨s, hs, hpass⟩ := Parses.phrased (l := .expression) hp
      obtain ⟨bs, hb, hskip⟩ := d.exists_passes_skipBlanks
      refine ⟨_, [], _, hpass.trans hskip, finish_error hd, ?_⟩
      simpa using hs.trailing hb
  obtain ⟨hle, hupTo⟩ := upTo_of_passes hpass
  refine ⟨d.position, hle, by rw [e.report_position, he]; rfl, String.ofList w, p.tree, ?_⟩
  refine parse_unlimited_iff.2 ⟨p, ?_, rfl⟩
  rwa [String.toList_append, hupTo, String.toList_ofList]

/-- Up to a second point the literal and the call around it can be made complete. -/
theorem exists_parse_of_second_point :
    (⟨⟨100, none⟩, true⟩ : Reading).parse "f(1..2" = .error (.invalidNumber "1..2" 4) ∧
      ∃ rest t, (⟨.unlimited, true⟩ : Reading).parse ("f(1." ++ rest) = .ok t := by
  have h : (⟨⟨100, none⟩, true⟩ : Reading).parse "f(1..2" =
      .error (.invalidNumber "1..2" 4) := by
    refine parse_eq_error_iff.2 (.inl (.within .first (.within .first ?_)))
    refine .within (.base rfl rfl rfl) (.within (.argument rfl rfl) ?_)
    refine .within .first (.within .first (.within (.base rfl rfl rfl) (.here ?_)))
    exact .number (by decide) rfl rfl
  obtain ⟨p, -, hp, rest, t, ht⟩ := exists_parse_of_error _ _ _ h
  obtain rfl : p = 4 := by
    have hposition : some (4 : Int) = some (p : Int) := hp
    simp only [Option.some.injEq] at hposition
    omega
  exact ⟨h, rest, t, ht⟩

end Reading
end Reckoner
