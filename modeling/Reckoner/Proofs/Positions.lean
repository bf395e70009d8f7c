import Reckoner.Proofs.Library
import Reckoner.Proofs.OnePass
import Reckoner.Proofs.Viable

/-!
# What positions tell

The position of a failure is a place in the text where what the failure says can be seen: the end of
the text, a character that begins no operand, the second point of a literal, a name that the context
lacks, where a parenthesis is missing or has no partner, or behind a call that uses up the stack.
Each inner call starts where the call around it has got to, so a call knows what stands before its
cursor: where an operand is wanted, a symbol that one follows.
-/
namespace Reckoner

open Grammar

/-! ## What failures say of a text -/

/-- The symbols that an operand follows. -/
def operandSymbols : List Char := ['(', '^', '*', '/', '%', '+', '-']

/-- An operand is wanted: but for blanks the text is empty or ends in a symbol that one follows. -/
def Expects (cs : List Char) : Prop :=
  ∃ front bs, cs = front ++ bs ∧ Blanks bs ∧ ∀ ch ∈ front.getLast?, ch ∈ operandSymbols

/-- A name that stands at a position as a whole, with what stands behind it. -/
def NameAt (text : String) (p : Nat) (name : String) (after : List Char) : Prop :=
  ∃ before, text.toList = before ++ (name.toList ++ after) ∧ before.length = p ∧
    isIdentifier name = true ∧ Stops isIdentifierChar before.reverse ∧
    Stops isIdentifierChar after

/-- The literal is a whole run of digits and points, and its second point stands at the position. -/
def SecondPointAt (text literal : String) (p : Nat) : Prop :=
  ∃ before whole fraction more after,
    text.toList = before ++ (literal.toList ++ after) ∧
    literal.toList = whole ++ '.' :: (fraction ++ '.' :: more) ∧
    p = (before ++ (whole ++ '.' :: fraction)).length ∧
    (∀ ch ∈ whole, ch.isDigit = true) ∧ (∀ ch ∈ fraction, ch.isDigit = true) ∧
    (∀ ch ∈ more, isMantissaChar ch = true) ∧
    Stops isMantissaChar before.reverse ∧ Stops isMantissaChar after

/-- The literal stands at the position and is a point without digits on either side, perhaps with an
exponent. -/
def PointAt (text literal : String) (p : Nat) : Prop :=
  ∃ before after, ∃ exponent : Option Exponent,
    text.toList = before ++ '.' :: ((exponent.map Exponent.chars).getD [] ++ after) ∧
    before.length = p ∧ literal.toList = '.' :: (exponent.map Exponent.chars).getD [] ∧
    Stops isMantissaChar before.reverse ∧
    Stops isMantissaChar ((exponent.map Exponent.chars).getD [] ++ after)

/-- An expression has been read up to the position, where no parenthesis follows for the one before
it: that of a call behind its name, or that of a group where an operand is wanted. -/
def UnclosedAt (text : String) (p : Nat) (inCall : Bool) : Prop :=
  ∃ before inside after, text.toList = before ++ '(' :: (inside ++ after) ∧
    p = (before ++ '(' :: inside).length ∧ Phrased .expression inside ∧
    Stops (fun ch => isBlank ch || ch == ')') after ∧
    if inCall then ∃ front name bs, before = front ++ (name ++ bs) ∧ Expects front ∧
      isIdentifier (String.ofList name) = true ∧ Blanks bs
    else Expects before

/-- What a failure says of the text, the context and the limit that it comes from. -/
def Failure.TrueOf (c : Context) (n : Nesting) (text : String) : Failure → Prop
  | unexpectedEnd p => p = text.length
  | expectedNumber p => ∃ ch ∈ text.toList[p]?, isBlank ch = false ∧ ch.isDigit = false ∧
      ch.isAlpha = false ∧ ch ∉ ['.', '(', '+', '-']
  | invalidNumber literal p => SecondPointAt text literal p ∨ PointAt text literal p
  | unknownFunction name p => c.function? name = none ∧ ∃ q ∈ p, ∃ after,
      NameAt text q name after ∧ (after.dropWhile isBlank).head? = some '('
  | unknownIdentifier name p => c.constant? name = none ∧ ∃ q ∈ p, ∃ after,
      NameAt text q name after ∧ (after.dropWhile isBlank).head? ≠ some '('
  | trailingInput ch p => text.toList[p]? = some ch ∧ isBlank ch = false ∧ ch ≠ ')' ∧
      Phrased .expression (text.toList.take p)
  | mismatchedParentheses p inCall => UnclosedAt text p inCall ∨
      inCall = false ∧ text.toList[p]? = some ')' ∧ Phrased .expression (text.toList.take p)
  | nestingTooDeep p limit => limit = n.guard ∧
      ((∃ ch ∈ text.toList[p]?, isBlank ch = false) ∨ ∃ e, c.ExhaustedAt text p e)
  | domain _ | invalidName _ | badContext _ _ | host _ _ => False

/-- The functions of the host fail by values, not as texts do. -/
def Context.KeepsToValues (c : Context) : Prop :=
  ∀ {name run x e}, c.function? name = some (.host run) → run x = .error e →
    e.kind.isParse = false

/-! ## Where an operand is wanted -/

theorem expects_nil : Expects [] := ⟨[], [], rfl, .nil, by simp⟩

theorem Expects.blanks {cs bs : List Char} (h : Expects cs) (hb : Blanks bs) :
    Expects (cs ++ bs) := by
  obtain ⟨front, bs', rfl, hb', hlast⟩ := h
  exact ⟨front, bs' ++ bs, List.append_assoc .., hb'.append hb, hlast⟩

theorem expects_symbol (cs : List Char) {ch : Char}
    (h : ch ∈ operandSymbols) : Expects (cs ++ [ch]) :=
  ⟨cs ++ [ch], [], by simp, .nil, by simpa using h⟩

/-- What is wanted does not go on with a name or a literal. -/
theorem Expects.stops {cs : List Char} (h : Expects cs) : Stops isJoined cs.reverse := by
  obtain ⟨front, bs, rfl, hb, hlast⟩ := h
  rw [List.reverse_append]
  refine stops_joined_append (fun ch hch => hb ch (List.mem_reverse.1 hch)) fun ch hch => ?_
  rw [List.head?_reverse] at hch
  have hsymbol := hlast ch hch
  simp only [operandSymbols, List.mem_cons, List.not_mem_nil, or_false] at hsymbol
  rcases hsymbol with rfl | rfl | rfl | rfl | rfl | rfl | rfl <;> rfl

/-! ## Calls in a text -/

namespace Grammar

/-- What a call finds before it: an operand is wanted where it reads one, and a primary starts with
neither a blank nor a sign. -/
def Call.Follows {α : Type} : Call α → List Char → Prop
  | chain _ _ _, s | factor _ _, s => Expects s
  | tail _ _ _ _, _ => True
  | primary c _, s =>
    Expects s ∧ ∃ ch, c.peek? = some ch ∧ isBlank ch = false ∧ Sign.ofChar? ch = none

/-- A call that stands in a text behind what it must. -/
def Call.StandsIn {α : Type} (text : String) (q : Call α) : Prop :=
  ∃ s, (Cursor.ofText text 0).Passes s q.cursor ∧ q.Follows s

variable {α : Type} {P : Productions α} {n : Nesting} {text : String}

theorem standsIn_operand {l : Chain} {c : Cursor} {k : Depth} :
    (l.operand c k : Call α).StandsIn text ↔
      ∃ s, (Cursor.ofText text 0).Passes s c ∧ Expects s := by cases l <;> rfl

theorem Chain.symbols_subset (l : Chain) : l.symbols ⊆ operandSymbols := by cases l <;> decide

/-- Every inner call stands in the text if the call around it does. -/
theorem Calls.standsIn {q q' : Call α} (h : Calls P n q q') (hq : q.StandsIn text) :
    q'.StandsIn text := by
  obtain ⟨s, hpass, hs⟩ := hq
  cases h with
  | first => exact standsIn_operand.2 ⟨s, hpass, hs⟩
  | tail hl =>
    obtain ⟨s', -, hpass'⟩ := hl.phrased_operand
    exact ⟨_, hpass.trans hpass', trivial⟩
  | @operand l _ _ _ _ hop =>
    obtain ⟨ch, bs, hread, -, hpass'⟩ := exists_passes_of_next? hop
    refine standsIn_operand.2 ⟨_, hpass.trans hpass', ?_⟩
    rw [← List.append_assoc]
    exact expects_symbol _ (l.symbols_subset (Chain.mem_symbols_of_read hread))
  | more hop hr _ =>
    obtain ⟨ch, bs, -, -, hpass'⟩ := exists_passes_of_next? hop
    obtain ⟨s', -, hpass''⟩ := hr.phrased_operand
    exact ⟨_, hpass.trans (hpass'.trans hpass''), trivial⟩
  | sign hop _ =>
    obtain ⟨ch, bs, hread, -, hpass'⟩ := exists_passes_of_next? hop
    refine ⟨_, hpass.trans hpass', ?_⟩
    have hsigns : ['-', '+'] ⊆ operandSymbols := by decide
    rw [Call.Follows, ← List.append_assoc]
    exact expects_symbol _ (hsigns (Sign.mem_of_ofChar? hread))
  | @base c _ ch hp hsign _ =>
    obtain ⟨bs, hb, hpass'⟩ := c.exists_passes_skipBlanks
    exact ⟨_, hpass.trans hpass', hs.blanks hb, ch, hp, Cursor.not_isBlank_of_peek?_skipBlanks hp,
      hsign⟩
  | @exponent c _ _ _ _ _ _ _ _ hb ha =>
    obtain ⟨bs, -, hpass₁⟩ := c.exists_passes_skipBlanks
    obtain ⟨s', -, hpass₂⟩ := Parses.phrased (l := .primary) hb
    obtain ⟨bs', -, hpass₃⟩ := Cursor.exists_passes_accept ha
    refine ⟨_, (hpass.trans (hpass₁.trans hpass₂)).trans hpass₃, ?_⟩
    rw [Call.Follows, ← List.append_assoc]
    exact expects_symbol _ (by decide)
  | group hp => exact ⟨_, hpass.trans (Cursor.passes_drop_one hp), expects_symbol _ (by decide)⟩
  | argument hi ha =>
    obtain ⟨bs, -, hpass'⟩ := Cursor.exists_passes_accept ha
    refine ⟨_, (hpass.trans (Cursor.passes_of_scanIdentifier hi)).trans hpass', ?_⟩
    rw [Call.Follows, ← List.append_assoc]
    exact expects_symbol _ (by decide)

/-! ## What a call that fails says -/

variable {E : Elementary} {c : Context} {s : List Char} {d : Cursor} {e : Failure}

/-- Scanning a number tells the truth where an operand is wanted that is neither a group nor a
name. -/
theorem trueOf_of_scanNumber {f : Cursor} {ch : Char} (hpass : (Cursor.ofText text 0).Passes s d)
    (hs : Expects s) (hp : d.peek? = some ch) (hb : isBlank ch = false)
    (hsign : Sign.ofChar? ch = none) (hgroup : d.peek? ≠ some '(')
    (hi : d.scanIdentifier = none) (h : d.scanNumber = (.error e, f)) : e.TrueOf c n text := by
  have htext := hpass.toList
  have hlength := hpass.length
  have hbefore : Stops isMantissaChar s.reverse := hs.stops.mono fun _ => isJoined_of_isMantissaChar
  have hmalformed := Cursor.scanNumber_malformed h
  rw [Cursor.skipBlanks_of_peek? hp hb] at hmalformed
  cases hmalformed with
  | missing hstops =>
    have hrest := Cursor.rest_eq_of_peek? hp
    have halpha : ch.isAlpha = false := by
      unfold Cursor.scanIdentifier at hi
      rw [hrest] at hi
      simpa using hi
    have hmantissa : isMantissaChar ch = false := hstops ch hp
    simp only [isMantissaChar, Bool.or_eq_false_iff, decide_eq_false_iff_not] at hmantissa
    have hne : ch ≠ '(' := fun heq => hgroup (heq ▸ hp)
    have hsigns := Sign.ofChar?_eq_none_iff.1 hsign
    simp only [List.mem_cons, List.not_mem_nil, or_false, not_or] at hsigns
    refine ⟨ch, hpass.getElem?.trans hp, hb, hmantissa.1, halpha, ?_⟩
    simp [hmantissa.2, hne, hsigns]
  | @points whole fraction more rest hrest hw hf hm hstops =>
    refine .inl ⟨s, whole, fraction, more, rest, ?_, String.toList_ofList, ?_, hw, hf, hm, hbefore,
      hstops⟩
    · rw [htext, hrest, String.toList_ofList]
    · simp [hlength]
  | @point rest hrest hstops =>
    obtain ⟨x, hx⟩ := Cursor.exists_exponent rest
    have hsplit : (x.map Exponent.chars).getD [] ++ rest.drop (Cursor.exponentLength rest) =
        rest := by
      rw [← hx, List.take_append_drop]
    refine .inr ⟨s, rest.drop (Cursor.exponentLength rest), x, ?_, hlength, ?_, hbefore, ?_⟩
    · rw [htext, hrest, hsplit]
    · rw [String.toList_ofList, hx]
    · rwa [hsplit]

/-- A name stands where it is scanned. -/
theorem nameAt_of_scanIdentifier {f : Cursor} {name : String}
    (hpass : (Cursor.ofText text 0).Passes s d) (hs : Expects s)
    (h : d.scanIdentifier = some (name, f)) : NameAt text d.position name f.rest := by
  obtain ⟨hname, hrest⟩ := Cursor.scanIdentifier_some h
  exact ⟨s, by rw [hpass.toList, hrest], hpass.length, hname,
    hs.stops.mono fun _ => isJoined_of_isIdentifierChar, Cursor.scanIdentifier_stops h⟩

/-- Where no parenthesis is accepted behind an expression. -/
theorem unclosedAt_of_accept {k : Depth} {b f g : Cursor} {a : α} {inCall : Bool}
    (hpass : (Cursor.ofText text 0).Passes (s ++ ['(']) b)
    (h : Parses P n (.expression b k) a f) (ha : f.accept (some ')') = (false, g))
    (hs : if inCall then ∃ front name bs, s = front ++ (name ++ bs) ∧ Expects front ∧
      isIdentifier (String.ofList name) = true ∧ Blanks bs else Expects s) :
    UnclosedAt text g.position inCall := by
  obtain ⟨inside, hinside, hpass'⟩ := Parses.phrased (l := .expression) h
  obtain ⟨bs, hb, hpass''⟩ := f.exists_passes_skipBlanks
  obtain ⟨rfl, hne⟩ := Cursor.accept_false ha
  have hall := hpass.trans (hpass'.trans hpass'')
  refine ⟨s, inside ++ bs, f.skipBlanks.rest, ?_, ?_, hinside.trailing hb, ?_, hs⟩
  · rw [hall.toList]
    simp
  · rw [← hall.length]
    simp
  · intro ch hch
    have hblank := Cursor.not_isBlank_of_peek?_skipBlanks hch
    have hparenthesis : ch ≠ ')' := fun heq => hne (heq ▸ hch)
    simp [hblank, hparenthesis]

/-- A call that fails on its own tells the truth about the text it stands in, or has no more to say
than the value that it fails by. -/
theorem Refuses.trueOf {q : Call Float} (h : Refuses (c.productions E) n q e)
    (hq : q.StandsIn text) (hc : c.KeepsToValues) (he : e.kind.isParse = true) :
    e.TrueOf c n text := by
  obtain ⟨s, hpass, hs⟩ := hq
  cases h with
  | binary _ _ hb =>
    obtain ⟨fault, rfl⟩ := BinaryOperator.exists_fault hb
    cases he
  | @atEnd d _ hp =>
    obtain ⟨bs, -, hpass'⟩ := d.exists_passes_skipBlanks
    have hall := hpass.trans hpass'
    have hnil : d.skipBlanks.rest = [] := List.head?_eq_none_iff.1 hp
    rw [Failure.TrueOf, ← hall.length, ← String.length_toList, hall.toList, hnil,
      List.append_nil]
  | @tooDeep d _ ch hp _ =>
    obtain ⟨bs, -, hpass'⟩ := d.exists_passes_skipBlanks
    exact ⟨rfl, .inl ⟨ch, (hpass.trans hpass').getElem?.trans hp,
      Cursor.not_isBlank_of_peek?_skipBlanks hp⟩⟩
  | unary _ _ _ hu => cases hu
  | power _ _ _ _ _ _ hb => cases hb
  | group hp hi ha =>
    exact .inl (unclosedAt_of_accept (hpass.trans (Cursor.passes_drop_one hp)) hi ha hs.1)
  | @constant d _ name f g _ hi ha hconstant =>
    simp only [Context.productions] at hconstant
    split at hconstant <;> cases hconstant
    rename_i hnone
    refine ⟨hnone, d.position, rfl, f.rest, nameAt_of_scanIdentifier hpass hs.1 hi, ?_⟩
    rw [← Cursor.skipBlanks_rest]
    exact (Cursor.accept_false ha).2
  | @argument d _ name f g _ _ _ hi ha harg hb =>
    obtain ⟨hname, hrest⟩ := Cursor.scanIdentifier_some hi
    obtain ⟨bs, hbs, hpass'⟩ := Cursor.exists_passes_accept ha
    refine .inl (unclosedAt_of_accept (s := s ++ (name.toList ++ bs)) ?_ harg hb
      ⟨s, name.toList, bs, rfl, hs.1, by rwa [String.ofList_toList], hbs⟩)
    simpa using hpass.trans ((Cursor.passes_of_scanIdentifier hi).trans hpass')
  | @call d _ name f g _ _ _ _ hi ha _ _ hcall =>
    simp only [Context.productions] at hcall
    split at hcall
    · rename_i fn hfn
      obtain hnumeric | ⟨run, rfl, hrun⟩ := Callable.apply_error hcall
      · rw [Failure.not_isParse_of_isNumeric hnumeric] at he
        cases he
      · rw [hc hfn hrun] at he
        cases he
    · rename_i hnone
      cases hcall
      obtain ⟨bs, hbs, hopen⟩ := Cursor.accept_true ha
      refine ⟨hnone, d.position, rfl, f.rest, nameAt_of_scanIdentifier hpass hs.1 hi, ?_⟩
      rw [hopen, hbs.dropWhile]
      rfl
  | number hp hi hn =>
    obtain ⟨hexpects, ch, hch, hblank, hsign⟩ := hs
    exact trueOf_of_scanNumber hpass hexpects hch hblank hsign hp hi hn

theorem Fails.trueOf {q : Call Float} (h : Fails (c.productions E) n q e)
    (hq : q.StandsIn text) (hc : c.KeepsToValues) (he : e.kind.isParse = true) :
    e.TrueOf c n text := by
  induction h with
  | here h => exact h.trueOf hq hc he
  | within h _ ih => exact ih (h.standsIn hq) he

end Grammar

namespace Failure

variable {c : Context} {n : Nesting} {text : String}

/-- The position that a failure about a text names is in the text or at its end. -/
theorem TrueOf.exists_position {e : Failure} (h : e.TrueOf c n text) :
    ∃ p ≤ text.length, e.position? = some p := by
  have hle : ∀ {p : Nat} {ch : Char}, text.toList[p]? = some ch → p ≤ text.length := by
    intro p ch hp
    obtain ⟨hlt, -⟩ := List.getElem?_eq_some_iff.1 hp
    rw [String.length_toList] at hlt
    exact Nat.le_of_lt hlt
  have hsplit : ∀ {before after : List Char}, text.toList = before ++ after →
      before.length ≤ text.length := by
    intro before after htext
    rw [← String.length_toList, htext, List.length_append]
    exact Nat.le_add_right _ _
  cases e with
  | unexpectedEnd p => exact ⟨p, Nat.le_of_eq h, rfl⟩
  | expectedNumber p =>
    obtain ⟨ch, hch, -⟩ := h
    exact ⟨p, hle hch, rfl⟩
  | invalidNumber literal p =>
    refine ⟨p, ?_, rfl⟩
    obtain ⟨before, whole, fraction, more, after, htext, hliteral, rfl, -⟩ |
      ⟨before, after, exponent, htext, rfl, -⟩ := h
    · have hpoint : text.toList =
          before ++ (whole ++ '.' :: fraction) ++ ('.' :: more ++ after) := by
        rw [htext, hliteral]
        simp
      exact hsplit hpoint
    · exact hsplit htext
  | unknownFunction name p | unknownIdentifier name p =>
    obtain ⟨-, q, rfl, after, ⟨before, htext, rfl, -⟩, -⟩ := h
    exact ⟨_, hsplit htext, rfl⟩
  | trailingInput ch p => exact ⟨p, hle h.1, rfl⟩
  | mismatchedParentheses p inCall =>
    refine ⟨p, ?_, rfl⟩
    obtain ⟨before, inside, after, htext, rfl, -⟩ | ⟨-, hp, -⟩ := h
    · have hopen : text.toList = before ++ '(' :: inside ++ after := by
        rw [htext]
        simp
      exact hsplit hopen
    · exact hle hp
  | nestingTooDeep p limit =>
    obtain ⟨-, ⟨ch, hch, -⟩ | ⟨e, hp⟩⟩ := h
    · exact ⟨p, hle hch, rfl⟩
    · exact ⟨p, hp.le_length, rfl⟩
  | domain _ | invalidName _ | badContext _ _ | host _ _ => exact h.elim

end Failure

namespace Reading

variable {r : Reading} {c : Context} {n : Nesting} {text : String} {e : Failure}

/-- What is left over tells the truth, too. -/
theorem finish_trueOf {α : Type} {P : Productions α} {a : α} {d : Cursor}
    (h : Parses P n (call text) a d) (he : r.finish a d = .error e) :
    e.TrueOf c r.nesting text := by
  obtain ⟨s, hs, hpass⟩ := Parses.phrased (l := .expression) h
  obtain ⟨bs, hb, hpass'⟩ := d.exists_passes_skipBlanks
  have hall := hpass.trans hpass'
  have hphrased : Phrased .expression (text.toList.take d.skipBlanks.position) := by
    rw [hall.toList, ← hall.length, List.take_left]
    exact hs.trailing hb
  obtain ⟨hp, rfl⟩ | ⟨ch, hne, hp, rfl⟩ := finish_error_cases he
  · exact .inr ⟨rfl, hall.getElem?.trans hp, hphrased⟩
  · exact ⟨hall.getElem?.trans hp, Cursor.not_isBlank_of_peek?_skipBlanks hp, hne, hphrased⟩

theorem trueOf_of_evaluate {E : Elementary} (hc : c.KeepsToValues)
    (h : r.evaluate E c text = .error e) (he : e.kind.isParse = true) :
    e.TrueOf c r.nesting text := by
  obtain ⟨e₀, hf, hreports⟩ | ⟨a, d, hp, hd⟩ := evaluate_error_cases h
  · obtain ⟨-, rfl⟩ | ⟨p, hp, rfl⟩ := hreports
    · exact hf.trueOf ⟨[], ⟨rfl, rfl⟩, expects_nil⟩ hc he
    · exact ⟨rfl, .inr ⟨e₀, hp⟩⟩
  · exact finish_trueOf hp hd

/-- A failure of an evaluation that concerns the text reports a position, also among its details,
and what it says of that position is true. -/
theorem evaluate_error_trueOf (E : Elementary) (c : Context) (r : Reading) (text : String)
    (e : Failure) (hc : c.KeepsToValues) (h : r.evaluate E c text = .error e)
    (he : e.kind.isParse = true) :
    ∃ p ≤ text.length, e.report.position = some (p : Int) ∧
      e.report.details.lookup "position" = some (.int p) ∧ e.TrueOf c r.nesting text := by
  have htrue : e.TrueOf c r.nesting text := trueOf_of_evaluate hc h he
  obtain ⟨p, hle, hp⟩ := htrue.exists_position
  exact ⟨p, hle, by rw [e.report_position, hp]; rfl, Failure.details_position hp, htrue⟩

/-- A name that an empty context lacks, found behind a sign, a parenthesis and a blank. -/
theorem evaluate_error_trueOf_name :
    (⟨⟨100, none⟩, true⟩ : Reading).evaluate Elementary.native (.empty "") "-( foo )" =
        .error (.unknownIdentifier "foo" (some 3)) ∧
      (Failure.unknownIdentifier "foo" (some 3)).TrueOf (.empty "") ⟨100, none⟩ "-( foo )" := by
  have h : (⟨⟨100, none⟩, true⟩ : Reading).evaluate Elementary.native (.empty "") "-( foo )" =
      .error (.unknownIdentifier "foo" (some 3)) := by
    refine run_eq_error_iff.2 (.inl (.within .first (.within .first ?_)))
    refine .within (.sign (s := .minus) rfl rfl) (.within (.base rfl rfl rfl) ?_)
    refine .within (.group rfl) (.within .first (.within .first ?_))
    exact .within (.base rfl rfl rfl) (.here (.constant rfl rfl rfl))
  have hc : (Context.empty "").KeepsToValues := fun hf => by cases hf
  obtain ⟨p, -, -, -, htrue⟩ := evaluate_error_trueOf _ _ _ _ _ hc h rfl
  exact ⟨h, htrue⟩

end Reading
end Reckoner
