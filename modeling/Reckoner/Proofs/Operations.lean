import Reckoner.Proofs.Grammar.Position
import Reckoner.Proofs.Longest

/-!
# Sequences of cursor operations

A cursor can be asked to do one thing after another, whatever it has answered before. Each operation
takes a piece of the text from where the last one stopped: blanks, a character, a name or a literal.
Main statement: over any sequence of operations the pieces are all of the text between the first and
the last position, in order, and an operation that fails has taken blanks only, except that a point
without digits is taken before it is refused.
-/
namespace Reckoner.Cursor

/-- What a cursor can be asked to do. -/
inductive Operation where
  | atEnd | peek | advance | skipBlanks | accept (wanted : Char) | scanIdentifier | scanNumber
deriving DecidableEq

/-- What a cursor answers. Skipping blanks has no answer. -/
inductive Answer where
  | nothing
  | truth (b : Bool)
  | character (ch : Option Char)
  | name (name : Option String)
  | number (x : Except Failure Float)

/-- Answers that report a failure. -/
def Answer.isFailure : Answer → Bool
  | truth false | character none | name none | number (.error _) => true
  | _ => false

/-- The answer to an operation and the cursor behind it. -/
def Operation.perform : Operation → Cursor → Answer × Cursor
  | atEnd, c => (.truth c.atEnd, c)
  | peek, c => (.character c.peek?, c)
  | advance, c => (.character c.advance.1, c.advance.2)
  | skipBlanks, c => (.nothing, c.skipBlanks)
  | accept wanted, c => (.truth (c.accept (some wanted)).1, (c.accept (some wanted)).2)
  | scanIdentifier, c => match c.scanIdentifier with
    | none => (.name none, c)
    | some (name, d) => (.name name, d)
  | scanNumber, c => (.number c.scanNumber.1, c.scanNumber.2)

/-- The text between two cursors. -/
def between (c d : Cursor) : List Char := c.rest.take (d.position - c.position)

/-- An operation that has been performed. -/
structure Step where
  operation : Operation
  answer : Answer
  before : Cursor
  after : Cursor

/-- What a step has taken from the text. -/
def Step.piece (s : Step) : List Char := s.before.between s.after

def Operation.step (o : Operation) (c : Cursor) : Step :=
  ⟨o, (o.perform c).1, c, (o.perform c).2⟩

/-- Operations performed one after the other, whatever they answer. -/
def steps : List Operation → Cursor → List Step
  | [], _ => []
  | o :: os, c => o.step c :: steps os (o.step c).after

/-- The cursor behind operations. -/
def after (os : List Operation) (c : Cursor) : Cursor := os.foldl (fun d o => (o.perform d).2) c

@[simp] theorem after_nil (c : Cursor) : after [] c = c := rfl

@[simp] theorem after_cons (o : Operation) (os : List Operation) (c : Cursor) :
    after (o :: os) c = after os (o.perform c).2 := rfl

theorem after_append (os os' : List Operation) (c : Cursor) :
    after (os ++ os') c = after os' (after os c) := List.foldl_append

/-! ## What one operation takes -/

/-- What an operation with its answer takes from the text, and what it leaves. -/
inductive Takes : Operation → Answer → List Char → List Char → Prop
  | atEnd {rest} : Takes .atEnd (.truth rest.isEmpty) [] rest
  | peek {rest} : Takes .peek (.character rest.head?) [] rest
  | advance {ch rest} : Takes .advance (.character (some ch)) [ch] rest
  | stay : Takes .advance (.character none) [] []
  | skipBlanks {bs rest} : Blanks bs → Stops isBlank rest → Takes .skipBlanks .nothing bs rest
  | accepted {wanted bs rest} : Blanks bs → isBlank wanted = false →
    Takes (.accept wanted) (.truth true) (bs ++ [wanted]) rest
  | declined {wanted bs rest} : Blanks bs → Stops isBlank rest → rest.head? ≠ some wanted →
    Takes (.accept wanted) (.truth false) bs rest
  | name {name : String} {rest} : isIdentifier name = true → Stops isIdentifierChar rest →
    Takes .scanIdentifier (.name name) name.toList rest
  | noName {rest} : Stops Char.isAlpha rest → Takes .scanIdentifier (.name none) [] rest
  | number {bs rest} (l : Literal) : Blanks bs → IsLongest IsLiteral l.chars (l.chars ++ rest) →
    Takes .scanNumber (.number (.ok l.value)) (bs ++ l.chars) rest
  | noNumber {bs rest position} : Blanks bs → Stops isBlank rest → Stops isMantissaChar rest →
    Takes .scanNumber (.number (.error (.expectedNumber position))) bs rest
  | points {bs run rest position} : Blanks bs → (∀ ch ∈ run, isMantissaChar ch = true) →
    2 ≤ run.count '.' → Stops isMantissaChar rest →
    Takes .scanNumber (.number (.error (.invalidNumber (String.ofList run) position)))
      bs (run ++ rest)
  | point {bs ds rest position} : Blanks bs → IsLongest IsExponent ds (ds ++ rest) →
    Takes .scanNumber (.number (.error (.invalidNumber (String.ofList ('.' :: ds)) position)))
      (bs ++ '.' :: ds) rest

variable {c d : Cursor} {s : List Char}

theorem Passes.refl (c : Cursor) : c.Passes [] c := ⟨rfl, rfl⟩

theorem Passes.position_le (h : c.Passes s d) : c.position ≤ d.position :=
  h.position ▸ Nat.le_add_right _ _

theorem Passes.between (h : c.Passes s d) : c.between d = s := by
  rw [Cursor.between, h.rest, h.position, Nat.add_sub_cancel_left, List.take_left]

theorem passes_drop {n : ℕ} (h : n ≤ c.rest.length) : c.Passes (c.rest.take n) (c.drop n) :=
  ⟨(List.take_append_drop n c.rest).symm, by simp [Nat.min_eq_left h]⟩

theorem passes_drop_length {s : List Char} (h : s <+: c.rest) : c.Passes s (c.drop s.length) := by
  have hpasses := passes_drop h.length_le
  rwa [← List.prefix_iff_eq_take.1 h] at hpasses

theorem stops_skipBlanks (c : Cursor) : Stops isBlank c.skipBlanks.rest := by
  rw [skipBlanks_rest]
  exact stops_dropWhile _ _

theorem exists_takes_advance (c : Cursor) :
    ∃ s, c.Passes s c.advance.2 ∧ Takes .advance (.character c.advance.1) s c.advance.2.rest := by
  obtain ⟨position, rest⟩ := c
  cases rest with
  | nil => exact ⟨[], .refl _, .stay⟩
  | cons ch cs => exact ⟨[ch], passes_drop_one rfl, .advance⟩

theorem exists_takes_accept (c : Cursor) (wanted : Char) :
    ∃ s, c.Passes s (c.accept (some wanted)).2 ∧
      Takes (.accept wanted) (.truth (c.accept (some wanted)).1) s
        (c.accept (some wanted)).2.rest := by
  rcases h : c.accept (some wanted) with ⟨_ | _, d⟩
  · obtain ⟨rfl, hne⟩ := accept_false h
    obtain ⟨bs, hb, hpasses⟩ := c.exists_passes_skipBlanks
    exact ⟨bs, hpasses, .declined hb c.stops_skipBlanks hne⟩
  · obtain ⟨bs, hb, hpasses⟩ := exists_passes_accept h
    have hpeek : c.skipBlanks.peek? = some wanted := by
      by_contra hne
      rw [accept_of_ne hne] at h
      cases h
    exact ⟨_, hpasses, .accepted hb (not_isBlank_of_peek?_skipBlanks hpeek)⟩

theorem exists_takes_scanIdentifier (c : Cursor) :
    ∃ s, c.Passes s (Operation.scanIdentifier.perform c).2 ∧
      Takes .scanIdentifier (Operation.scanIdentifier.perform c).1 s
        (Operation.scanIdentifier.perform c).2.rest := by
  rw [Operation.perform]
  cases h : c.scanIdentifier with
  | none => exact ⟨[], .refl c, .noName (scanIdentifier_eq_none_iff.1 h)⟩
  | some r =>
    exact ⟨_, passes_of_scanIdentifier h, .name (scanIdentifier_some h).1 (scanIdentifier_stops h)⟩

theorem exists_takes_scanNumber (c : Cursor) :
    ∃ s, c.Passes s c.scanNumber.2 ∧
      Takes .scanNumber (.number c.scanNumber.1) s c.scanNumber.2.rest := by
  obtain ⟨bs, hb, hpasses⟩ := c.exists_passes_skipBlanks
  have hsplit := List.takeWhile_append_dropWhile (p := isMantissaChar) (l := c.skipBlanks.rest)
  have hstops := stops_dropWhile isMantissaChar c.skipBlanks.rest
  by_cases hnil : c.skipBlanks.rest.takeWhile isMantissaChar = []
  · rw [scanNumber_of_nil hnil]
    exact ⟨bs, hpasses, .noNumber hb c.stops_skipBlanks (takeWhile_eq_nil_iff_stops.1 hnil)⟩
  by_cases hcount : 2 ≤ (c.skipBlanks.rest.takeWhile isMantissaChar).count '.'
  · rw [scanNumber_of_points hcount]
    refine ⟨bs, hpasses, ?_⟩
    nth_rewrite 3 [← hsplit]
    exact .points hb (fun _ hm => List.mem_takeWhile_imp hm) hcount hstops
  by_cases hpoint : c.skipBlanks.rest.takeWhile isMantissaChar = ['.']
  · obtain ⟨ds, hlongest, hscan⟩ := scanNumber_of_point hpoint
    rw [hpoint] at hsplit
    have hfront : '.' :: ds <+: c.skipBlanks.rest := by
      rw [← hsplit] at hlongest ⊢
      exact List.cons_prefix_cons.2 ⟨rfl, hlongest.front⟩
    have hliteral := passes_drop_length hfront
    rw [List.length_cons, Nat.add_comm] at hliteral
    have hrest := hliteral.rest
    rw [hrest, List.cons_append, List.drop_succ_cons, List.drop_zero] at hlongest
    rw [hscan]
    exact ⟨_, hpasses.trans hliteral, .point hb hlongest⟩
  · obtain ⟨l, hlongest, hscan⟩ := scanNumber_of_mantissa hnil (Nat.lt_of_not_le hcount) hpoint
    have hliteral := passes_drop_length hlongest.front
    rw [hscan]
    refine ⟨_, hpasses.trans hliteral, .number l hb ?_⟩
    rwa [← hliteral.rest]

theorem Operation.exists_takes (o : Operation) (c : Cursor) :
    ∃ s, c.Passes s (o.perform c).2 ∧ Takes o (o.perform c).1 s (o.perform c).2.rest := by
  cases o with
  | atEnd => exact ⟨[], .refl c, .atEnd⟩
  | peek => exact ⟨[], .refl c, .peek⟩
  | advance => exact c.exists_takes_advance
  | skipBlanks =>
    obtain ⟨bs, hb, hpasses⟩ := c.exists_passes_skipBlanks
    exact ⟨bs, hpasses, .skipBlanks hb c.stops_skipBlanks⟩
  | accept wanted => exact c.exists_takes_accept wanted
  | scanIdentifier => exact c.exists_takes_scanIdentifier
  | scanNumber => exact c.exists_takes_scanNumber

/-- What a failing operation takes: blanks, or a point without digits that is refused. -/
theorem Takes.of_isFailure {o : Operation} {a : Answer} {s rest : List Char}
    (h : Takes o a s rest) (ha : a.isFailure = true) :
    Blanks s ∨ ∃ bs ds position, o = .scanNumber ∧ Blanks bs ∧ IsExponent ds ∧
      a = .number (.error (.invalidNumber (String.ofList ('.' :: ds)) position)) ∧
      s = bs ++ '.' :: ds := by
  cases h with
  | atEnd | peek | stay | noName => exact .inl .nil
  | declined hb | noNumber hb | points hb => exact .inl hb
  | point hb hlongest => exact .inr ⟨_, _, _, rfl, hb, hlongest.form, rfl, rfl⟩
  | advance | skipBlanks | accepted | name | number => cases ha

/-! ## What a sequence of operations takes -/

/-- A cursor in a text or at its end. -/
structure Within (text : String) (c : Cursor) : Prop where
  eq_ofText : c = ofText text c.position
  le_length : c.position ≤ text.length

theorem within_ofText {text : String} {p : ℕ} (h : p ≤ text.length) : Within text (ofText text p) :=
  ⟨rfl, h⟩

theorem Within.passes {text : String} (hc : Within text c) (h : c.Passes s d) : Within text d := by
  have hrest : text.toList.drop c.position = s ++ d.rest := by
    rw [← h.rest]
    nth_rewrite 2 [hc.eq_ofText]
    rfl
  have hlength := congrArg List.length hrest
  rw [List.length_drop, String.length_toList, List.length_append] at hlength
  have hle := hc.le_length
  constructor
  · rw [ofText, h.position, ← List.drop_drop, hrest, List.drop_left, ← h.position]
  · rw [h.position]
    omega

/-- A step moves on in the text and takes what its operation and its answer say. If it fails, this
is nothing but blanks, except that a point without digits is taken before it is refused. -/
structure Step.Sound (text : String) (s : Step) : Prop where
  before : Within text s.before
  after : Within text s.after
  position_le : s.before.position ≤ s.after.position
  idle : s.operation = .atEnd ∨ s.operation = .peek → s.after = s.before
  takes : Takes s.operation s.answer s.piece s.after.rest
  fails : s.answer.isFailure = true → Blanks s.piece ∨
    ∃ bs ds position, s.operation = .scanNumber ∧ Blanks bs ∧ IsExponent ds ∧
      s.answer = .number (.error (.invalidNumber (String.ofList ('.' :: ds)) position)) ∧
      s.piece = bs ++ '.' :: ds

variable {text : String}

theorem Within.sound_step (hc : Within text c) (o : Operation) : (o.step c).Sound text := by
  obtain ⟨s, hpasses, htakes⟩ := o.exists_takes c
  rw [← hpasses.between] at htakes
  exact {
    before := hc
    after := hc.passes hpasses
    position_le := hpasses.position_le
    idle := by rintro (rfl | rfl) <;> rfl
    takes := htakes
    fails := htakes.of_isFailure }

theorem Within.sound_steps (hc : Within text c) (os : List Operation) :
    ∀ s ∈ steps os c, s.Sound text := by
  induction os generalizing c with
  | nil => simp [steps]
  | cons o os ih =>
    have hsound := hc.sound_step o
    exact List.forall_mem_cons.2 ⟨hsound, ih hsound.after⟩

/-- The positions of a sequence, the first one included. -/
def positions (os : List Operation) (c : Cursor) : List ℕ :=
  c.position :: (steps os c).map (·.after.position)

theorem positions_pairwise (os : List Operation) (c : Cursor) :
    (positions os c).Pairwise (· ≤ ·) := by
  rw [← List.isChain_iff_pairwise]
  induction os generalizing c with
  | nil => exact .singleton _
  | cons o os ih =>
    obtain ⟨s, hpasses, -⟩ := o.exists_takes c
    exact List.isChain_cons_cons.2 ⟨hpasses.position_le, ih _⟩

theorem passes_after (os : List Operation) (c : Cursor) :
    c.Passes ((steps os c).map Step.piece).flatten (after os c) := by
  induction os generalizing c with
  | nil => exact .refl c
  | cons o os ih =>
    obtain ⟨s, hpasses, -⟩ := o.exists_takes c
    have hpiece : (o.step c).piece = s := hpasses.between
    rw [steps, List.map_cons, List.flatten_cons, hpiece]
    exact hpasses.trans (ih _)

/-- No sequence of operations, failing ones included, loses, repeats or rereads a character. Every
step is sound, the position only moves on, to the end of the text at most, and what the steps take
is, in order, the text from the first position to the last. -/
theorem steps_take_all (text : String) {start : ℕ} (h : start ≤ text.length)
    (os : List Operation) :
    let c := ofText text start
    let stop := (after os c).position
    (∀ s ∈ steps os c, s.Sound text) ∧
    (positions os c).Pairwise (· ≤ ·) ∧ stop ≤ text.length ∧
    (text.toList.drop start).take (stop - start) = ((steps os c).map Step.piece).flatten := by
  intro c stop
  have hc : Within text c := within_ofText h
  have hpasses := passes_after os c
  exact ⟨hc.sound_steps os, positions_pairwise os c, (hc.passes hpasses).le_length,
    hpasses.between⟩

/-- A name is taken, then a blank before the character that is missing, then a point with an
exponent, which is no number. -/
theorem steps_take_all_point :
    let os := [.scanIdentifier, .accept '(', .scanNumber]
    let ss := steps os (ofText "2a .e5" 1)
    1 ≤ "2a .e5".length ∧ (∀ s ∈ ss, s.Sound "2a .e5") ∧
      ss.map (·.answer.isFailure) = [false, true, true] ∧
      [['a'], [' '], ['.', 'e', '5']] = ss.map Step.piece ∧
      ['a', ' ', '.', 'e', '5'] = (ss.map Step.piece).flatten := by
  intro os ss
  obtain ⟨hsound, -, -, hall⟩ := steps_take_all "2a .e5" (by decide : 1 ≤ "2a .e5".length) os
  exact ⟨by decide, hsound, by rfl, by rfl, hall⟩

end Reckoner.Cursor
