import Reckoner.Proofs.Identifiers
import Reckoner.Proofs.Malformed
import Reckoner.Proofs.Shown

/-!
# Longest literals

After blanks a number is scanned as the longest literal in front of the text. The run of digits and
points that starts there tells what happens: it may be empty, have a second point or be a point
alone, and otherwise it is a mantissa, to which an exponent belongs as far as it is complete.
-/
namespace Reckoner

open Grammar

/-- The longest text of a form in front of a text. -/
structure IsLongest (p : List Char → Prop) (ds cs : List Char) : Prop where
  form : p ds
  front : ds <+: cs
  longest : ∀ es, p es → es <+: cs → es.length ≤ ds.length

/-- A text that is a literal. -/
def IsLiteral (cs : List Char) : Prop := ∃ l : Literal, l.chars = cs

/-- A text that is a complete exponent, or none. -/
def IsExponent (cs : List Char) : Prop := ∃ x : Option Exponent, (x.map Exponent.chars).getD [] = cs

/-- There is a digit beside the point. -/
theorem Literal.mantissa_ne_point (l : Literal) : l.mantissa ≠ ['.'] := by
  intro h
  have hdigits := l.digits_ne_nil
  cases hf : l.fraction with
  | none =>
    rw [mantissa, hf, point, List.append_nil] at h
    exact absurd (l.isDigit_whole '.' (by simp [h])) (by decide)
  | some ds =>
    rw [hf, Option.getD_some, ne_eq, List.append_eq_nil_iff] at hdigits
    rw [mantissa, hf, point, List.append_eq_singleton_iff] at h
    simp_all

namespace Exponent

/-- All digits behind an exponent belong to it. -/
theorem length_le_exponentLength (x : Exponent) (r : List Char) :
    x.chars.length ≤ Cursor.exponentLength (x.chars ++ r) := by
  have hdigits : ∀ c ∈ x.digits ++ r.takeWhile Char.isDigit, c.isDigit = true :=
    Number.isDigit_append x.isDigit_digits fun _ hc => List.mem_takeWhile_imp hc
  let y : Exponent :=
    { x with
      digits := x.digits ++ r.takeWhile Char.isDigit
      digits_ne_nil := by simp [x.digits_ne_nil]
      isDigit_digits := hdigits }
  have hy : x.chars ++ r = y.chars ++ r.dropWhile Char.isDigit := by
    simp [chars, y, List.takeWhile_append_dropWhile]
  rw [hy, Cursor.exponentLength_append y (stops_dropWhile _ _)]
  simp [chars, y]

end Exponent

namespace Cursor

theorem isLongest_exponent (cs : List Char) :
    IsLongest IsExponent (cs.take (exponentLength cs)) cs where
  form := (exists_exponent cs).imp fun _ hx => hx.symm
  front := List.take_prefix _ _
  longest := by
    rintro _ ⟨x, rfl⟩ ⟨r, rfl⟩
    rw [List.length_take, Nat.min_eq_left (exponentLength_le _)]
    cases x with
    | none => exact Nat.zero_le _
    | some x => exact x.length_le_exponentLength r

/-- A literal in front of a text ends with the run or with the exponent behind it. -/
theorem length_le_literalLength (l : Literal) (r : List Char) :
    l.chars.length ≤ literalLength (l.chars ++ r) := by
  have hrun := isMantissaChar_mantissa l
  rw [Literal.chars, List.append_assoc, List.length_append, literalLength]
  cases hx : l.exponent with
  | none =>
    have hle : l.mantissa.length ≤ ((l.mantissa ++ r).takeWhile isMantissaChar).length := by
      rw [List.takeWhile_append_of_pos hrun, List.length_append]
      exact Nat.le_add_right _ _
    simpa using Nat.le_add_right_of_le hle
  | some x =>
    have hstops : Stops isMantissaChar (x.chars ++ r) := by
      have hletter := Number.stops_exponent (p := isMantissaChar) rfl rfl (some x)
      simpa [Stops, Exponent.chars] using hletter
    have htake := takeWhile_run hrun hstops
    have hle := x.length_le_exponentLength r
    simp only [Option.map_some, Option.getD_some]
    rw [htake, List.drop_left]
    exact Nat.add_le_add_left hle _

theorem isLongest_literal {cs : List Char} (h : IsLiteral (cs.take (literalLength cs))) :
    IsLongest IsLiteral (cs.take (literalLength cs)) cs where
  form := h
  front := List.take_prefix _ _
  longest := by
    rintro _ ⟨l, rfl⟩ ⟨r, rfl⟩
    rw [List.length_take, Nat.min_eq_left (literalLength_le _)]
    exact length_le_literalLength l r

/-! ## The four outcomes -/

variable {c : Cursor}

theorem scanNumber_of_nil (h : c.skipBlanks.rest.takeWhile isMantissaChar = []) :
    c.scanNumber = (.error (.expectedNumber c.skipBlanks.position), c.skipBlanks) := by
  simp [scanNumber, h]

theorem scanNumber_of_points (h : 2 ≤ (c.skipBlanks.rest.takeWhile isMantissaChar).count '.') :
    c.scanNumber = (.error (.invalidNumber
      (String.ofList (c.skipBlanks.rest.takeWhile isMantissaChar))
      (c.skipBlanks.position + secondPoint (c.skipBlanks.rest.takeWhile isMantissaChar))),
      c.skipBlanks) := by
  have hne : c.skipBlanks.rest.takeWhile isMantissaChar ≠ [] := by
    intro hnil
    rw [hnil] at h
    cases h
  rw [scanNumber]
  simp only [List.isEmpty_iff, if_neg hne]
  exact if_pos h

/-- A run with one point at most is taken with the exponent behind it. -/
theorem scanNumber_of_run (hne : c.skipBlanks.rest.takeWhile isMantissaChar ≠ [])
    (hcount : (c.skipBlanks.rest.takeWhile isMantissaChar).count '.' < 2) :
    c.scanNumber =
      (match Number.literal? (c.skipBlanks.rest.take (literalLength c.skipBlanks.rest)) with
        | some d => .ok d.toFloat
        | none => .error (.invalidNumber
          (String.ofList (c.skipBlanks.rest.take (literalLength c.skipBlanks.rest)))
          c.skipBlanks.position),
      c.skipBlanks.drop (literalLength c.skipBlanks.rest)) := by
  rw [scanNumber]
  simp only [List.isEmpty_iff, if_neg hne, if_neg (Nat.not_lt.2 (Nat.le_of_lt_succ hcount))]
  rw [literalLength]
  generalize Number.literal? _ = d
  cases d <;> rfl

theorem take_literalLength (cs : List Char) :
    cs.take (literalLength cs) = cs.takeWhile isMantissaChar ++
      (cs.dropWhile isMantissaChar).take (exponentLength (cs.dropWhile isMantissaChar)) := by
  have hsplit := List.takeWhile_append_dropWhile (p := isMantissaChar) (l := cs)
  rw [literalLength]
  generalize cs.takeWhile isMantissaChar = run at *
  generalize cs.dropWhile isMantissaChar = rest at *
  rw [← hsplit, List.drop_left, List.take_length_add_append]

theorem length_take_literalLength (cs : List Char) :
    (cs.take (literalLength cs)).length = literalLength cs := by
  rw [List.length_take, Nat.min_eq_left (literalLength_le cs)]

theorem takeWhile_point {rest : List Char} (h : Stops isMantissaChar rest) :
    ('.' :: rest).takeWhile isMantissaChar = ['.'] := by
  rw [List.takeWhile_cons_of_pos rfl, h.takeWhile]

/-- A point is no literal, whatever exponent is behind it. -/
theorem literal?_point {ds : List Char} (h : IsExponent ds) : Number.literal? ('.' :: ds) = none := by
  obtain ⟨x, rfl⟩ := h
  cases hl : Number.literal? ('.' :: (x.map Exponent.chars).getD []) with
  | none => rfl
  | some d =>
    obtain ⟨l, hchars, -⟩ := Number.literal?_eq_some_iff.1 hl
    have hmantissa : l.mantissa = ['.'] := by
      rw [← takeWhile_run (isMantissaChar_mantissa l) (Number.stops_exponent rfl rfl l.exponent),
        ← Literal.chars, hchars]
      exact takeWhile_point (Number.stops_exponent rfl rfl x)
    exact absurd hmantissa l.mantissa_ne_point

theorem scanNumber_of_point (h : c.skipBlanks.rest.takeWhile isMantissaChar = ['.']) :
    ∃ ds, IsLongest IsExponent ds (c.skipBlanks.rest.drop 1) ∧
      c.scanNumber = (.error (.invalidNumber (String.ofList ('.' :: ds)) c.skipBlanks.position),
        c.skipBlanks.drop (1 + ds.length)) := by
  have hsplit := List.takeWhile_append_dropWhile (p := isMantissaChar) (l := c.skipBlanks.rest)
  have htake := take_literalLength c.skipBlanks.rest
  have hlength := length_take_literalLength c.skipBlanks.rest
  rw [h] at hsplit htake
  have hrest : c.skipBlanks.rest.dropWhile isMantissaChar = c.skipBlanks.rest.drop 1 := by
    nth_rewrite 2 [← hsplit]
    rfl
  rw [hrest] at htake
  have hlongest := isLongest_exponent (c.skipBlanks.rest.drop 1)
  generalize (c.skipBlanks.rest.drop 1).take _ = ds at htake hlongest
  refine ⟨ds, hlongest, ?_⟩
  rw [scanNumber_of_run (by simp [h]) (by simp [h]), htake, ← hlength, htake]
  simp only [List.singleton_append, literal?_point hlongest.form, List.length_cons, Nat.add_comm]

theorem scanNumber_of_mantissa (hne : c.skipBlanks.rest.takeWhile isMantissaChar ≠ [])
    (hcount : (c.skipBlanks.rest.takeWhile isMantissaChar).count '.' < 2)
    (hpoint : c.skipBlanks.rest.takeWhile isMantissaChar ≠ ['.']) :
    ∃ l : Literal, IsLongest IsLiteral l.chars c.skipBlanks.rest ∧
      c.scanNumber = (.ok l.value, c.skipBlanks.drop l.chars.length) := by
  have hrun : ∀ ch ∈ c.skipBlanks.rest.takeWhile isMantissaChar, isMantissaChar ch = true :=
    fun _ hm => List.mem_takeWhile_imp hm
  have hlength := length_take_literalLength c.skipBlanks.rest
  have hscan := scanNumber_of_run hne hcount
  cases hl : Number.literal? (c.skipBlanks.rest.take (literalLength c.skipBlanks.rest)) with
  | none =>
    rw [take_literalLength] at hl
    exact absurd (eq_point_of_literal? hrun hne (Nat.le_of_lt_succ hcount) hl) hpoint
  | some d =>
    obtain ⟨l, hchars, rfl⟩ := Number.literal?_eq_some_iff.1 hl
    refine ⟨l, hchars ▸ isLongest_literal ⟨l, hchars⟩, ?_⟩
    rw [hscan, hl, hchars, hlength]
    rfl

/-! ## When each of them comes -/

theorem takeWhile_eq_nil_iff_stops {p : Char → Bool} {cs : List Char} :
    cs.takeWhile p = [] ↔ Stops p cs := by
  refine ⟨fun h => ?_, Stops.takeWhile⟩
  have hsplit := List.takeWhile_append_dropWhile (p := p) (l := cs)
  rw [h, List.nil_append] at hsplit
  exact hsplit ▸ stops_dropWhile p cs

theorem scanNumber_eq_expected_iff :
    c.scanNumber = (.error (.expectedNumber c.skipBlanks.position), c.skipBlanks) ↔
      Stops isMantissaChar c.skipBlanks.rest := by
  constructor
  · intro h
    cases scanNumber_malformed h with
    | missing hstops => exact hstops
  · intro h
    exact scanNumber_of_nil h.takeWhile

theorem scanNumber_eq_points_iff :
    (∃ whole fraction more, c.skipBlanks.rest.takeWhile isMantissaChar =
        whole ++ '.' :: (fraction ++ '.' :: more) ∧ '.' ∉ whole ∧ '.' ∉ fraction ∧
      c.scanNumber = (.error (.invalidNumber
        (String.ofList (c.skipBlanks.rest.takeWhile isMantissaChar))
        (c.skipBlanks.position + (whole ++ '.' :: fraction).length)), c.skipBlanks)) ↔
      2 ≤ (c.skipBlanks.rest.takeWhile isMantissaChar).count '.' := by
  constructor
  · rintro ⟨whole, fraction, more, hrun, -, -, -⟩
    rw [hrun]
    simp only [List.count_append, List.count_cons_self]
    omega
  · intro h
    obtain ⟨whole, fraction, more, hrun, hwhole, hfraction, hsecond⟩ := exists_secondPoint h
    exact ⟨whole, fraction, more, hrun, hwhole, hfraction, hsecond ▸ scanNumber_of_points h⟩

theorem scanNumber_eq_point_iff :
    (∃ ds, IsLongest IsExponent ds (c.skipBlanks.rest.drop 1) ∧
      c.scanNumber = (.error (.invalidNumber (String.ofList ('.' :: ds)) c.skipBlanks.position),
        c.skipBlanks.drop (1 + ds.length))) ↔
      c.skipBlanks.rest.takeWhile isMantissaChar = ['.'] := by
  refine ⟨?_, scanNumber_of_point⟩
  rintro ⟨ds, -, h⟩
  have hmalformed := scanNumber_malformed h
  generalize hp : c.skipBlanks.position = p at hmalformed
  generalize String.ofList ('.' :: ds) = literal at hmalformed
  cases hmalformed with
  | points => simp at hp
  | point hrest hstops =>
    rw [hrest]
    exact takeWhile_point hstops

theorem scanNumber_eq_literal_iff :
    (∃ ds x, IsLongest IsLiteral ds c.skipBlanks.rest ∧
      Number.typed? (String.ofList ds) = some x ∧
      c.scanNumber = (.ok x, c.skipBlanks.drop ds.length)) ↔
      ¬Stops isMantissaChar c.skipBlanks.rest ∧
      (c.skipBlanks.rest.takeWhile isMantissaChar).count '.' < 2 ∧
      c.skipBlanks.rest.takeWhile isMantissaChar ≠ ['.'] := by
  rw [← takeWhile_eq_nil_iff_stops]
  constructor
  · rintro ⟨ds, x, -, -, h⟩
    obtain ⟨hne, hcount, -⟩ := scanNumber_eq_ok_iff.1 h
    refine ⟨hne, Nat.lt_succ_of_le hcount, fun hpoint => ?_⟩
    obtain ⟨_, -, herror⟩ := scanNumber_of_point hpoint
    rw [h] at herror
    cases herror
  · rintro ⟨hne, hcount, hpoint⟩
    obtain ⟨l, hlongest, hscan⟩ := scanNumber_of_mantissa hne hcount hpoint
    exact ⟨l.chars, l.value, hlongest, Number.typed?_signed false l, hscan⟩

/-- What is behind a position that blanks are skipped to. -/
theorem skipBlanks_ofText (text : String) (offset : ℕ) :
    (ofText text offset).skipBlanks =
      ofText text (offset + ((text.toList.drop offset).takeWhile isBlank).length) := by
  simp [skipBlanks, drop, ofText]

theorem drop_ofText (text : String) (offset n : ℕ) :
    (ofText text offset).drop n = ofText text (offset + n) := by
  simp [drop, ofText]

end Cursor

namespace Reading

variable {α : Type}

/-- A text that is a literal is its number in every reading that lets a factor in. -/
theorem run_literal (r : Reading) (P : Productions α) (l : Literal) :
    r.run P (String.ofList l.chars) =
      if r.nesting.refuses { factors := 1 } then .error (.nestingTooDeep 0 r.nesting.guard)
      else .ok (P.number l.value) := by
  obtain ⟨ch, cs, hchars, hch⟩ := exists_head_literal l
  set c := Cursor.ofText (String.ofList l.chars) 0 with hc
  have hrest : c.rest = l.chars ++ [] := by simp [hc, Cursor.ofText]
  have hskip : c.skipBlanks = c := by
    have hblank : isBlank ch = false := isBlank_of_isOpening (by simp [isOpening, hch])
    rw [hc, Cursor.skipBlanks_ofText]
    simp [hchars, hblank]
  obtain ⟨first, hpeek, hsign⟩ := (opens_number l).exists_peek? (hskip.symm ▸ hrest)
  by_cases hn : r.nesting.refuses { factors := 1 } = true
  · have hfactor : Fails (P.reporting r.nesting.guard) r.nesting (.factor c {})
        (.nestingTooDeep c.skipBlanks.position _) := .here (.tooDeep hpeek hn)
    rw [hskip] at hfactor
    rw [if_pos hn]
    exact run_eq_error_iff.2 (.inl (.within .first (.within .first hfactor)))
  · obtain ⟨d, hscan, hend⟩ := Cursor.scanNumber_of_rest (c := c.skipBlanks)
      (by rw [hskip, hskip, hrest]) (by simp [Stops])
    have hskipped : c.skipBlanks.rest = ch :: cs := by rw [hskip, hrest, hchars, List.append_nil]
    have hgroup : c.skipBlanks.peek? ≠ some '(' := by
      rw [Cursor.peek?, hskipped]
      rintro ⟨⟩
      exact absurd hch (by decide)
    rw [if_neg hn]
    refine run_of_primary (by simpa using hn) hpeek hsign (d := d) ?_
      (by rw [Cursor.skipBlanks_rest, hend]; rfl)
    rw [Call.run_primary, ← hc, if_neg hgroup,
      Cursor.scanIdentifier_of_not_isAlpha hskipped (isAlpha_of_isMantissaChar hch)]
    simp only [hscan]
    rfl

end Reading

namespace Cursor

/-- After blanks a number is scanned as the longest literal there. Nothing is one where neither a
digit nor a point stands; a run with two points fails at the second one, and a point alone fails
where it stands, after the exponent behind it has been taken. A text that is a literal as a whole
has the value that it is typed as. -/
theorem scanNumber_longest (text : String) (offset : ℕ) :
    let s := offset + ((text.toList.drop offset).takeWhile isBlank).length
    let tail := text.toList.drop s
    let run := tail.takeWhile isMantissaChar
    let scan := (ofText text offset).scanNumber
    (scan = (.error (.expectedNumber s), .ofText text s) ↔ Stops isMantissaChar tail) ∧
    ((∃ whole fraction more, run = whole ++ '.' :: (fraction ++ '.' :: more) ∧
        '.' ∉ whole ∧ '.' ∉ fraction ∧
        scan = (.error (.invalidNumber (String.ofList run) (s + (whole ++ '.' :: fraction).length)),
          .ofText text s)) ↔
      2 ≤ run.count '.') ∧
    ((∃ ds, IsLongest IsExponent ds (tail.drop 1) ∧
        scan = (.error (.invalidNumber (String.ofList ('.' :: ds)) s),
          .ofText text (s + (1 + ds.length)))) ↔
      run = ['.']) ∧
    ((∃ ds x, IsLongest IsLiteral ds tail ∧ Number.typed? (String.ofList ds) = some x ∧
        scan = (.ok x, .ofText text (s + ds.length))) ↔
      ¬Stops isMantissaChar tail ∧ run.count '.' < 2 ∧ run ≠ ['.']) ∧
    ∀ l : Literal, ∃ x, Number.typed? (String.ofList l.chars) = some x ∧
      ∀ (E : Elementary) (c : Context) (r : Reading), r.evaluate E c (String.ofList l.chars) =
        if r.nesting.refuses { factors := 1 } then .error (.nestingTooDeep 0 r.nesting.guard)
        else .ok x := by
  intro s tail run scan
  have hskip : (ofText text offset).skipBlanks = ofText text s := skipBlanks_ofText text offset
  have hexpected := scanNumber_eq_expected_iff (c := ofText text offset)
  have hpoints := scanNumber_eq_points_iff (c := ofText text offset)
  have hpoint := scanNumber_eq_point_iff (c := ofText text offset)
  have hliteral := scanNumber_eq_literal_iff (c := ofText text offset)
  simp only [hskip, drop_ofText] at hexpected hpoints hpoint hliteral
  exact ⟨hexpected, hpoints, hpoint, hliteral, fun l =>
    ⟨l.value, Number.typed?_signed false l, fun E c r => Reading.run_literal r _ l⟩⟩

end Cursor
end Reckoner
