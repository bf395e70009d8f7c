import Reckoner.Proofs.Literal

/-!
# Scanning

What each operation of a cursor takes from the text, and that it takes a whole token where the text
goes on with something else.
-/
namespace Reckoner

/-- A run of blanks. -/
def Blanks (cs : List Char) : Prop := ∀ c ∈ cs, isBlank c = true

theorem Blanks.nil : Blanks [] := by simp [Blanks]

theorem Blanks.append {cs ds : List Char} (hc : Blanks cs) (hd : Blanks ds) :
    Blanks (cs ++ ds) := by
  intro c h
  rcases List.mem_append.1 h with h | h
  · exact hc c h
  · exact hd c h

theorem Blanks.dropWhile {bs : List Char} (h : Blanks bs) (cs : List Char) :
    (bs ++ cs).dropWhile isBlank = cs.dropWhile isBlank :=
  List.dropWhile_append_of_pos h

/-- A character that would go on with a name or a literal. -/
def isJoined (c : Char) : Bool := isIdentifierChar c || c = '.'

theorem isJoined_of_isDigit {c : Char} (h : c.isDigit = true) : isJoined c = true := by
  simp [isJoined, isIdentifierChar, Char.isAlphanum, h]

theorem isJoined_of_isIdentifierChar {c : Char} (h : isIdentifierChar c = true) :
    isJoined c = true := by simp [isJoined, h]

theorem isJoined_of_isMantissaChar {c : Char} (h : isMantissaChar c = true) :
    isJoined c = true := by
  simp only [isMantissaChar, Bool.or_eq_true, decide_eq_true_eq] at h
  rcases h with h | rfl
  · exact isJoined_of_isDigit h
  · rfl

theorem isAlpha_of_isMantissaChar {c : Char} (h : isMantissaChar c = true) :
    c.isAlpha = false := by
  simp only [isMantissaChar, Bool.or_eq_true, decide_eq_true_eq] at h
  rcases h with h | rfl
  · simp only [Char.isDigit, Char.isAlpha, Char.isUpper, Char.isLower, Bool.and_eq_true,
      decide_eq_true_eq, ge_iff_le, Bool.or_eq_false_iff, Bool.and_eq_false_iff,
      decide_eq_false_iff_not, UInt32.le_iff_toNat_le] at h ⊢
    have : 'A'.val.toNat = 65 := rfl
    have : 'a'.val.toNat = 97 := rfl
    have : '9'.val.toNat = 57 := rfl
    omega
  · rfl

theorem not_isJoined_of_isBlank {c : Char} (h : isBlank c = true) : isJoined c = false := by
  simp only [isBlank, Bool.or_eq_true, decide_eq_true_eq] at h
  rcases h with rfl | rfl <;> rfl

namespace Cursor

/-- The characters that are skipped before a token. -/
theorem exists_blanks (c : Cursor) : ∃ bs, Blanks bs ∧ c.rest = bs ++ c.skipBlanks.rest := by
  refine ⟨c.rest.takeWhile isBlank, fun _ h => List.mem_takeWhile_imp h, ?_⟩
  rw [skipBlanks_rest, List.takeWhile_append_dropWhile]

theorem rest_eq_of_peek? {c : Cursor} {ch : Char} (h : c.peek? = some ch) :
    c.rest = ch :: (c.drop 1).rest := by
  obtain ⟨cs, hcs⟩ := List.head?_eq_some_iff.1 h
  simp [hcs]

theorem accept_true {c d : Cursor} {ch : Char} (h : c.accept (some ch) = (true, d)) :
    ∃ bs, Blanks bs ∧ c.rest = bs ++ ch :: d.rest := by
  unfold accept at h
  split at h
  · rename_i hp
    obtain rfl : c.skipBlanks.drop 1 = d := by simpa using h
    obtain ⟨bs, hb, hc⟩ := c.exists_blanks
    exact ⟨bs, hb, by rw [hc, rest_eq_of_peek? hp]⟩
  · simp at h

theorem accept_false {c d : Cursor} {ch : Char} (h : c.accept (some ch) = (false, d)) :
    d = c.skipBlanks ∧ c.skipBlanks.peek? ≠ some ch := by
  unfold accept at h
  split at h
  · simp at h
  · rename_i hp
    exact ⟨by simpa using h.symm, hp⟩

theorem accept_of_rest {c : Cursor} {ch : Char} {r : List Char}
    (h : c.skipBlanks.rest = ch :: r) :
    c.accept (some ch) = (true, c.skipBlanks.drop 1) ∧ (c.skipBlanks.drop 1).rest = r := by
  simp [accept, peek?, h]

theorem accept_of_ne {c : Cursor} {ch : Char} (h : c.skipBlanks.peek? ≠ some ch) :
    c.accept (some ch) = (false, c.skipBlanks) := if_neg h

/-! ## Names -/

theorem scanIdentifier_some {c d : Cursor} {name : String}
    (h : c.scanIdentifier = some (name, d)) :
    isIdentifier name = true ∧ c.rest = name.toList ++ d.rest := by
  unfold scanIdentifier at h
  split at h
  · cases h
  · rename_i ch cs hr
    split at h
    · rename_i ha
      simp only [Option.some.injEq, Prod.mk.injEq] at h
      obtain ⟨rfl, rfl⟩ := h
      constructor
      · simp only [isIdentifier, String.toList_ofList, ha, Bool.true_and, List.all_eq_true]
        exact fun _ hc => List.mem_takeWhile_imp hc
      · simp only [String.toList_ofList, drop_rest, hr]
        have := List.prefix_iff_eq_append.1 (cs.takeWhile_prefix isIdentifierChar)
        simp [this]
    · cases h

/-- An identifier is taken as a whole. -/
theorem scanIdentifier_stops {c d : Cursor} {name : String}
    (h : c.scanIdentifier = some (name, d)) : Stops isIdentifierChar d.rest := by
  unfold scanIdentifier at h
  split at h
  · cases h
  · rename_i ch cs hr
    split at h
    · simp only [Option.some.injEq, Prod.mk.injEq] at h
      obtain ⟨-, rfl⟩ := h
      have hrun := List.prefix_iff_eq_append.1 (cs.takeWhile_prefix isIdentifierChar)
      have hdrop : cs.drop (cs.takeWhile isIdentifierChar).length = cs.dropWhile isIdentifierChar :=
        List.append_cancel_left (hrun.trans List.takeWhile_append_dropWhile.symm)
      rw [drop_rest, hr, List.length_cons, List.drop_succ_cons, hdrop]
      exact stops_dropWhile _ _
    · cases h

theorem scanIdentifier_of_rest {c : Cursor} {name : String} {r : List Char}
    (hn : isIdentifier name = true) (h : c.rest = name.toList ++ r)
    (hr : Stops isIdentifierChar r) :
    ∃ d, c.scanIdentifier = some (name, d) ∧ d.rest = r := by
  unfold isIdentifier at hn
  split at hn
  · cases hn
  · rename_i ch cs hname
    obtain ⟨ha, hcs⟩ := (Bool.and_eq_true _ _).mp hn
    rw [List.all_eq_true] at hcs
    rw [hname, List.cons_append] at h
    refine ⟨c.drop (ch :: cs).length, ?_, by simp [h]⟩
    unfold scanIdentifier
    rw [h]
    simp only [ha, if_true, takeWhile_run hcs hr]
    rw [← hname, String.ofList_toList]

theorem scanIdentifier_of_not_isAlpha {c : Cursor} {ch : Char} {r : List Char}
    (h : c.rest = ch :: r) (ha : ch.isAlpha = false) : c.scanIdentifier = none := by
  unfold scanIdentifier
  rw [h]
  simp [ha]

/-! ## Numbers -/

theorem isMantissaChar_mantissa (l : Literal) : ∀ c ∈ l.mantissa, isMantissaChar c = true := by
  intro c hc
  simp only [Literal.mantissa, List.mem_append] at hc
  simp only [isMantissaChar, Bool.or_eq_true, decide_eq_true_eq]
  rcases hc with hc | hc
  · exact .inl (l.isDigit_whole c hc)
  · cases hf : l.fraction with
    | none => simp [hf, Literal.point] at hc
    | some ds =>
      simp only [hf, Literal.point, List.mem_cons] at hc
      rcases hc with hc | hc
      · exact .inr hc
      · exact .inl (l.isDigit_fraction ds hf c hc)

theorem count_point_of_isDigit {ds : List Char} (h : ∀ c ∈ ds, c.isDigit = true) :
    ds.count '.' = 0 := by
  refine List.count_eq_zero.2 fun hc => ?_
  have := h _ hc
  simp at this

theorem count_point_mantissa (l : Literal) : l.mantissa.count '.' ≤ 1 := by
  simp only [Literal.mantissa, List.count_append, count_point_of_isDigit l.isDigit_whole]
  cases hf : l.fraction with
  | none => simp [Literal.point]
  | some ds => simp [Literal.point, count_point_of_isDigit (l.isDigit_fraction ds hf)]

theorem exponent?_of_not_letter {cs : List Char} (he : Stops isJoined cs) :
    Number.exponent? cs = none := by
  rcases cs with _ | ⟨c, cs⟩
  · rfl
  · have hc : isJoined c = false := he c rfl
    have h : c ≠ 'e' ∧ c ≠ 'E' := by
      constructor <;> rintro rfl <;> exact absurd hc (by decide)
    simp [Number.exponent?, h]

theorem exponentLength_append (x : Exponent) {r : List Char} (hr : Stops Char.isDigit r) :
    exponentLength (x.chars ++ r) = x.chars.length := by
  have hx : Number.exponent? (x.chars ++ r) = some (x.value, r) :=
    Number.exponent?_eq_some_iff.2 ⟨x, rfl, rfl, hr⟩
  simp [exponentLength, hx]

theorem exponentLength_of_rest (x : Option Exponent) {r : List Char}
    (hr : Stops isJoined r) :
    exponentLength ((x.map Exponent.chars).getD [] ++ r) =
      ((x.map Exponent.chars).getD []).length := by
  rcases x with _ | x
  · simp [exponentLength, exponent?_of_not_letter hr]
  · exact exponentLength_append x (hr.mono fun _ => isJoined_of_isDigit)

/-- A literal is taken as a whole unless a name or a literal goes on behind it. -/
theorem scanNumber_of_rest {c : Cursor} {l : Literal} {r : List Char}
    (h : c.skipBlanks.rest = l.chars ++ r) (hr : Stops isJoined r) :
    ∃ d, c.scanNumber = (.ok l.value, d) ∧ d.rest = r := by
  have hm : Stops isMantissaChar ((l.exponent.map Exponent.chars).getD [] ++ r) := by
    cases l.exponent with
    | none => exact hr.mono fun _ => isJoined_of_isMantissaChar
    | some x =>
      have := Number.stops_exponent (p := isMantissaChar) rfl rfl (some x)
      simpa [Stops, Exponent.chars] using this
  rw [Literal.chars, List.append_assoc] at h
  have hrun : c.skipBlanks.rest.takeWhile isMantissaChar = l.mantissa := by
    rw [h, takeWhile_run (isMantissaChar_mantissa l) hm]
  have hne : l.mantissa.isEmpty = false := by
    have := l.digits_ne_nil
    cases hf : l.fraction <;> simp_all [Literal.mantissa, Literal.point]
  have hsize : l.mantissa.length + exponentLength (c.skipBlanks.rest.drop l.mantissa.length) =
      l.chars.length := by
    rw [h, List.drop_left, exponentLength_of_rest _ hr, Literal.chars, List.length_append]
  have htake : c.skipBlanks.rest.take l.chars.length = l.chars := by
    rw [h, ← List.append_assoc, ← Literal.chars, List.take_left]
  have hd : Number.literal? l.chars = some l.decimal :=
    Number.literal?_eq_some_iff.2 ⟨l, rfl, rfl⟩
  refine ⟨c.skipBlanks.drop l.chars.length, ?_, ?_⟩
  · unfold scanNumber
    simp only [hrun, hne, hsize, htake, hd, Bool.false_eq_true, if_false,
      if_neg (Nat.not_lt.2 (count_point_mantissa l))]
    rfl
  · rw [drop_rest, h, ← List.append_assoc, ← Literal.chars, List.drop_left]

/-- The number of characters of the longest literal at the front, as far as its form goes. -/
def literalLength (cs : List Char) : Nat :=
  (cs.takeWhile isMantissaChar).length +
    exponentLength (cs.drop (cs.takeWhile isMantissaChar).length)

theorem exponentLength_le (cs : List Char) : exponentLength cs ≤ cs.length := by
  unfold exponentLength
  split
  · exact Nat.sub_le _ _
  · exact Nat.zero_le _

theorem literalLength_le (cs : List Char) : literalLength cs ≤ cs.length := by
  have hrun : (cs.takeWhile isMantissaChar).length ≤ cs.length :=
    (List.takeWhile_prefix _).length_le
  have hexponent := exponentLength_le (cs.drop (cs.takeWhile isMantissaChar).length)
  rw [List.length_drop] at hexponent
  unfold literalLength
  omega

/-- When a number is scanned. -/
theorem scanNumber_eq_ok_iff {c d : Cursor} {x : Float} :
    c.scanNumber = (.ok x, d) ↔
      c.skipBlanks.rest.takeWhile isMantissaChar ≠ [] ∧
      (c.skipBlanks.rest.takeWhile isMantissaChar).count '.' ≤ 1 ∧
      (∃ y, Number.literal? (c.skipBlanks.rest.take (literalLength c.skipBlanks.rest)) = some y ∧
        y.toFloat = x) ∧
      c.skipBlanks.drop (literalLength c.skipBlanks.rest) = d := by
  generalize hsize : literalLength c.skipBlanks.rest = size
  rw [literalLength] at hsize
  simp only [scanNumber, hsize, List.isEmpty_iff]
  by_cases hrun : c.skipBlanks.rest.takeWhile isMantissaChar = []
  · simp [hrun]
  · by_cases hcount : (c.skipBlanks.rest.takeWhile isMantissaChar).count '.' ≤ 1
    · rw [if_neg hrun, if_neg (by omega)]
      cases Number.literal? (c.skipBlanks.rest.take size) <;> simp [hrun, hcount]
    · rw [if_neg hrun, if_pos (by omega)]
      simp [hcount]

theorem scanNumber_ok {c d : Cursor} {x : Float} (h : c.scanNumber = (.ok x, d)) :
    ∃ l : Literal, c.skipBlanks.rest = l.chars ++ d.rest ∧ l.value = x := by
  obtain ⟨-, -, ⟨y, hy, rfl⟩, rfl⟩ := scanNumber_eq_ok_iff.1 h
  obtain ⟨l, hl, rfl⟩ := Number.literal?_eq_some_iff.1 hy
  exact ⟨l, by rw [hl, drop_rest, List.take_append_drop], rfl⟩

end Cursor
end Reckoner
