import Reckoner.Cursor
import Mathlib

/-!
# Number literals

The literals of the grammar as a structure, with the value that each stands for. A text is read as
a literal exactly when it is one, and an exponent is the longest that can be split off.
-/
namespace Reckoner

/-- No further character of a run: the text is at its end or goes on with one outside of it. -/
def Stops (p : Char → Bool) (cs : List Char) : Prop := ∀ c ∈ cs.head?, p c = false

theorem Stops.takeWhile {p : Char → Bool} {cs : List Char} (h : Stops p cs) :
    cs.takeWhile p = [] := by
  cases cs with
  | nil => rfl
  | cons c cs => simp [h c rfl]

theorem Stops.dropWhile {p : Char → Bool} {cs : List Char} (h : Stops p cs) :
    cs.dropWhile p = cs := by
  cases cs with
  | nil => rfl
  | cons c cs => simp [h c rfl]

theorem Stops.mono {p q : Char → Bool} {cs : List Char} (h : Stops p cs)
    (hq : ∀ c, q c = true → p c = true) : Stops q cs := by
  intro c hc
  have := h c hc
  by_contra hn
  simp [hq c (by simpa using hn)] at this

theorem stops_of_forall {p : Char → Bool} {cs : List Char} (h : ∀ c ∈ cs, p c = false) :
    Stops p cs := fun c hc => h c (List.mem_of_mem_head? hc)

theorem stops_dropWhile (p : Char → Bool) (cs : List Char) : Stops p (cs.dropWhile p) := by
  intro c hc
  have := List.head?_dropWhile_not p cs
  rw [hc] at this
  simpa using this

theorem takeWhile_run {p : Char → Bool} {cs rest : List Char} (h : ∀ c ∈ cs, p c = true)
    (hr : Stops p rest) : (cs ++ rest).takeWhile p = cs := by
  rw [List.takeWhile_append_of_pos h, hr.takeWhile, List.append_nil]

theorem dropWhile_run {p : Char → Bool} {cs rest : List Char} (h : ∀ c ∈ cs, p c = true)
    (hr : Stops p rest) : (cs ++ rest).dropWhile p = rest := by
  rw [List.dropWhile_append_of_pos h, hr.dropWhile]

/-- Nothing is trimmed from a text that neither begins nor ends with what is trimmed away. -/
theorem Text.trim_eq_self {p : Char → Bool} {cs : List Char} (hfirst : Stops p cs)
    (hlast : Stops p cs.reverse) : trim p cs = cs := by
  rw [trim, hfirst.dropWhile, hlast.dropWhile, List.reverse_reverse]

/-- A complete exponent: a letter, perhaps a sign, and at least one digit. -/
structure Exponent where
  letter : Char
  sign : List Char
  digits : List Char
  letter_mem : letter ∈ ['e', 'E']
  sign_mem : sign ∈ [[], ['+'], ['-']]
  digits_ne_nil : digits ≠ []
  isDigit_digits : ∀ c ∈ digits, c.isDigit = true

/-- A number literal: digits with at most one point, at least one digit, perhaps an exponent. -/
structure Literal where
  whole : List Char
  /-- The digits behind the point, if there is one. -/
  fraction : Option (List Char)
  exponent : Option Exponent
  isDigit_whole : ∀ c ∈ whole, c.isDigit = true
  isDigit_fraction : ∀ ds ∈ fraction, ∀ c ∈ ds, c.isDigit = true
  digits_ne_nil : whole ++ fraction.getD [] ≠ []

namespace Exponent

def chars (x : Exponent) : List Char := x.letter :: (x.sign ++ x.digits)

def value (x : Exponent) : Int :=
  if x.sign = ['-'] then -Number.natural x.digits else Number.natural x.digits

end Exponent

namespace Literal

def point : Option (List Char) → List Char
  | none => []
  | some ds => '.' :: ds

def mantissa (l : Literal) : List Char := l.whole ++ point l.fraction

def chars (l : Literal) : List Char := l.mantissa ++ (l.exponent.map Exponent.chars).getD []

/-- All digits as one natural number, with the power of ten that puts the point in its place. -/
def decimal (l : Literal) : Decimal :=
  let fraction := l.fraction.getD []
  ⟨Number.natural (l.whole ++ fraction),
    (l.exponent.map Exponent.value).getD 0 - fraction.length⟩

/-- The double that a literal stands for. -/
def value (l : Literal) : Float := l.decimal.toFloat

/-- The characters that literals consist of. -/
def isPart (c : Char) : Bool := c.isDigit || c ∈ ['.', 'e', 'E', '+', '-']

theorem isPart_of_isDigit {cs : List Char} (h : ∀ c ∈ cs, c.isDigit = true) :
    ∀ c ∈ cs, isPart c = true := fun c hc => by simp [isPart, h c hc]

theorem isPart_of_mem (l : Literal) : ∀ c ∈ l.chars, isPart c = true := by
  have hpoint : ∀ c ∈ point l.fraction, isPart c = true := by
    cases hf : l.fraction with
    | none => simp [point]
    | some ds =>
      exact List.forall_mem_cons.2 ⟨rfl, isPart_of_isDigit (l.isDigit_fraction ds hf)⟩
  have hexponent : ∀ c ∈ (l.exponent.map Exponent.chars).getD [], isPart c = true := by
    cases l.exponent with
    | none => simp
    | some x =>
      refine List.forall_mem_cons.2 ⟨?_, List.forall_mem_append.2
        ⟨?_, isPart_of_isDigit x.isDigit_digits⟩⟩
      · have := x.letter_mem
        simp only [List.mem_cons, List.not_mem_nil, or_false] at this
        rcases this with h | h <;> simp [h, isPart]
      · have := x.sign_mem
        simp only [List.mem_cons, List.not_mem_nil, or_false] at this
        rcases this with h | h | h <;> simp [h, isPart]
  exact List.forall_mem_append.2
    ⟨List.forall_mem_append.2 ⟨isPart_of_isDigit l.isDigit_whole, hpoint⟩, hexponent⟩

end Literal

namespace Number

def isSign (c : Char) : Bool := c = '+' || c = '-'

theorem exists_sign (cs : List Char) : ∃ sign ds, cs = sign ++ ds ∧
    sign ∈ [[], ['+'], ['-']] ∧ (sign = [] → Stops isSign ds) := by
  rcases cs with _ | ⟨c, cs⟩
  · exact ⟨[], [], rfl, by simp, fun _ => by simp [Stops]⟩
  · by_cases hc : isSign c = true
    · refine ⟨[c], cs, rfl, ?_, by simp⟩
      simpa [isSign] using hc
    · exact ⟨[], c :: cs, rfl, by simp, fun _ => by simpa [Stops] using hc⟩

theorem exponent?_signed {letter : Char} {sign : List Char} (ds : List Char)
    (hl : letter ∈ ['e', 'E']) (hs : sign ∈ [[], ['+'], ['-']]) (hd : sign = [] → Stops isSign ds) :
    exponent? (letter :: (sign ++ ds)) =
      if ds.takeWhile Char.isDigit = [] then none
      else
        let e : Int := natural (ds.takeWhile Char.isDigit)
        some (if sign = ['-'] then -e else e, ds.dropWhile Char.isDigit) := by
  have hl' : (letter != 'e' && letter != 'E') = false := by
    simp only [List.mem_cons, List.not_mem_nil, or_false] at hl
    rcases hl with rfl | rfl <;> rfl
  simp only [List.mem_cons, List.not_mem_nil, or_false] at hs
  simp only [exponent?, hl', Bool.false_eq_true, if_false]
  rcases hs with rfl | rfl | rfl
  · rcases ds with _ | ⟨c, ds⟩
    · rfl
    · have hc : ¬c = '+' ∧ ¬c = '-' := by simpa [isSign] using hd rfl c rfl
      cases hrun : (c :: ds).takeWhile Char.isDigit <;> simp [hc.1, hc.2, hrun]
  · cases hrun : ds.takeWhile Char.isDigit <;> simp [hrun]
  · cases hrun : ds.takeWhile Char.isDigit <;> simp [hrun]

/-- An exponent is split off as the longest one. -/
theorem exponent?_eq_some_iff {cs rest : List Char} {e : Int} :
    exponent? cs = some (e, rest) ↔
      ∃ x : Exponent, cs = x.chars ++ rest ∧ x.value = e ∧ Stops Char.isDigit rest := by
  constructor
  · intro h
    rcases cs with _ | ⟨letter, cs⟩
    · simp [exponent?] at h
    · have hl : letter ∈ ['e', 'E'] := by
        by_contra hn
        simp only [List.mem_cons, List.not_mem_nil, or_false, not_or] at hn
        simp [exponent?, hn] at h
      obtain ⟨sign, ds, rfl, hs, hd⟩ := exists_sign cs
      rw [exponent?_signed ds hl hs hd] at h
      split at h
      · cases h
      · rename_i hne
        obtain ⟨rfl, rfl⟩ := by simpa using h
        refine ⟨⟨letter, sign, ds.takeWhile Char.isDigit, hl, hs, hne,
          fun _ hc => List.mem_takeWhile_imp hc⟩, ?_, rfl, stops_dropWhile _ _⟩
        simp [Exponent.chars, List.takeWhile_append_dropWhile]
  · rintro ⟨x, rfl, rfl, hr⟩
    have hd : x.sign = [] → Stops isSign (x.digits ++ rest) := by
      intro _ c hc
      obtain ⟨d, ds, hds⟩ := List.exists_cons_of_ne_nil x.digits_ne_nil
      have hdigit := x.isDigit_digits d (by simp [hds])
      obtain rfl : d = c := by simpa [hds] using hc
      by_contra hn
      simp only [isSign, Bool.not_eq_false, Bool.or_eq_true, decide_eq_true_eq] at hn
      rcases hn with rfl | rfl <;> simp at hdigit
    have := exponent?_signed (x.digits ++ rest) x.letter_mem x.sign_mem hd
    rw [takeWhile_run x.isDigit_digits hr, dropWhile_run x.isDigit_digits hr,
      if_neg x.digits_ne_nil] at this
    simpa [Exponent.chars, Exponent.value] using this

/-- The value of a rest that is nothing or a complete exponent. -/
def wholeExponent? (cs : List Char) : Option Int :=
  if cs = [] then some 0
  else (exponent? cs).bind fun r => if r.2 = [] then some r.1 else none

theorem wholeExponent?_eq_some_iff {cs : List Char} {e : Int} :
    wholeExponent? cs = some e ↔ ∃ x : Option Exponent,
      cs = (x.map Exponent.chars).getD [] ∧ (x.map Exponent.value).getD 0 = e := by
  unfold wholeExponent?
  constructor
  · intro h
    split at h
    · exact ⟨none, by assumption, by simpa using h⟩
    · obtain ⟨⟨e', rest⟩, hx, h⟩ := Option.bind_eq_some_iff.1 h
      obtain ⟨x, rfl, rfl, -⟩ := exponent?_eq_some_iff.1 hx
      obtain ⟨rfl, rfl⟩ : rest = [] ∧ x.value = e := by simpa using h
      exact ⟨some x, by simp, rfl⟩
  · rintro ⟨_ | x, rfl, rfl⟩
    · rfl
    · have hx : exponent? x.chars = some (x.value, []) :=
        exponent?_eq_some_iff.2 ⟨x, by simp, rfl, by simp [Stops]⟩
      have hne : x.chars ≠ [] := by simp [Exponent.chars]
      simp [hne, hx]

theorem exists_mantissa (cs : List Char) : ∃ whole fraction rest,
    cs = whole ++ (Literal.point fraction ++ rest) ∧ (∀ c ∈ whole, c.isDigit = true) ∧
      (∀ ds ∈ fraction, ∀ c ∈ ds, c.isDigit = true) ∧ Stops Char.isDigit rest ∧
      (fraction = none → Stops (· = '.') rest) := by
  have hw : ∀ c ∈ cs.takeWhile Char.isDigit, c.isDigit = true := fun _ hc =>
    List.mem_takeWhile_imp hc
  have hcs := List.takeWhile_append_dropWhile (p := Char.isDigit) (l := cs)
  cases hr : cs.dropWhile Char.isDigit with
  | nil =>
    refine ⟨_, none, [], ?_, hw, by simp, by simp [Stops], by simp [Stops]⟩
    simpa [hr, Literal.point] using hcs.symm
  | cons c more =>
    by_cases hc : c = '.'
    · subst hc
      refine ⟨_, some (more.takeWhile Char.isDigit), more.dropWhile Char.isDigit, ?_, hw, ?_,
        stops_dropWhile _ _, by simp⟩
      · simpa [hr, Literal.point, List.takeWhile_append_dropWhile] using hcs.symm
      · simpa using fun _ hc => List.mem_takeWhile_imp hc
    · refine ⟨_, none, c :: more, ?_, hw, by simp, hr ▸ stops_dropWhile _ _, ?_⟩
      · simpa [hr, Literal.point] using hcs.symm
      · simpa [Stops] using hc

theorem literal?_mantissa {whole rest : List Char} {fraction : Option (List Char)}
    (hw : ∀ c ∈ whole, c.isDigit = true) (hf : ∀ ds ∈ fraction, ∀ c ∈ ds, c.isDigit = true)
    (hr : Stops Char.isDigit rest) (hp : fraction = none → Stops (· = '.') rest) :
    literal? (whole ++ (Literal.point fraction ++ rest)) =
      if whole ++ fraction.getD [] = [] then none
      else (wholeExponent? rest).map fun e =>
        ⟨natural (whole ++ fraction.getD []), e - (fraction.getD []).length⟩ := by
  have hpoint : Stops Char.isDigit (Literal.point fraction ++ rest) := by
    cases fraction with
    | none => exact hr
    | some ds => simp [Stops, Literal.point]
  have hempty : ∀ ds : List Char, (whole.isEmpty && ds.isEmpty) = decide (whole ++ ds = []) := by
    intro ds
    cases whole <;> cases ds <;> rfl
  unfold literal? wholeExponent?
  rw [takeWhile_run hw hpoint, dropWhile_run hw hpoint]
  cases fraction with
  | none =>
    rcases rest with _ | ⟨c, cs⟩
    · simp only [Literal.point, hempty]
      split <;> simp_all
    · have hc : ¬c = '.' := by simpa [Stops] using hp rfl
      rcases hx : exponent? (c :: cs) with _ | ⟨e, _ | ⟨d, ds⟩⟩ <;> cases whole <;>
        simp [Literal.point, hc, hx]
  | some ds =>
    simp only [Literal.point, List.cons_append]
    rw [takeWhile_run (hf ds rfl) hr, dropWhile_run (hf ds rfl) hr]
    simp only [hempty, Option.getD_some]
    split
    · simp_all
    · rcases rest with _ | ⟨c, cs⟩
      · simp_all
      · rcases hx : exponent? (c :: cs) with _ | ⟨e, _ | ⟨d, ds⟩⟩ <;> simp_all

/-- The characters of an exponent are no digit of the mantissa and no point. -/
theorem stops_exponent {p : Char → Bool} (he : p 'e' = false) (hE : p 'E' = false)
    (x : Option Exponent) : Stops p ((x.map Exponent.chars).getD []) := by
  rcases x with _ | x
  · simp [Stops]
  · have := x.letter_mem
    simp only [List.mem_cons, List.not_mem_nil, or_false] at this
    rcases this with h | h <;> simpa [Stops, Exponent.chars, h]

/-- A text is read as a literal exactly when it is one. -/
theorem literal?_eq_some_iff {cs : List Char} {d : Decimal} :
    literal? cs = some d ↔ ∃ l : Literal, l.chars = cs ∧ l.decimal = d := by
  constructor
  · intro h
    obtain ⟨whole, fraction, rest, rfl, hw, hf, hr, hp⟩ := exists_mantissa cs
    rw [literal?_mantissa hw hf hr hp] at h
    split at h
    · cases h
    · rename_i hne
      obtain ⟨e, he, rfl⟩ := Option.map_eq_some_iff.1 h
      obtain ⟨x, rfl, rfl⟩ := wholeExponent?_eq_some_iff.1 he
      refine ⟨⟨whole, fraction, x, hw, hf, hne⟩, ?_, rfl⟩
      simp [Literal.chars, Literal.mantissa]
  · rintro ⟨l, rfl, rfl⟩
    have := literal?_mantissa l.isDigit_whole l.isDigit_fraction
      (stops_exponent rfl rfl l.exponent) (fun _ => stops_exponent rfl rfl l.exponent)
    rw [if_neg l.digits_ne_nil, wholeExponent?_eq_some_iff.2 ⟨l.exponent, rfl, rfl⟩] at this
    simpa [Literal.chars, Literal.mantissa, Literal.decimal] using this

end Number
end Reckoner
