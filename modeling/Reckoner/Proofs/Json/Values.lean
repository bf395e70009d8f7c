import Reckoner.Proofs.Json.Grammar

/-!
# Written values

A value that is written as JSON reads back as itself, up to what JSON lacks: tuples come back as
lists, names and values of other kinds as texts. It does so exactly when every double in it is
finite; the words for the others are no values. All is written on one line of printed characters.
-/
namespace Reckoner.Log.Json

open Datum Double Number

/-! ## What comes back -/

/-- The text that the name of a member holds. -/
def nameOf : Datum → String
  | .null => "null"
  | .bool b => if b then "true" else "false"
  | .int n => toString n
  | .float x => number x
  | d => d.plain

mutual

/-- Whether all doubles that are written as numbers are finite. -/
def isFinite : Datum → Bool
  | .float x => x.isFinite
  | .list items | .tuple items => areFinite items
  | .mapping entries => haveFinite entries
  | _ => true

def areFinite : List Datum → Bool
  | [] => true
  | item :: items => isFinite item && areFinite items

def haveFinite : List (Datum × Datum) → Bool
  | [] => true
  | (_, item) :: entries => isFinite item && haveFinite entries

end

mutual

/-- What a value comes back as. -/
def decoded : Datum → Datum
  | .null => .null
  | .bool b => .bool b
  | .int n => .int n
  | .float x => .float x
  | .text s => .text (rejoined s)
  | .list items | .tuple items => .list (decodedItems items)
  | .mapping entries => .mapping (decodedMembers entries)
  | d => .text (rejoined d.plain)

def decodedItems : List Datum → List Datum
  | [] => []
  | item :: items => decoded item :: decodedItems items

def decodedMembers : List (Datum × Datum) → List (Datum × Datum)
  | [] => []
  | (key, item) :: entries => (.text (rejoined (nameOf key)), decoded item) :: decodedMembers entries

end

theorem memberName_eq (d : Datum) : memberName d = string (nameOf d) := by
  cases d <;> rfl

/-! ## Numbers -/

theorem toList_repr (n : ℕ) : (Nat.repr n).toList = Decimal.numerals n := by
  rw [← Nat.toString_eq_repr, Nat.toString_eq_ofList_toDigits, String.toList_ofList]
  rfl

theorem toList_toString (n : ℤ) :
    (toString n).toList = signed (decide (n < 0)) (Decimal.numerals n.natAbs) := by
  rw [Int.toString_eq_repr]
  cases n with
  | ofNat k =>
    have hrepr : (Int.ofNat k).repr = Nat.repr k := rfl
    rw [hrepr, toList_repr]
    rfl
  | negSucc k =>
    have hrepr : (Int.negSucc k).repr = "-" ++ Nat.repr (k + 1) := rfl
    rw [hrepr, String.toList_append, toList_repr]
    simp [signed]

theorem exists_literal_numerals (n : ℕ) :
    ∃ l : Literal, l.IsStandard ∧ l.chars = Decimal.numerals n := by
  refine ⟨⟨Decimal.numerals n, none, none, isDigit_numerals _, by simp, ?_⟩, ⟨?_, ?_⟩, ?_⟩
  · simp [numerals_ne_nil]
  · by_cases hn : n = 0
    · rw [hn]
      exact .inl rfl
    · exact .inr (exists_numerals_cons hn)
  · simp
  · simp [Literal.chars, Literal.mantissa, Literal.point]

theorem exists_literal_int (n : ℤ) : ∃ l : Literal, l.IsStandard ∧
    (toString n).toList = signed (decide (n < 0)) l.chars ∧
      numberOf (decide (n < 0)) l = .int n := by
  obtain ⟨l, hl, hchars⟩ := exists_literal_numerals n.natAbs
  refine ⟨l, hl, hchars ▸ toList_toString n, ?_⟩
  have hall : l.chars.all Char.isDigit = true := by
    rw [hchars, List.all_eq_true]
    exact isDigit_numerals _
  have hsign : (if decide (n < 0) = true then -(n.natAbs : ℤ) else n.natAbs) = n := by
    split <;> rename_i hn <;> simp only [decide_eq_true_eq] at hn <;> omega
  rw [numberOf, if_pos hall, hchars, natural_numerals, hsign]

theorem exists_literal_float {x : Float} (h : x.isFinite = true) : ∃ l : Literal, l.IsStandard ∧
    (number x).toList = signed (isNegative x) l.chars ∧ numberOf (isNegative x) l = .float x := by
  obtain ⟨l, hl, hstandard, ⟨c, hc, hdigit⟩, hvalue⟩ := exists_literal_shortestChars h
  obtain ⟨v, hv⟩ := isFinite_iff.1 h
  refine ⟨l, hstandard, ?_, ?_⟩
  · obtain ⟨negative, m, q, hx, -⟩ := hv
    rw [← hl, number, hx, shortestText, String.toList_ofList]
  · have hall : l.chars.all Char.isDigit = false := by
      rw [List.all_eq_false]
      exact ⟨c, hc, by simp [hdigit]⟩
    have hself : (if isNegative x then -x.abs else x.abs) = x := hv.copySign_self
    rw [numberOf, hall, if_neg Bool.false_ne_true, hvalue, hself]

/-- The words for doubles that are not finite. -/
def words : List String := ["NaN", "Infinity", "-Infinity"]

theorem number_mem_words {x : Float} (h : x.isFinite = false) : number x ∈ words := by
  cases hx : Parts.ofFloat x with
  | nan => simp [number, hx, words]
  | infinite negative => cases negative <;> simp [number, hx, words]
  | finite negative m q =>
    rw [isFinite_iff.2 ⟨_, holds_of_parts hx⟩] at h
    cases h

/-! ## Texts of values -/

/-- That a text begins with a character that neither is space nor closes a list or an object. -/
def Starts (text : List Char) : Prop :=
  ∃ c cs, text = c :: cs ∧ isSpace c = false ∧ c ∉ [']', '\x7d']

namespace Starts

variable {text : List Char}

theorem append (h : Starts text) (rest : List Char) : Starts (text ++ rest) := by
  obtain ⟨c, cs, rfl, hc⟩ := h
  exact ⟨c, cs ++ rest, rfl, hc⟩

theorem skip (h : Starts text) : Json.skip text = text := by
  obtain ⟨c, cs, rfl, hc, -⟩ := h
  rw [Json.skip, List.dropWhile_cons_of_neg (by simp [hc])]

theorem ne_closing (h : Starts text) {c : Char} (hc : c ∈ [']', '\x7d']) (rest : List Char) :
    text ≠ c :: rest := by
  obtain ⟨c', cs, rfl, -, hc'⟩ := h
  rintro heq
  exact hc' ((List.cons.inj heq).1 ▸ hc)

end Starts

/-- A text that stands for a value wherever it ends, provided that `readable` holds. -/
structure Written (text : List Char) (readable : Bool) (d : Datum) : Prop where
  starts : Starts text
  reads : ∀ rest, Stops Literal.isPart rest → ∀ found rest',
    ReadsValue (text ++ rest) found rest' ↔ readable = true ∧ found = d ∧ rest' = rest

namespace Written

theorem null : Written "null".toList true .null where
  starts := ⟨_, _, rfl, by decide, by decide⟩
  reads rest _ found rest' := by simpa using ReadsValue.null_iff

theorem bool (b : Bool) : Written (if b then "true" else "false").toList true (.bool b) where
  starts := by cases b <;> exact ⟨_, _, rfl, by decide, by decide⟩
  reads rest _ found rest' := by simpa using ReadsValue.bool_iff b

theorem string (s : String) : Written (Json.string s).toList true (.text (rejoined s)) where
  starts := ⟨'"', _, String.toList_ofList, by decide, by decide⟩
  reads rest _ found rest' := by
    rw [Json.string, String.toList_ofList]
    simp only [List.cons_append, List.append_assoc, List.nil_append, ReadsValue.string_iff,
      Spells.string_iff, true_and]
    constructor
    · rintro ⟨_, ⟨rfl, rfl⟩, rfl⟩
      exact ⟨rfl, rfl⟩
    · rintro ⟨rfl, rfl⟩
      exact ⟨_, ⟨rfl, rfl⟩, rfl⟩

theorem literal {l : Literal} (hl : l.IsStandard) (negative : Bool) :
    Written (signed negative l.chars) true (numberOf negative l) where
  starts := by
    obtain ⟨c, cs, hcs, hc⟩ := Grammar.exists_head_literal l
    have hother : ∀ d ∈ [' ', '\t', '\n', '\r', ']', '\x7d'], c ≠ d := by
      rintro d hd rfl
      revert hc
      fin_cases hd <;> decide
    cases negative with
    | false => exact ⟨c, cs, hcs, by simp_all [isSpace], by simp_all⟩
    | true => exact ⟨'-', l.chars, rfl, by decide, by decide⟩
  reads rest hr found rest' := by simpa using ReadsValue.number_iff hl hr

theorem int (n : ℤ) : Written (toString n).toList true (.int n) := by
  obtain ⟨l, hstandard, htext, hvalue⟩ := exists_literal_int n
  rw [htext, ← hvalue]
  exact literal hstandard _

theorem float {x : Float} (h : x.isFinite = true) : Written (number x).toList true (.float x) := by
  obtain ⟨l, hstandard, htext, hvalue⟩ := exists_literal_float h
  rw [htext, ← hvalue]
  exact literal hstandard _

theorem never {c : Char} {cs : List Char} {d : Datum}
    (hc : isSpace c = false ∧ c ∉ [']', '\x7d'])
    (h : ∀ rest found rest', ¬ReadsValue (c :: (cs ++ rest)) found rest') :
    Written (c :: cs) false d where
  starts := ⟨c, cs, rfl, hc⟩
  reads rest _ found rest' := by simpa using h rest found rest'

/-- The words for doubles that are not finite are no values. -/
theorem word {x : Float} (h : x.isFinite = false) (d : Datum) :
    Written (number x).toList false d := by
  have hnan : Written ['N', 'a', 'N'] false d :=
    never (by decide) fun _ _ _ => ReadsValue.not_other (by decide)
  have hplus : Written ['I', 'n', 'f', 'i', 'n', 'i', 't', 'y'] false d :=
    never (by decide) fun _ _ _ => ReadsValue.not_other (by decide)
  have hminus : Written ['-', 'I', 'n', 'f', 'i', 'n', 'i', 't', 'y'] false d :=
    never (by decide) fun _ _ _ => ReadsValue.not_minus_capital
  have hname : ∀ name ∈ words, Written name.toList false d := by
    simpa [words] using ⟨hnan, hplus, hminus⟩
  exact hname _ (number_mem_words h)

theorem number (x : Float) : Written (Json.number x).toList x.isFinite (.float x) := by
  cases h : x.isFinite with
  | false => exact word h _
  | true => exact float h

end Written

/-! ## Texts of lists and objects -/

theorem skip_cons {c : Char} (hc : isSpace c = false) (cs : List Char) : skip (c :: cs) = c :: cs :=
  List.dropWhile_cons_of_neg (by simp [hc])

theorem stops_isPart_cons {c : Char} (hc : Literal.isPart c = false) (cs : List Char) :
    Stops Literal.isPart (c :: cs) := by
  simpa [Stops] using hc

theorem skip_blank (cs : List Char) : skip (' ' :: cs) = skip cs := by
  rw [skip, List.dropWhile_cons_of_pos (by decide), skip]

theorem toList_commaSeparated_cons (t u : String) (us : List String) :
    (commaSeparated (t :: u :: us)).toList =
      t.toList ++ ',' :: ' ' :: (commaSeparated (u :: us)).toList := by
  simp [commaSeparated, String.intercalate_cons_cons]

/-- Texts that stand for the items of a list. -/
structure WrittenItems (texts : List String) (readable : Bool) (items : List Datum) : Prop where
  starts : Starts (commaSeparated texts).toList
  reads : ∀ cs rest, skip cs = (commaSeparated texts).toList ++ ']' :: rest → ∀ found rest',
    ReadsItems cs found rest' ↔ readable = true ∧ found = items ∧ rest' = rest

namespace WrittenItems

variable {t u : String} {us : List String} {p q : Bool} {d : Datum} {ds : List Datum}

theorem one (h : Written t.toList p d) : WrittenItems [t] p [d] where
  starts := by simpa [commaSeparated] using h.starts
  reads cs rest hcs found rest' := by
    have htext : (commaSeparated [t]).toList = t.toList := by simp [commaSeparated]
    rw [htext] at hcs
    have hvalue := h.reads (']' :: rest) (stops_isPart_cons (by decide) _)
    rw [readsItems_iff, hcs]
    simp only [hvalue]
    constructor
    · rintro ⟨_, _, ⟨hp, rfl, rfl⟩, ⟨hclose, rfl⟩ | ⟨es, more, hcomma, -⟩⟩
      · rw [skip_cons (by decide)] at hclose
        exact ⟨hp, rfl, ((List.cons.inj hclose).2).symm⟩
      · rw [skip_cons (by decide)] at hcomma
        exact absurd (List.cons.inj hcomma).1 (by decide)
    · rintro ⟨hp, rfl, rfl⟩
      exact ⟨_, _, ⟨hp, rfl, rfl⟩, .inl ⟨skip_cons (by decide) _, rfl⟩⟩

theorem cons (h : Written t.toList p d) (hs : WrittenItems (u :: us) q ds) :
    WrittenItems (t :: u :: us) (p && q) (d :: ds) where
  starts := by
    rw [toList_commaSeparated_cons]
    exact h.starts.append _
  reads cs rest hcs found rest' := by
    rw [toList_commaSeparated_cons, List.append_assoc, List.cons_append, List.cons_append] at hcs
    have hmore : ∀ more, ReadsItems (' ' :: ((commaSeparated (u :: us)).toList ++ ']' :: rest)) more
        rest' ↔ q = true ∧ more = ds ∧ rest' = rest :=
      fun more => hs.reads _ rest (by rw [skip_blank, (hs.starts.append _).skip]) more rest'
    have hvalue := h.reads (',' :: ' ' :: ((commaSeparated (u :: us)).toList ++ ']' :: rest))
      (stops_isPart_cons (by decide) _)
    rw [readsItems_iff, hcs, Bool.and_eq_true]
    simp only [hvalue]
    constructor
    · rintro ⟨_, _, ⟨hp, rfl, rfl⟩, ⟨hclose, rfl⟩ | ⟨es, more, hcomma, hitems, rfl⟩⟩
      · rw [skip_cons (by decide)] at hclose
        exact absurd (List.cons.inj hclose).1 (by decide)
      · rw [skip_cons (by decide)] at hcomma
        obtain rfl := (List.cons.inj hcomma).2
        obtain ⟨hq, rfl, rfl⟩ := (hmore more).1 hitems
        exact ⟨⟨hp, hq⟩, rfl, rfl⟩
    · rintro ⟨⟨hp, hq⟩, rfl, rfl⟩
      exact ⟨_, _, ⟨hp, rfl, rfl⟩,
        .inr ⟨_, _, skip_cons (by decide) _, (hmore ds).2 ⟨hq, rfl, rfl⟩, rfl⟩⟩

end WrittenItems

/-- A member as it is written. -/
def memberText (name : String) (text : String) : String := string name ++ ": " ++ text

/-- Texts that stand for the members of an object. -/
structure WrittenMembers (texts : List String) (readable : Bool)
    (entries : List (Datum × Datum)) : Prop where
  starts : Starts (commaSeparated texts).toList
  reads : ∀ cs rest, skip cs = (commaSeparated texts).toList ++ '\x7d' :: rest → ∀ found rest',
    ReadsMembers cs found rest' ↔ readable = true ∧ found = entries ∧ rest' = rest

theorem toList_memberText (name text : String) : (memberText name text).toList =
    '"' :: (name.toList.flatMap character ++ '"' :: ':' :: ' ' :: text.toList) := by
  simp [memberText, string]

/-- What comes of a member, and of the others behind it. -/
theorem readsMembers_memberText {name t : String} {p : Bool} {d : Datum} {cs rest rest' : List Char}
    {c : Char} (h : Written t.toList p d) (hc : Literal.isPart c = false ∧ isSpace c = false)
    (hcs : skip cs = (memberText name t).toList ++ c :: rest) (found : List (Datum × Datum)) :
    ReadsMembers cs found rest' ↔ p = true ∧
      (c = '\x7d' ∧ rest' = rest ∧ found = [(.text (rejoined name), d)] ∨
        c = ',' ∧ ∃ more, ReadsMembers rest more rest' ∧
          found = (.text (rejoined name), d) :: more) := by
  have hvalue := h.reads (c :: rest) (stops_isPart_cons hc.1 _)
  rw [toList_memberText] at hcs
  simp only [List.cons_append, List.append_assoc] at hcs
  have hitem : ∀ item gs, ReadsValue (skip (' ' :: (t.toList ++ c :: rest))) item gs ↔
      p = true ∧ item = d ∧ gs = c :: rest := by
    rw [skip_blank, (h.starts.append _).skip]
    exact hvalue
  rw [readsMembers_iff, hcs]
  constructor
  · rintro ⟨us, item, ds, es, fs, gs, hds, hname, hcolon, hread, hend⟩
    obtain rfl := (List.cons.inj hds).2
    obtain ⟨rfl, rfl⟩ := Spells.string_iff name |>.1 hname
    rw [skip_cons (by decide)] at hcolon
    obtain rfl := (List.cons.inj hcolon).2
    obtain ⟨hp, rfl, rfl⟩ := (hitem item gs).1 hread
    rw [skip_cons hc.2] at hend
    obtain ⟨hclose, rfl⟩ | ⟨hs, more, hcomma, hmore, rfl⟩ := hend
    · obtain ⟨rfl, rfl⟩ := List.cons.inj hclose
      exact ⟨hp, .inl ⟨rfl, rfl, rfl⟩⟩
    · obtain ⟨rfl, rfl⟩ := List.cons.inj hcomma
      exact ⟨hp, .inr ⟨rfl, more, hmore, rfl⟩⟩
  · rintro ⟨hp, hend⟩
    refine ⟨_, d, _, _, _, c :: rest, rfl, (Spells.string_iff name).2 ⟨rfl, rfl⟩,
      skip_cons (by decide) _, (hitem d _).2 ⟨hp, rfl, rfl⟩, ?_⟩
    rw [skip_cons hc.2]
    obtain ⟨rfl, rfl, rfl⟩ | ⟨rfl, more, hmore, rfl⟩ := hend
    · exact .inl ⟨rfl, rfl⟩
    · exact .inr ⟨_, more, rfl, hmore, rfl⟩

namespace WrittenMembers

variable {name t u : String} {us : List String} {p q : Bool} {d : Datum}
  {entries : List (Datum × Datum)}

theorem starts_memberText (name t : String) : Starts (memberText name t).toList :=
  ⟨'"', _, toList_memberText name t, by decide, by decide⟩

theorem one (name : String) (h : Written t.toList p d) :
    WrittenMembers [memberText name t] p [(.text (rejoined name), d)] where
  starts := by simpa [commaSeparated] using starts_memberText name t
  reads cs rest hcs found rest' := by
    have htext : (commaSeparated [memberText name t]).toList = (memberText name t).toList := by
      simp [commaSeparated]
    rw [htext] at hcs
    rw [readsMembers_memberText h (by decide) hcs]
    constructor
    · rintro ⟨hp, ⟨-, rfl, rfl⟩ | ⟨hcomma, -⟩⟩
      · exact ⟨hp, rfl, rfl⟩
      · exact absurd hcomma (by decide)
    · rintro ⟨hp, rfl, rfl⟩
      exact ⟨hp, .inl ⟨rfl, rfl, rfl⟩⟩

theorem cons (name : String) (h : Written t.toList p d) (hs : WrittenMembers (u :: us) q entries) :
    WrittenMembers (memberText name t :: u :: us) (p && q)
      ((.text (rejoined name), d) :: entries) where
  starts := by
    rw [toList_commaSeparated_cons]
    exact (starts_memberText name t).append _
  reads cs rest hcs found rest' := by
    rw [toList_commaSeparated_cons, List.append_assoc, List.cons_append, List.cons_append] at hcs
    have hmore : ∀ more, ReadsMembers (' ' :: ((commaSeparated (u :: us)).toList ++ '\x7d' :: rest))
        more rest' ↔ q = true ∧ more = entries ∧ rest' = rest :=
      fun more => hs.reads _ rest (by rw [skip_blank, (hs.starts.append _).skip]) more rest'
    rw [readsMembers_memberText h (by decide) hcs, Bool.and_eq_true]
    simp only [hmore]
    constructor
    · rintro ⟨hp, ⟨hclose, -⟩ | ⟨-, more, ⟨hq, rfl, rfl⟩, rfl⟩⟩
      · exact absurd hclose (by decide)
      · exact ⟨⟨hp, hq⟩, rfl, rfl⟩
    · rintro ⟨⟨hp, hq⟩, rfl, rfl⟩
      exact ⟨hp, .inr ⟨by simp, _, ⟨hq, rfl, rfl⟩, rfl⟩⟩

end WrittenMembers

/-! ## Brackets and braces -/

theorem toList_between (opening closing : Char) (items : List String) :
    (between opening closing items).toList =
      opening :: ((commaSeparated items).toList ++ [closing]) := by
  simp [between]

namespace Written

variable {t : String} {us : List String} {p : Bool} {ds : List Datum}
  {entries : List (Datum × Datum)}

theorem emptyList : Written (between '[' ']' []).toList true (.list []) where
  starts := ⟨'[', _, rfl, by decide, by decide⟩
  reads rest _ found rest' := by
    have htext : (between '[' ']' []).toList ++ rest = '[' :: ']' :: rest := rfl
    have hskip : skip (']' :: rest) = ']' :: rest := skip_cons (by decide) rest
    rw [htext, ReadsValue.list_iff, hskip]
    constructor
    · rintro (⟨hclose, rfl⟩ | ⟨items, hitems, -⟩)
      · exact ⟨rfl, rfl, ((List.cons.inj hclose).2).symm⟩
      · obtain ⟨item, ds, hread, -⟩ := readsItems_iff.1 hitems
        rw [hskip] at hread
        exact absurd hread (ReadsValue.not_other (by decide))
    · rintro ⟨-, rfl, rfl⟩
      exact .inl ⟨rfl, rfl⟩

theorem list (h : WrittenItems (t :: us) p ds) :
    Written (between '[' ']' (t :: us)).toList p (.list ds) where
  starts := ⟨'[', _, toList_between _ _ _, by decide, by decide⟩
  reads rest _ found rest' := by
    have hstarts := h.starts.append (']' :: rest)
    rw [toList_between, List.cons_append, List.append_assoc, List.singleton_append,
      ReadsValue.list_iff, hstarts.skip]
    simp only [h.reads _ rest hstarts.skip]
    constructor
    · rintro (⟨hclose, -⟩ | ⟨items, ⟨hp, rfl, rfl⟩, rfl⟩)
      · exact absurd hclose (hstarts.ne_closing (by decide) _)
      · exact ⟨hp, rfl, rfl⟩
    · rintro ⟨hp, rfl, rfl⟩
      exact .inr ⟨ds, ⟨hp, rfl, rfl⟩, rfl⟩

theorem emptyObject : Written (between '\x7b' '\x7d' []).toList true (.mapping []) where
  starts := ⟨'\x7b', _, rfl, by decide, by decide⟩
  reads rest _ found rest' := by
    have htext : (between '\x7b' '\x7d' []).toList ++ rest = '\x7b' :: '\x7d' :: rest := rfl
    have hskip : skip ('\x7d' :: rest) = '\x7d' :: rest := skip_cons (by decide) rest
    rw [htext, ReadsValue.object_iff, hskip]
    constructor
    · rintro (⟨hclose, rfl⟩ | ⟨entries, hentries, -⟩)
      · exact ⟨rfl, rfl, ((List.cons.inj hclose).2).symm⟩
      · obtain ⟨_, _, _, _, _, _, hname, -⟩ := readsMembers_iff.1 hentries
        rw [hskip] at hname
        exact absurd (List.cons.inj hname).1 (by decide)
    · rintro ⟨-, rfl, rfl⟩
      exact .inl ⟨rfl, rfl⟩

theorem object (h : WrittenMembers (t :: us) p entries) :
    Written (between '\x7b' '\x7d' (t :: us)).toList p (.mapping entries) where
  starts := ⟨'\x7b', _, toList_between _ _ _, by decide, by decide⟩
  reads rest _ found rest' := by
    have hstarts := h.starts.append ('\x7d' :: rest)
    rw [toList_between, List.cons_append, List.append_assoc, List.singleton_append,
      ReadsValue.object_iff, hstarts.skip]
    simp only [h.reads _ rest hstarts.skip]
    constructor
    · rintro (⟨hclose, -⟩ | ⟨entries, ⟨hp, rfl, rfl⟩, rfl⟩)
      · exact absurd hclose (hstarts.ne_closing (by decide) _)
      · exact ⟨hp, rfl, rfl⟩
    · rintro ⟨hp, rfl, rfl⟩
      exact .inr ⟨entries, ⟨hp, rfl, rfl⟩, rfl⟩

end Written

/-! ## Values -/

mutual

/-- A value is read back where it was written, exactly when its doubles are finite. -/
theorem written_value : ∀ d : Datum, Written (value d).toList (isFinite d) (decoded d)
  | .null => .null
  | .bool b => .bool b
  | .int n => .int n
  | .float x => .number x
  | .text s => .string s
  | .list [] | .tuple [] => .emptyList
  | .list (item :: items) | .tuple (item :: items) =>
    .list (written_items (item :: items) (List.cons_ne_nil item items))
  | .mapping [] => .emptyObject
  | .mapping (entry :: entries) =>
    .object (written_members (entry :: entries) (List.cons_ne_nil entry entries))
  | .bytes bs => .string (plain (.bytes bs))
  | .date y m d t => .string (plain (.date y m d t))
  | .set items => .string (plain (.set items))
  | .again isMapping => .string (plain (.again isMapping))

theorem written_items : ∀ items : List Datum, items ≠ [] →
    WrittenItems (values items) (areFinite items) (decodedItems items)
  | [], h => absurd rfl h
  | [item], _ => by
    simpa [values, areFinite, decodedItems] using WrittenItems.one (written_value item)
  | item :: next :: items, _ =>
    .cons (written_value item) (written_items (next :: items) (List.cons_ne_nil next items))

theorem written_members : ∀ entries : List (Datum × Datum), entries ≠ [] →
    WrittenMembers (members entries) (haveFinite entries) (decodedMembers entries)
  | [], h => absurd rfl h
  | [(key, item)], _ => by
    simpa [members, haveFinite, decodedMembers, memberName_eq, memberText] using
      WrittenMembers.one (nameOf key) (written_value item)
  | (key, item) :: next :: entries, _ => by
    have h := WrittenMembers.cons (nameOf key) (written_value item)
      (written_members (next :: entries) (List.cons_ne_nil next entries))
    rwa [memberText, ← memberName_eq] at h

end

/-- What the text of a value is as JSON: the value, or nothing. -/
theorem isText_value_iff (d found : Datum) :
    IsText (value d) found ↔ isFinite d = true ∧ found = decoded d := by
  have h := written_value d
  have hread := h.reads [] (by simp [Stops])
  rw [List.append_nil] at hread
  rw [IsText, h.starts.skip]
  simp only [hread]
  constructor
  · rintro ⟨rest, ⟨hd, rfl, -⟩, -⟩
    exact ⟨hd, rfl⟩
  · rintro ⟨hd, rfl⟩
    exact ⟨[], ⟨hd, rfl, rfl⟩, rfl⟩

/-! ## Values that come back as they are -/

mutual

/-- That nothing in a value lacks a form in JSON, and no half in its texts stands before its other
half. -/
def IsWhole : Datum → Prop
  | .null | .bool _ | .int _ | .float _ => True
  | .text s => IsJoined s.toList
  | .list items => AreWhole items
  | .mapping entries => HaveWhole entries
  | _ => False

def AreWhole : List Datum → Prop
  | [] => True
  | item :: items => IsWhole item ∧ AreWhole items

def HaveWhole : List (Datum × Datum) → Prop
  | [] => True
  | (.text name, item) :: entries => IsJoined name.toList ∧ IsWhole item ∧ HaveWhole entries
  | _ => False

end

mutual

theorem decoded_eq_self : ∀ d : Datum, IsWhole d → decoded d = d
  | .null, _ | .bool _, _ | .int _, _ | .float _, _ => rfl
  | .text _, h => congrArg Datum.text (rejoined_eq_self h)
  | .list items, h => congrArg Datum.list (decodedItems_eq_self items h)
  | .mapping entries, h => congrArg Datum.mapping (decodedMembers_eq_self entries h)

theorem decodedItems_eq_self : ∀ items : List Datum, AreWhole items → decodedItems items = items
  | [], _ => rfl
  | item :: items, h => by
    rw [decodedItems, decoded_eq_self item h.1, decodedItems_eq_self items h.2]

theorem decodedMembers_eq_self : ∀ entries : List (Datum × Datum),
    HaveWhole entries → decodedMembers entries = entries
  | [], _ => rfl
  | (.text name, item) :: entries, h => by
    have hname : rejoined (nameOf (.text name)) = name := rejoined_eq_self h.1
    rw [decodedMembers, hname, decoded_eq_self item h.2.1, decodedMembers_eq_self entries h.2.2]

end

/-! ## One line -/

theorem isPrinted_of_isPart {c : Char} (h : Literal.isPart c = true) : isPrinted c = true := by
  rcases Literal.isPart_cases h with ⟨d, rfl⟩ | hmem
  · revert d
    decide
  · fin_cases hmem <;> decide

theorem isLine_signed {s : String} {negative : Bool} {l : Literal}
    (h : s.toList = signed negative l.chars) : IsLine s := by
  intro c hc
  exact isPrinted_of_isPart (isPart_signed negative l c (h ▸ hc))

theorem isLine_number (x : Float) : IsLine (number x) := by
  cases h : x.isFinite with
  | true =>
    obtain ⟨l, -, htext, -⟩ := exists_literal_float h
    exact isLine_signed htext
  | false =>
    have hwords : ∀ name ∈ words, IsLine name := by
      simp only [words, isLine_iff, ← List.all_eq_true]
      cbv
    exact hwords _ (number_mem_words h)

theorem isLine_commaSeparated {texts : List String} (h : ∀ t ∈ texts, IsLine t) :
    IsLine (commaSeparated texts) := by
  induction texts with
  | nil => simp [IsLine, commaSeparated]
  | cons t texts ih =>
    obtain ⟨ht, htexts⟩ := List.forall_mem_cons.1 h
    cases texts with
    | nil => simpa [IsLine, commaSeparated] using ht
    | cons u us =>
      rw [IsLine, toList_commaSeparated_cons]
      refine List.forall_mem_append.2 ⟨ht, ?_⟩
      exact List.forall_mem_cons.2 ⟨by decide, List.forall_mem_cons.2 ⟨by decide, ih htexts⟩⟩

theorem isLine_between {opening closing : Char} {texts : List String}
    (ho : isPrinted opening = true) (hc : isPrinted closing = true) (h : ∀ t ∈ texts, IsLine t) :
    IsLine (between opening closing texts) := by
  rw [IsLine, toList_between]
  refine List.forall_mem_cons.2 ⟨ho, List.forall_mem_append.2 ⟨isLine_commaSeparated h, ?_⟩⟩
  simpa using hc

mutual

theorem isLine_value : ∀ d : Datum, IsLine (value d)
  | .null => isLine_iff.2 (by cbv)
  | .bool b => by cases b <;> exact isLine_iff.2 (by cbv)
  | .int n => by
    obtain ⟨l, -, h, -⟩ := exists_literal_int n
    exact isLine_signed h
  | .float x => isLine_number x
  | .text s => isLine_string s
  | .list items | .tuple items => isLine_between (by decide) (by decide) (isLine_values items)
  | .mapping entries => isLine_between (by decide) (by decide) (isLine_members entries)
  | .bytes bs => isLine_string (plain (.bytes bs))
  | .date y m d t => isLine_string (plain (.date y m d t))
  | .set items => isLine_string (plain (.set items))
  | .again isMapping => isLine_string (plain (.again isMapping))

theorem isLine_values : ∀ items : List Datum, ∀ t ∈ values items, IsLine t
  | [] => by simp [values]
  | item :: items => List.forall_mem_cons.2 ⟨isLine_value item, isLine_values items⟩

theorem isLine_members : ∀ entries : List (Datum × Datum), ∀ t ∈ members entries, IsLine t
  | [] => by simp [members]
  | (key, item) :: entries => by
    have hname : IsLine (memberName key) := memberName_eq key ▸ isLine_string (nameOf key)
    exact List.forall_mem_cons.2 ⟨(hname.append (isLine_iff.2 (by cbv))).append
      (isLine_value item), isLine_members entries⟩

end

end Reckoner.Log.Json
