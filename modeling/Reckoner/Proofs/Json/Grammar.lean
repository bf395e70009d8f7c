import Reckoner.Proofs.Double.Shortest
import Reckoner.Proofs.Json.Strings
import Reckoner.Proofs.Shown

/-!
# JSON values

The grammar of RFC 8259 as a relation of a text, a value at its front and what is behind the value.
The first character tells the kind of a value, so for texts of each kind there is one way at most to
read them. Numbers without a point and an exponent are integers, all others doubles. The members of
an object are kept in their order, and their names are texts.
-/
namespace Reckoner.Log.Json

def isSpace (c : Char) : Bool := c = ' ' || c = '\t' || c = '\n' || c = '\r'

/-- What is behind insignificant space. -/
def skip (cs : List Char) : List Char := cs.dropWhile isSpace

/-- The text that units make. -/
def textOf (us : List ℕ) : Datum := .text (String.ofList (paired us))

/-- The value of a number: a literal, perhaps behind a minus. -/
def numberOf (negative : Bool) (l : Literal) : Datum :=
  if l.chars.all Char.isDigit then
    .int (if negative then -Number.natural l.chars else Number.natural l.chars)
  else .float (if negative then -l.value else l.value)

mutual

/-- A value at the front of a text. -/
inductive ReadsValue : List Char → Datum → List Char → Prop
  | null {rest} : ReadsValue ('n' :: 'u' :: 'l' :: 'l' :: rest) .null rest
  | true {rest} : ReadsValue ('t' :: 'r' :: 'u' :: 'e' :: rest) (.bool true) rest
  | false {rest} : ReadsValue ('f' :: 'a' :: 'l' :: 's' :: 'e' :: rest) (.bool false) rest
  | number {negative l cs rest} : l.IsStandard → Stops Literal.isPart rest →
    cs = Number.signed negative l.chars ++ rest → ReadsValue cs (numberOf negative l) rest
  | string {cs us rest} : Spells cs us rest → ReadsValue ('"' :: cs) (textOf us) rest
  | emptyList {cs rest} : skip cs = ']' :: rest → ReadsValue ('[' :: cs) (.list []) rest
  | list {cs items rest} : ReadsItems cs items rest → ReadsValue ('[' :: cs) (.list items) rest
  | emptyObject {cs rest} : skip cs = '\x7d' :: rest → ReadsValue ('\x7b' :: cs) (.mapping []) rest
  | object {cs entries rest} : ReadsMembers cs entries rest →
    ReadsValue ('\x7b' :: cs) (.mapping entries) rest

/-- The items of a list up to its closing bracket. -/
inductive ReadsItems : List Char → List Datum → List Char → Prop
  | last {cs ds item rest} : ReadsValue (skip cs) item ds → skip ds = ']' :: rest →
    ReadsItems cs [item] rest
  | more {cs ds es item items rest} : ReadsValue (skip cs) item ds → skip ds = ',' :: es →
    ReadsItems es items rest → ReadsItems cs (item :: items) rest

/-- The members of an object up to its closing brace. -/
inductive ReadsMembers : List Char → List (Datum × Datum) → List Char → Prop
  | last {cs ds es fs gs us item rest} : skip cs = '"' :: ds → Spells ds us es →
    skip es = ':' :: fs → ReadsValue (skip fs) item gs → skip gs = '\x7d' :: rest →
    ReadsMembers cs [(textOf us, item)] rest
  | more {cs ds es fs gs hs us item entries rest} : skip cs = '"' :: ds → Spells ds us es →
    skip es = ':' :: fs → ReadsValue (skip fs) item gs → skip gs = ',' :: hs →
    ReadsMembers hs entries rest → ReadsMembers cs ((textOf us, item) :: entries) rest

end

/-- A text that is a value and nothing else. -/
def IsText (text : String) (d : Datum) : Prop :=
  ∃ rest, ReadsValue (skip text.toList) d rest ∧ skip rest = []

/-! ## Numbers -/

section Numbers

variable {negative : Bool} {l : Literal} {cs rest : List Char} {d : Datum}

theorem isPart_signed (negative : Bool) (l : Literal) :
    ∀ c ∈ Number.signed negative l.chars, Literal.isPart c = true := by
  cases negative with
  | false => exact l.isPart_of_mem
  | true => exact List.forall_mem_cons.2 ⟨by decide, l.isPart_of_mem⟩

/-- A number is a digit or a minus first. -/
theorem signed_ne_cons {c : Char} (hc : Literal.isPart c = false) :
    Number.signed negative l.chars ++ rest ≠ c :: cs := by
  intro h
  have hne : Number.signed negative l.chars ≠ [] := by
    obtain ⟨ch, chs, hchars, -⟩ := Grammar.exists_head_literal l
    cases negative <;> simp [Number.signed, hchars]
  have hhead := congrArg List.head? h
  rw [List.head?_append_of_ne_nil _ hne] at hhead
  rw [isPart_signed negative l c (List.mem_of_mem_head? hhead)] at hc
  cases hc

/-- What is behind a minus is a digit. -/
theorem signed_ne_minus {c : Char} (hc : Literal.isPart c = false) :
    Number.signed negative l.chars ++ rest ≠ '-' :: c :: cs := by
  intro h
  cases negative with
  | false =>
    obtain ⟨ch, chs, hchars, hch⟩ := Grammar.exists_head_literal l
    rw [Number.signed, if_neg Bool.false_ne_true, hchars, List.cons_append, List.cons.injEq] at h
    rw [h.1] at hch
    exact absurd hch (by decide)
  | true =>
    have htail : Number.signed false l.chars ++ rest = c :: cs := (List.cons.inj h).2
    exact signed_ne_cons hc htail

theorem signed_append_inj {negative' : Bool} {l' : Literal} {rest' : List Char}
    (hr : Stops Literal.isPart rest) (hr' : Stops Literal.isPart rest')
    (h : Number.signed negative l.chars ++ rest = Number.signed negative' l'.chars ++ rest') :
    negative = negative' ∧ l.chars = l'.chars ∧ rest = rest' := by
  have hsigned : Number.signed negative l.chars = Number.signed negative' l'.chars := by
    rw [← takeWhile_run (isPart_signed negative l) hr, h,
      takeWhile_run (isPart_signed negative' l') hr']
  have hsplit := congrArg Number.splitSign hsigned
  rw [Number.splitSign_signed, Number.splitSign_signed, Prod.mk.injEq] at hsplit
  rw [hsigned] at h
  exact ⟨hsplit.1, hsplit.2, List.append_cancel_left h⟩

theorem numberOf_congr {l' : Literal} (h : l.chars = l'.chars) :
    numberOf negative l = numberOf negative l' := by
  rw [numberOf, numberOf, h, Literal.value_eq_of_chars h]

end Numbers

namespace ReadsValue

variable {negative : Bool} {l : Literal} {cs rest rest' : List Char} {d : Datum}

theorem number_iff (hl : l.IsStandard) (hr : Stops Literal.isPart rest) :
    ReadsValue (Number.signed negative l.chars ++ rest) d rest' ↔
      d = numberOf negative l ∧ rest' = rest := by
  constructor
  · generalize hcs : Number.signed negative l.chars ++ rest = cs
    intro h
    cases h with
    | number _ hr' hcs' =>
      obtain ⟨rfl, hchars, rfl⟩ := signed_append_inj hr hr' (hcs.trans hcs')
      exact ⟨(numberOf_congr hchars).symm, rfl⟩
    | _ => exact absurd hcs (signed_ne_cons (by decide))
  · rintro ⟨rfl, rfl⟩
    exact .number hl hr rfl

theorem string_iff : ReadsValue ('"' :: cs) d rest ↔ ∃ us, Spells cs us rest ∧ d = textOf us := by
  constructor
  · intro h
    cases h with
    | number _ _ hcs => exact absurd hcs.symm (signed_ne_cons (by decide))
    | string h => exact ⟨_, h, rfl⟩
  · rintro ⟨us, h, rfl⟩
    exact .string h

theorem list_iff : ReadsValue ('[' :: cs) d rest ↔
    skip cs = ']' :: rest ∧ d = .list [] ∨ ∃ items, ReadsItems cs items rest ∧ d = .list items := by
  constructor
  · intro h
    cases h with
    | number _ _ hcs => exact absurd hcs.symm (signed_ne_cons (by decide))
    | emptyList h => exact .inl ⟨h, rfl⟩
    | list h => exact .inr ⟨_, h, rfl⟩
  · rintro (⟨h, rfl⟩ | ⟨items, h, rfl⟩)
    · exact .emptyList h
    · exact .list h

theorem object_iff : ReadsValue ('\x7b' :: cs) d rest ↔
    skip cs = '\x7d' :: rest ∧ d = .mapping [] ∨
      ∃ entries, ReadsMembers cs entries rest ∧ d = .mapping entries := by
  constructor
  · intro h
    cases h with
    | number _ _ hcs => exact absurd hcs.symm (signed_ne_cons (by decide))
    | emptyObject h => exact .inl ⟨h, rfl⟩
    | object h => exact .inr ⟨_, h, rfl⟩
  · rintro (⟨h, rfl⟩ | ⟨entries, h, rfl⟩)
    · exact .emptyObject h
    · exact .object h

theorem null_iff : ReadsValue ("null".toList ++ cs) d rest ↔ d = .null ∧ rest = cs := by
  constructor
  · intro h
    cases h with
    | number _ _ hcs => exact absurd hcs.symm (signed_ne_cons (by decide))
    | null => exact ⟨rfl, rfl⟩
  · rintro ⟨rfl, rfl⟩
    exact .null

theorem bool_iff (b : Bool) :
    ReadsValue ((if b then "true" else "false").toList ++ cs) d rest ↔
      d = .bool b ∧ rest = cs := by
  constructor
  · intro h
    cases b with
    | false =>
      cases h with
      | number _ _ hcs => exact absurd hcs.symm (signed_ne_cons (by decide))
      | false => exact ⟨rfl, rfl⟩
    | true =>
      cases h with
      | number _ _ hcs => exact absurd hcs.symm (signed_ne_cons (by decide))
      | true => exact ⟨rfl, rfl⟩
  · rintro ⟨rfl, rfl⟩
    cases b with
    | false => exact .false
    | true => exact .true

/-- No value begins with a capital letter or a closing bracket. -/
theorem not_other {c : Char} (hc : c ∈ ['I', 'N', ']', '\x7d']) : ¬ReadsValue (c :: cs) d rest := by
  intro h
  have hpart : ∀ c ∈ ['I', 'N', ']', '\x7d'], Literal.isPart c = Bool.false := by
    simp [Literal.isPart]
  cases h with
  | number _ _ hcs => exact absurd hcs.symm (signed_ne_cons (hpart c hc))
  | _ => exact absurd hc (by decide)

theorem not_minus_capital : ¬ReadsValue ('-' :: 'I' :: cs) d rest := by
  intro h
  cases h with
  | number _ _ hcs => exact absurd hcs.symm (signed_ne_minus (by decide))

end ReadsValue

theorem readsItems_iff {cs rest : List Char} {items : List Datum} :
    ReadsItems cs items rest ↔ ∃ item ds, ReadsValue (skip cs) item ds ∧
      (skip ds = ']' :: rest ∧ items = [item] ∨
        ∃ es more, skip ds = ',' :: es ∧ ReadsItems es more rest ∧ items = item :: more) := by
  constructor
  · intro h
    cases h with
    | last h hs => exact ⟨_, _, h, .inl ⟨hs, rfl⟩⟩
    | more h hs hmore => exact ⟨_, _, h, .inr ⟨_, _, hs, hmore, rfl⟩⟩
  · rintro ⟨item, ds, h, ⟨hs, rfl⟩ | ⟨es, more, hs, hmore, rfl⟩⟩
    · exact .last h hs
    · exact .more h hs hmore

theorem readsMembers_iff {cs rest : List Char} {entries : List (Datum × Datum)} :
    ReadsMembers cs entries rest ↔ ∃ us item ds es fs gs, skip cs = '"' :: ds ∧ Spells ds us es ∧
      skip es = ':' :: fs ∧ ReadsValue (skip fs) item gs ∧
      (skip gs = '\x7d' :: rest ∧ entries = [(textOf us, item)] ∨
        ∃ hs more, skip gs = ',' :: hs ∧ ReadsMembers hs more rest ∧
          entries = (textOf us, item) :: more) := by
  constructor
  · intro h
    cases h with
    | last hc hname hcolon h hs => exact ⟨_, _, _, _, _, _, hc, hname, hcolon, h, .inl ⟨hs, rfl⟩⟩
    | more hc hname hcolon h hs hmore =>
      exact ⟨_, _, _, _, _, _, hc, hname, hcolon, h, .inr ⟨_, _, hs, hmore, rfl⟩⟩
  · rintro ⟨us, item, ds, es, fs, gs, hc, hname, hcolon, h, ⟨hs, rfl⟩ | ⟨hs, more, hg, hmore, rfl⟩⟩
    · exact .last hc hname hcolon h hs
    · exact .more hc hname hcolon h hg hmore

end Reckoner.Log.Json
