import Reckoner.Log.Json
import Mathlib

/-!
# JSON strings

Between its quotes a string of RFC 8259 spells units of sixteen bits: a character stands for its
own, and there are escapes for any unit. Two halves in a row make one character, also where they
were apart in the text that was written; everything else in a text comes back.
-/
namespace Reckoner.Log.Json

/-! ## Units -/

theorem toNat_lt (c : Char) : c.toNat < 0x110000 := by
  have hvalid := c.valid
  simp only [UInt32.isValidChar, Nat.isValidChar] at hvalid
  exact hvalid.elim (fun h => h.trans (by decide)) (·.2)

theorem code_le_toNat (c : Char) : Text.code c ≤ c.toNat := by
  rw [Text.code]
  split <;> omega

/-- The units of a code point, which are two halves if it takes more than sixteen bits. -/
def utf16 (n : ℕ) : List ℕ :=
  if n < 0x10000 then [n] else [0xd800 + (n - 0x10000) / 0x400, 0xdc00 + (n - 0x10000) % 0x400]

def isHigh (n : ℕ) : Bool := 0xd800 ≤ n && n < 0xdc00

def isLow (n : ℕ) : Bool := 0xdc00 ≤ n && n < 0xe000

/-- The characters that units stand for. A half that is not followed by its other half stays one. -/
def paired : List ℕ → List Char
  | [] => []
  | [n] => [Text.ofCode n]
  | high :: low :: us =>
    if isHigh high && isLow low then
      Char.ofNat (0x10000 + (high - 0xd800) * 0x400 + (low - 0xdc00)) :: paired us
    else Text.ofCode high :: paired (low :: us)

/-- The units of a text. -/
def units (s : String) : List ℕ := s.toList.flatMap fun c => utf16 (Text.code c)

/-- A text with halves in a row put together. -/
def rejoined (s : String) : String := String.ofList (paired (units s))

/-! ## The grammar of strings -/

/-- The number that hexadecimal digits stand for, in capitals or not. -/
def hexValue? (cs : List Char) : Option ℕ :=
  cs.foldlM (fun n c => (Number.digitOf? 16 c).map (16 * n + ·)) 0

/-- The characters that one letter behind a backslash stands for, by their code points. -/
def shortEscapes : List (Char × ℕ) :=
  [('"', 34), ('\\', 92), ('/', 47), ('b', 8), ('f', 12), ('n', 10), ('r', 13), ('t', 9)]

/-- What a string spells up to its closing quote, with what is behind the quote. -/
inductive Spells : List Char → List ℕ → List Char → Prop
  | close {rest} : Spells ('"' :: rest) [] rest
  | plain {c cs us rest} : c ≠ '"' → c ≠ '\\' → 32 ≤ c.toNat → Spells cs us rest →
    Spells (c :: cs) (utf16 (Text.code c) ++ us) rest
  | short {letter n cs us rest} : (letter, n) ∈ shortEscapes → Spells cs us rest →
    Spells ('\\' :: letter :: cs) (n :: us) rest
  | unit {a b c d n cs us rest} : hexValue? [a, b, c, d] = some n → Spells cs us rest →
    Spells ('\\' :: 'u' :: a :: b :: c :: d :: cs) (n :: us) rest

namespace Spells

variable {cs rest : List Char} {us : List ℕ}

theorem close_iff : Spells ('"' :: cs) us rest ↔ us = [] ∧ cs = rest := by
  constructor
  · rintro (_ | ⟨h, -, -, -⟩)
    · exact ⟨rfl, rfl⟩
    · exact absurd rfl h
  · rintro ⟨rfl, rfl⟩
    exact .close

theorem plain_iff {c : Char} (hq : c ≠ '"') (hb : c ≠ '\\') (hc : 32 ≤ c.toNat) :
    Spells (c :: cs) us rest ↔ ∃ vs, Spells cs vs rest ∧ us = utf16 (Text.code c) ++ vs := by
  constructor
  · rintro (_ | ⟨-, -, -, h⟩ | _ | _)
    · exact absurd rfl hq
    · exact ⟨_, h, rfl⟩
    · exact absurd rfl hb
    · exact absurd rfl hb
  · rintro ⟨vs, h, rfl⟩
    exact .plain hq hb hc h

theorem short_iff {letter : Char} {n : ℕ} (h : (letter, n) ∈ shortEscapes) :
    Spells ('\\' :: letter :: cs) us rest ↔ ∃ vs, Spells cs vs rest ∧ us = n :: vs := by
  constructor
  · intro hs
    cases hs with
    | plain _ hb => exact absurd rfl hb
    | short h' hs =>
      have hn : ∀ e ∈ shortEscapes, ∀ e' ∈ shortEscapes, e.1 = e'.1 → e.2 = e'.2 := by decide
      obtain rfl := hn (letter, _) h' (letter, n) h rfl
      exact ⟨_, hs, rfl⟩
    | unit => exact absurd h (by simp [shortEscapes])
  · rintro ⟨vs, hs, rfl⟩
    exact .short h hs

/-- Four digits give back the unit that was written. -/
theorem hexValue?_hexDigits (width n : ℕ) :
    hexValue? (Text.hexDigits width n) = some (n % 16 ^ width) := by
  have hdigit : ∀ k : Fin 16, Number.digitOf? 16 (Nat.digitChar k) = some k.1 := by decide
  induction width generalizing n with
  | zero => simp [Text.hexDigits, hexValue?, Nat.mod_one]
  | succ width ih =>
    have hlast := hdigit ⟨n % 16, Nat.mod_lt n (by decide)⟩
    simp only [hexValue?] at ih ⊢
    rw [Text.hexDigits, List.foldlM_append, ih]
    simp only [Option.bind_eq_bind, Option.bind_some, List.foldlM_cons, List.foldlM_nil]
    simp only at hlast
    rw [hlast, pow_succ', Nat.mod_mul]
    simp [Nat.add_comm]

theorem unit_iff {n : ℕ} (hn : n < 0x10000) :
    Spells (Json.unit n ++ cs) us rest ↔ ∃ vs, Spells cs vs rest ∧ us = n :: vs := by
  have hvalue : hexValue? (Text.hexDigits 4 n) = some n := by
    rw [hexValue?_hexDigits, Nat.mod_eq_of_lt (by simpa using hn)]
  simp only [Text.hexDigits, List.nil_append, List.cons_append] at hvalue
  simp only [Json.unit, Text.hexDigits, List.nil_append, List.cons_append]
  constructor
  · intro hs
    cases hs with
    | plain _ hb => exact absurd rfl hb
    | short h => exact absurd h (by simp [shortEscapes])
    | unit h hs =>
      rw [hvalue] at h
      exact ⟨_, hs, by rw [Option.some.inj h]⟩
  · rintro ⟨vs, hs, rfl⟩
    exact .unit hvalue hs

/-- A character is written as its units. -/
theorem character_iff (c : Char) :
    Spells (character c ++ cs) us rest ↔
      ∃ vs, Spells cs vs rest ∧ us = utf16 (Text.code c) ++ vs := by
  have hshort {letter : Char} {n : ℕ} (h : (letter, n) ∈ shortEscapes) (hn : Text.code c = n) :
      Spells (['\\', letter] ++ cs) us rest ↔
        ∃ vs, Spells cs vs rest ∧ us = utf16 (Text.code c) ++ vs := by
    have hsmall : utf16 n = [n] := by
      have hlt : ∀ e ∈ shortEscapes, e.2 < 0x10000 := by decide
      rw [utf16, if_pos (hlt _ h)]
    rw [hn, hsmall]
    exact short_iff h
  have hcode := code_le_toNat c
  have hlt := toNat_lt c
  rw [character]
  split_ifs with hmark hn hr ht hb hf hplain hunit
  · simp only [Bool.or_eq_true, decide_eq_true_eq] at hmark
    rcases hmark with rfl | rfl
    · exact hshort (by decide) rfl
    · exact hshort (by decide) rfl
  · exact hshort (n := 10) (by decide) (by rw [hn]; rfl)
  · exact hshort (n := 13) (by decide) (by rw [hr]; rfl)
  · exact hshort (n := 9) (by decide) (by rw [ht]; rfl)
  · exact hshort (by decide) hb
  · exact hshort (by decide) hf
  · simp only [Bool.or_eq_true, decide_eq_true_eq, not_or] at hmark
    simp only [Bool.and_eq_true, decide_eq_true_eq] at hplain
    exact plain_iff hmark.1 hmark.2 (hplain.1.trans hcode)
  · rw [utf16, if_pos hunit]
    exact unit_iff hunit
  · rw [utf16, if_neg hunit, List.append_assoc, unit_iff (by omega)]
    simp only [unit_iff (show 0xdc00 + (Text.code c - 0x10000) % 0x400 < 0x10000 by omega)]
    constructor
    · rintro ⟨_, ⟨vs, h, rfl⟩, rfl⟩
      exact ⟨vs, h, rfl⟩
    · rintro ⟨vs, h, rfl⟩
      exact ⟨_, ⟨vs, h, rfl⟩, rfl⟩

/-- A written string spells the units of its text and nothing else. -/
theorem string_iff (s : String) :
    Spells (s.toList.flatMap character ++ '"' :: cs) us rest ↔ us = units s ∧ cs = rest := by
  rw [units]
  induction s.toList generalizing us with
  | nil => exact close_iff
  | cons c chars ih =>
    rw [List.flatMap_cons, List.append_assoc, character_iff]
    constructor
    · rintro ⟨vs, h, rfl⟩
      obtain ⟨rfl, rfl⟩ := ih.1 h
      exact ⟨rfl, rfl⟩
    · rintro ⟨rfl, rfl⟩
      exact ⟨_, ih.2 ⟨rfl, rfl⟩, rfl⟩

end Spells

/-! ## Texts that come back -/

theorem ofCode_code (c : Char) : Text.ofCode (Text.code c) = c := by
  rw [Text.ofCode, Text.code]
  split
  · rename_i h
    simp only [Text.isHalf, Bool.and_eq_true, decide_eq_true_eq] at h
    rw [if_pos h.2, Nat.sub_add_cancel h.1, Char.ofNat_toNat]
  · have hvalid := c.valid
    simp only [UInt32.isValidChar, Nat.isValidChar] at hvalid
    have hhalf : Text.isHalfCode c.toNat = false := by
      simp only [Text.isHalfCode, Bool.and_eq_false_iff, decide_eq_false_iff_not]
      have : c.val.toNat = c.toNat := rfl
      omega
    rw [hhalf, if_neg Bool.false_ne_true, Char.ofNat_toNat]

theorem code_eq_toNat {c : Char} (h : Text.isHalfCode (Text.code c) = false) :
    Text.code c = c.toNat := by
  rw [Text.code] at h ⊢
  split at h
  · rename_i hhalf
    rw [Text.isHalf, h, Bool.and_false] at hhalf
    cases hhalf
  · rename_i hhalf
    rw [if_neg hhalf]

/-- That no half stands before its other half. -/
def IsJoined (cs : List Char) : Prop :=
  cs.IsChain fun a b => ¬(isHigh (Text.code a) = true ∧ isLow (Text.code b) = true)

theorem paired_cons {n : ℕ} {us : List ℕ} (h : ∀ u ∈ us.head?, ¬(isHigh n = true ∧ isLow u = true)) :
    paired (n :: us) = Text.ofCode n :: paired us := by
  cases us with
  | nil => rfl
  | cons u us =>
    rw [paired, if_neg]
    simpa using h u rfl

/-- Only a low half begins with a low unit. -/
theorem isLow_head {m u : ℕ} {us : List ℕ} (h : (utf16 m ++ us).head? = some u)
    (hu : isLow u = true) (hm : m < 0x110000) : u = m := by
  rw [utf16] at h
  split at h
  · simpa using h.symm
  · obtain rfl : _ = u := by simpa using h
    simp only [isLow, Bool.and_eq_true, decide_eq_true_eq] at hu
    omega

theorem paired_units {cs : List Char} (h : IsJoined cs) :
    paired (cs.flatMap fun c => utf16 (Text.code c)) = cs := by
  induction cs with
  | nil => rfl
  | cons c cs ih =>
    have htail := ih h.tail
    rw [List.flatMap_cons]
    by_cases hc : Text.code c < 0x10000
    · rw [utf16, if_pos hc, List.singleton_append, paired_cons, htail, ofCode_code]
      rintro u hu ⟨hhigh, hlow⟩
      cases cs with
      | nil => simp at hu
      | cons d cs =>
        rw [List.flatMap_cons] at hu
        obtain rfl := isLow_head hu hlow ((code_le_toNat d).trans_lt (toNat_lt d))
        exact (List.isChain_cons_cons.1 h).1 ⟨hhigh, hlow⟩
    · have hcode : Text.code c = c.toNat := code_eq_toNat (by
        simp only [Text.isHalfCode, Bool.and_eq_false_iff, decide_eq_false_iff_not]
        omega)
      have hlt := toNat_lt c
      rw [hcode] at hc
      have hhigh : isHigh (0xd800 + (c.toNat - 0x10000) / 0x400) = true := by
        simp only [isHigh, Bool.and_eq_true, decide_eq_true_eq]
        omega
      have hlow : isLow (0xdc00 + (c.toNat - 0x10000) % 0x400) = true := by
        simp only [isLow, Bool.and_eq_true, decide_eq_true_eq]
        omega
      rw [hcode, utf16, if_neg hc, List.cons_append, List.singleton_append, paired, hhigh, hlow,
        Bool.and_self, if_pos rfl, htail]
      have hback : 0x10000 + (0xd800 + (c.toNat - 0x10000) / 0x400 - 0xd800) * 0x400 +
          (0xdc00 + (c.toNat - 0x10000) % 0x400 - 0xdc00) = c.toNat := by omega
      rw [hback, Char.ofNat_toNat]

theorem rejoined_eq_self {s : String} (h : IsJoined s.toList) : rejoined s = s := by
  rw [rejoined, units, paired_units h, String.ofList_toList]

/-! ## Printed characters -/

def isPrinted (c : Char) : Bool := 32 ≤ c.toNat && c.toNat < 127

/-- A text of printed characters of ASCII, so without a line break. -/
def IsLine (s : String) : Prop := ∀ c ∈ s.toList, isPrinted c = true

theorem isLine_iff {s : String} : IsLine s ↔ s.toList.all isPrinted = true :=
  List.all_eq_true.symm

theorem isLine_empty : IsLine "" := isLine_iff.2 rfl

theorem IsLine.append {s t : String} (hs : IsLine s) (ht : IsLine t) : IsLine (s ++ t) := by
  rw [IsLine, String.toList_append]
  exact List.forall_mem_append.2 ⟨hs, ht⟩

theorem isPrinted_hexDigits (width n : ℕ) : ∀ d ∈ Text.hexDigits width n, isPrinted d = true := by
  have hdigit : ∀ k : Fin 16, isPrinted (Nat.digitChar k) = true := by decide
  induction width generalizing n with
  | zero => simp [Text.hexDigits]
  | succ width ih =>
    rw [Text.hexDigits]
    refine List.forall_mem_append.2 ⟨ih (n / 16), List.forall_mem_singleton.2 ?_⟩
    exact hdigit ⟨n % 16, Nat.mod_lt n (by decide)⟩

/-- Strings hold no line break and nothing else outside of the printed characters of ASCII. -/
theorem isPrinted_character (c : Char) : ∀ d ∈ character c, isPrinted d = true := by
  have hunit (n : ℕ) : ∀ d ∈ unit n, isPrinted d = true :=
    List.forall_mem_cons.2 ⟨by decide, List.forall_mem_cons.2 ⟨by decide, isPrinted_hexDigits 4 n⟩⟩
  rw [character]
  split_ifs with hmark hn hr ht hb hf hplain
  · simp only [Bool.or_eq_true, decide_eq_true_eq] at hmark
    rcases hmark with rfl | rfl <;> simp [isPrinted]
  · simp [isPrinted]
  · simp [isPrinted]
  · simp [isPrinted]
  · simp [isPrinted]
  · simp [isPrinted]
  · simp only [Bool.and_eq_true, decide_eq_true_eq] at hplain
    have hcode : Text.code c = c.toNat := code_eq_toNat (by
      simp only [Text.isHalfCode, Bool.and_eq_false_iff, decide_eq_false_iff_not]
      omega)
    rw [hcode] at hplain
    simpa [isPrinted] using hplain
  · exact hunit _
  · exact List.forall_mem_append.2 ⟨hunit _, hunit _⟩

theorem isLine_string (s : String) : IsLine (string s) := by
  have hinner : ∀ d ∈ s.toList.flatMap character, isPrinted d = true := by
    intro d hd
    obtain ⟨c, -, hc⟩ := List.mem_flatMap.1 hd
    exact isPrinted_character c d hc
  rw [IsLine, string, String.toList_ofList]
  exact List.forall_mem_cons.2 ⟨by decide, List.forall_mem_append.2 ⟨hinner, by simp [isPrinted]⟩⟩

/-- Printed characters of ASCII are no halves. -/
theorem isJoined_of_isLine {s : String} (h : IsLine s) : IsJoined s.toList := by
  rw [IsLine] at h
  generalize s.toList = cs at h ⊢
  induction cs with
  | nil => exact .nil
  | cons c cs ih =>
    obtain ⟨hc, hcs⟩ := List.forall_mem_cons.1 h
    refine List.isChain_cons.2 ⟨fun d _ hd => ?_, ih hcs⟩
    have hcode := code_le_toNat c
    simp only [isPrinted, isHigh, Bool.and_eq_true, decide_eq_true_eq] at hc hd
    omega

end Reckoner.Log.Json
