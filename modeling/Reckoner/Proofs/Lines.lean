import Reckoner.Proofs.Layout
import Reckoner.Proofs.Outcomes
import Reckoner.Proofs.Positions
import Reckoner.Repl

/-!
# Lines

The lines of a text put together are the text, and the first of them are the lines of their part of
it. Without the blanks around it a line has no line feed inside, and so there is none in the number
or the message that its expression comes to: each of them is shown on one line.
-/
namespace Reckoner

/-- A text without a line feed. -/
def IsOneLine (text : String) : Prop := '\n' ∉ text.toList

instance : DecidablePred IsOneLine := fun text => inferInstanceAs (Decidable ('\n' ∉ text.toList))

theorem IsOneLine.append {s t : String} (hs : IsOneLine s) (ht : IsOneLine t) :
    IsOneLine (s ++ t) := by
  rw [IsOneLine, String.toList_append, List.mem_append]
  exact fun h => h.elim hs ht

namespace Text

variable {p : Char → Bool} {cs ending : List Char} {c : Char}

theorem mem_of_mem_trim (h : c ∈ trim p cs) : c ∈ cs := by
  have h := (List.dropWhile_suffix p).subset (List.mem_reverse.1 h)
  exact (List.dropWhile_suffix p).subset (List.mem_reverse.1 h)

/-- What is trimmed away may as well be missing. -/
theorem trim_append (h : ∀ c ∈ ending, p c = true) : trim p (cs ++ ending) = trim p cs := by
  have hending : ending.dropWhile p = [] := List.dropWhile_eq_nil_iff.2 h
  have hreverse : ∀ c ∈ ending.reverse, p c = true := fun c hc => h c (List.mem_reverse.1 hc)
  rw [trim, trim, List.dropWhile_append, hending]
  split
  · rename_i hempty
    rw [List.isEmpty_iff.1 hempty]
  · rw [List.reverse_append, List.dropWhile_append_of_pos hreverse]

end Text

namespace Repl

/-! ## The lines of a text -/

theorem linesOf_flatten (cs : List Char) : (linesOf cs).flatten = cs := by
  induction cs with
  | nil => rfl
  | cons c cs ih =>
    rw [linesOf]
    split
    · rw [List.flatten_cons, ih, List.singleton_append]
    · split
      · rename_i h
        rw [h] at ih
        rw [← ih]
        rfl
      · rename_i line lines h
        rw [h, List.flatten_cons] at ih
        rw [List.flatten_cons, List.cons_append, ih]

/-- The first lines of a text are the lines of what they make up. -/
theorem linesOf_take (cs : List Char) (n : ℕ) :
    linesOf ((linesOf cs).take n).flatten = (linesOf cs).take n := by
  induction cs generalizing n with
  | nil => simp [linesOf]
  | cons c cs ih =>
    cases n with
    | zero => rfl
    | succ n =>
      rw [linesOf]
      split
      · rename_i hc
        rw [List.take_succ_cons, List.flatten_cons, List.singleton_append, linesOf, if_pos hc, ih]
      · rename_i hc
        split
        · simp [linesOf, hc]
        · rename_i line lines h
          have ih := ih (n + 1)
          rw [h, List.take_succ_cons, List.flatten_cons] at ih
          rw [List.take_succ_cons, List.flatten_cons, List.cons_append, linesOf, if_neg hc, ih]

/-- A line ends in its only line feed. Only the last one may be without it, and is not empty. -/
theorem exists_content {cs line : List Char} {before after : List (List Char)}
    (h : linesOf cs = before ++ line :: after) :
    ∃ content, '\n' ∉ content ∧
      (line = content ++ ['\n'] ∨ line = content ∧ content ≠ [] ∧ after = []) := by
  induction cs generalizing before line with
  | nil => simp [linesOf] at h
  | cons c cs ih =>
    rw [linesOf] at h
    split at h
    · rename_i hc
      cases before with
      | nil =>
        obtain ⟨rfl, -⟩ := List.cons.inj h
        exact ⟨[], List.not_mem_nil, .inl (by rw [hc, List.nil_append])⟩
      | cons first before => exact ih (List.cons.inj h).2
    · rename_i hc
      have hone {content : List Char} (h : '\n' ∉ content) : '\n' ∉ c :: content := by
        rw [List.mem_cons]
        exact fun h' => h'.elim (fun heq => hc heq.symm) h
      split at h
      · cases before with
        | nil =>
          obtain ⟨rfl, rfl⟩ := List.cons.inj h
          exact ⟨[c], hone List.not_mem_nil, .inr ⟨rfl, List.cons_ne_nil _ _, rfl⟩⟩
        | cons first before => simp at h
      · rename_i first lines hlines
        cases before with
        | nil =>
          obtain ⟨rfl, rfl⟩ := List.cons.inj h
          obtain ⟨content, hcontent, hline⟩ := ih (hlines.trans (List.nil_append _).symm)
          refine ⟨c :: content, hone hcontent, ?_⟩
          rcases hline with rfl | ⟨rfl, -, rfl⟩
          · exact .inl rfl
          · exact .inr ⟨rfl, List.cons_ne_nil _ _, rfl⟩
        | cons _ before =>
          obtain ⟨-, rfl⟩ := List.cons.inj h
          exact ih (hlines.trans List.cons_append.symm)

/-- The lines of a text, each with its line feed. -/
def inputLines (input : String) : List String := (linesOf input.toList).map String.ofList

theorem toList_join_ofList (lines : List (List Char)) :
    (String.join (lines.map String.ofList)).toList = lines.flatten := by
  rw [String.toList_join, List.flatMap_map]
  simp only [String.toList_ofList]
  exact List.flatMap_id'

theorem join_inputLines (input : String) : String.join (inputLines input) = input := by
  rw [← String.toList_inj, inputLines, toList_join_ofList, linesOf_flatten]

theorem inputLines_take (input : String) (n : ℕ) :
    inputLines (String.join ((inputLines input).take n)) = (inputLines input).take n := by
  simp only [inputLines, ← List.map_take, toList_join_ofList, linesOf_take]

/-- A text without a line feed inside is a line. -/
theorem linesOf_line {cs : List Char} (h : '\n' ∉ cs) :
    linesOf (cs ++ ['\n']) = [cs ++ ['\n']] := by
  induction cs with
  | nil => rfl
  | cons c cs ih =>
    obtain ⟨hc, hcs⟩ := List.ne_and_not_mem_of_not_mem_cons h
    rw [List.cons_append, linesOf, if_neg (Ne.symm hc), ih hcs]

theorem inputLines_line {text : String} (h : IsOneLine text) :
    inputLines (text ++ "\n") = [text ++ "\n"] := by
  have hlines : linesOf (text ++ "\n").toList = [(text ++ "\n").toList] := by
    rw [String.toList_append]
    exact linesOf_line h
  rw [inputLines, hlines, List.map_singleton, String.ofList_toList]

/-- A line of an input ends in its only line feed, which only the last one may lack. -/
theorem exists_isOneLine {input line : String} {before after : List String}
    (h : inputLines input = before ++ line :: after) :
    ∃ content, IsOneLine content ∧
      (line = content ++ "\n" ∨ line = content ∧ content ≠ "" ∧ after = []) := by
  obtain ⟨before, rest, hlines, rfl, hrest⟩ := List.map_eq_append_iff.1 h
  obtain ⟨cs, after, rfl, rfl, rfl⟩ := List.map_eq_cons_iff.1 hrest
  obtain ⟨content, hcontent, hline⟩ := exists_content hlines
  refine ⟨String.ofList content, by rwa [IsOneLine, String.toList_ofList], ?_⟩
  rcases hline with rfl | ⟨rfl, hne, rfl⟩
  · exact .inl (String.ofList_append ..)
  · exact .inr ⟨rfl, by simpa using hne, rfl⟩

/-- Without the blanks around it a line has no line feed. -/
theorem trimmed_isOneLine {input line : String} (h : line ∈ inputLines input) :
    IsOneLine (trimmed line) := by
  obtain ⟨before, after, hlines⟩ := List.append_of_mem h
  obtain ⟨content, hcontent, hline⟩ := exists_isOneLine hlines
  have hfeed : ∀ c ∈ ['\n'], isLineBlank c = true := by simp [isLineBlank]
  have htrim : trimmed line = trimmed content := by
    rcases hline with rfl | ⟨rfl, -⟩
    · rw [trimmed, trimmed, String.toList_append, show "\n".toList = ['\n'] from rfl,
        Text.trim_append hfeed]
    · rfl
  rw [htrim, IsOneLine, trimmed, String.toList_ofList]
  exact fun hmem => hcontent (Text.mem_of_mem_trim hmem)

end Repl

/-! ## What is shown -/

theorem not_newline_of_isDigit {c : Char} (h : c.isDigit = true) : c ≠ '\n' := by
  rintro rfl
  exact absurd h (by decide)

theorem Literal.newline_not_mem (l : Literal) : '\n' ∉ l.chars :=
  fun hmem => absurd (l.isPart_of_mem _ hmem) (by decide)

theorem Number.generalText_isOneLine (p : ℕ) (x : Float) : IsOneLine (generalText p x) := by
  have hsigned (negative : Bool) {cs : List Char} (h : '\n' ∉ cs) : '\n' ∉ signed negative cs := by
    cases negative <;> simpa [signed] using h
  rw [IsOneLine, generalText, String.toList_ofList, generalChars]
  split
  · simp
  · exact hsigned _ (by simp)
  · refine hsigned _ ?_
    obtain ⟨l, hl, -⟩ := writes_decimal (generalStyle p) _
    rw [← hl]
    exact l.newline_not_mem

/-- A number is shown on one line, with any number of digits that can be asked for. -/
theorem exists_formatNumber (x : Float) {precision : ℤ} (hp : 0 ≤ precision)
    (hp' : precision ≤ 2147483647) :
    ∃ text, formatNumber x precision = .ok text ∧ IsOneLine text := by
  have h₁ : ¬precision < 0 := by omega
  have h₂ : ¬precision > 9223372036854775807 := by omega
  have h₃ : ¬precision > 2147483647 := by omega
  refine ⟨_, by rw [formatNumber, if_neg h₁, if_neg h₂, if_neg h₃], ?_⟩
  split
  · simp [IsOneLine]
  · exact Number.generalText_isOneLine _ _

theorem isOneLine_of_isIdentifier {name : String} (h : isIdentifier name = true) :
    IsOneLine name := by
  intro hmem
  unfold isIdentifier at h
  split at h
  · cases h
  · rename_i c cs hcs
    rw [hcs, List.mem_cons] at hmem
    simp only [Bool.and_eq_true, List.all_eq_true] at h
    rcases hmem with rfl | hmem
    · exact absurd h.1 (by decide)
    · exact absurd (h.2 _ hmem) (by decide)

/-- A position is shown on one line. -/
theorem Report.text_isOneLine {r : Report} {p : Option ℕ}
    (hp : r.position = p.map Int.ofNat) (h : IsOneLine r.message) : IsOneLine r.text := by
  rw [text, hp]
  cases p with
  | none => exact h
  | some n =>
    have hdigits : (toString (Int.ofNat n)).toList = Decimal.numerals n := String.toList_ofList
    have hnumber : IsOneLine (toString (Int.ofNat n)) := by
      rw [IsOneLine, hdigits]
      exact fun hmem => not_newline_of_isDigit (Number.isDigit_numerals n _ hmem) rfl
    have hplace : IsOneLine " at position " := by decide
    exact (h.append hplace).append hnumber

/-- The report of a failure that an evaluation is documented to have is one line, if the text is:
what it shows of the text is a name or a character. -/
theorem Failure.report_isOneLine {e : Failure} {c : Context} {n : Nesting} {text : String}
    (hkind : e.kind ∈ Kind.documented) (htrue : e.kind.isParse = true → e.TrueOf c n text)
    (ht : IsOneLine text) : IsOneLine e.report.text := by
  cases e with
  | unexpectedEnd p | expectedNumber p | invalidNumber _ p | nestingTooDeep p _ =>
    refine Report.text_isOneLine (p := some p) rfl ?_
    dsimp only [report, Report.parse]
    decide
  | mismatchedParentheses p inCall =>
    refine Report.text_isOneLine (p := some p) rfl ?_
    dsimp only [report, Report.parse]
    cases inCall <;> decide
  | domain fault => exact Report.text_isOneLine (p := none) rfl (by cases fault <;> decide)
  | unknownFunction name p =>
    obtain ⟨-, q, -, after, ⟨before, -, -, hname, -⟩, -⟩ := htrue rfl
    have hwords : IsOneLine "Unknown function: " := by decide
    exact Report.text_isOneLine (p := p) rfl
      (hwords.append (isOneLine_of_isIdentifier hname))
  | unknownIdentifier name p =>
    obtain ⟨-, q, -, after, ⟨before, -, -, hname, -⟩, -⟩ := htrue rfl
    have hwords : IsOneLine "Unknown identifier: " := by decide
    exact Report.text_isOneLine (p := p) rfl
      (hwords.append (isOneLine_of_isIdentifier hname))
  | trailingInput ch p =>
    obtain ⟨hp, -⟩ := htrue rfl
    have hch : IsOneLine (toString ch) := by
      intro hmem
      have heq : ch = '\n' := by simpa [toString, eq_comm] using hmem
      exact ht (heq ▸ List.mem_of_getElem? hp)
    have hwords : IsOneLine "Unexpected character '" := by decide
    exact Report.text_isOneLine (p := some p) rfl ((hwords.append hch).append (by decide))
  | invalidName _ | badContext _ _ | host _ _ =>
    simp [Kind.documented, kind, report] at hkind

namespace Reading

variable {E : Elementary} {c : Context} {r : Reading} {text : String} {e : Failure}

/-- What an evaluation over the functions of the library fails with is shown on one line. -/
theorem report_isOneLine_of_evaluate (hE : E.Documented) (hc : c.IsLibrary)
    (h : r.evaluate E c text = .error e) (ht : IsOneLine text) : IsOneLine e.report.text := by
  have hvalues : c.KeepsToValues := fun hf => by
    obtain ⟨g, hg⟩ := hc hf
    cases hg
  exact e.report_isOneLine (evaluate_documented hE hc h) (trueOf_of_evaluate hvalues h) ht

end Reading
end Reckoner
