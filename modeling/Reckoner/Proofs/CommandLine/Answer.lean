import Reckoner.Proofs.Conversation

/-!
# One expression and one line

An expression on its own and a line of the loop lose the same blanks, and what is left of them is
evaluated and shown in the same way. The answers differ in that the loop notes a failure for the
records, and an expression on its own gives the status of the program.
-/
namespace Reckoner

namespace Text

variable {p q : Char → Bool} {cs before : List Char}

theorem trim_prepend (h : ∀ c ∈ before, p c = true) : trim p (before ++ cs) = trim p cs := by
  rw [trim, trim, List.dropWhile_append_of_pos h]

/-- What is trimmed away from a text. -/
theorem exists_trim (p : Char → Bool) (cs : List Char) : ∃ before after,
    (∀ c ∈ before, p c = true) ∧ (∀ c ∈ after, p c = true) ∧
      cs = before ++ (trim p cs ++ after) := by
  have hend := List.takeWhile_append_dropWhile (p := p) (l := (cs.dropWhile p).reverse)
  refine ⟨cs.takeWhile p, ((cs.dropWhile p).reverse.takeWhile p).reverse,
    fun c hc => List.mem_takeWhile_imp hc,
    fun c hc => List.mem_takeWhile_imp (List.mem_reverse.1 hc), ?_⟩
  rw [trim, ← List.reverse_append, hend, List.reverse_reverse, List.takeWhile_append_dropWhile]

theorem stops_reverse_trim (p : Char → Bool) (cs : List Char) : Stops p (trim p cs).reverse := by
  rw [trim, List.reverse_reverse]
  exact stops_dropWhile p _

theorem stops_trim (p : Char → Bool) (cs : List Char) : Stops p (trim p cs) := by
  intro c hc
  obtain ⟨after, hafter⟩ : trim p cs <+: cs.dropWhile p := List.rdropWhile_prefix p _
  refine stops_dropWhile p cs c ?_
  rw [← hafter, List.head?_append, Option.mem_def.1 hc]
  rfl

/-- Trimming more does nothing where what is left does not begin or end with it. -/
theorem trim_of_stops (hpq : ∀ c, p c = true → q c = true) (hfirst : Stops q (trim p cs))
    (hlast : Stops q (trim p cs).reverse) : trim q cs = trim p cs := by
  obtain ⟨before, after, hbefore, hafter, hcs⟩ := exists_trim p cs
  calc trim q cs = trim q (before ++ (trim p cs ++ after)) := by rw [← hcs]
    _ = trim q (trim p cs ++ after) := trim_prepend fun c hc => hpq c (hbefore c hc)
    _ = trim q (trim p cs) := trim_append fun c hc => hpq c (hafter c hc)
    _ = trim p cs := trim_eq_self hfirst hlast

end Text

namespace Repl

variable {E : Elementary} {r : Repl} {line text : String}

/-- A line without a line feed inside, and without carriage returns around it, loses the same blanks
as an expression on its own. -/
theorem trimmed_line (hline : IsOneLine text)
    (hfirst : '\r' ∉ (Text.trim isBlank text.toList).head?)
    (hlast : '\r' ∉ (Text.trim isBlank text.toList).getLast?) :
    trimmed (text ++ "\n") = String.ofList (Text.trim isBlank text.toList) := by
  have hblank {c : Char} (hc : c ∈ Text.trim isBlank text.toList) (hb : isBlank c = false)
      (hne : c ≠ '\r') : isLineBlank c = false := by
    have hfeed : c ≠ '\n' := by
      rintro rfl
      exact hline (Text.mem_of_mem_trim hc)
    simp [isLineBlank, hb, hne, hfeed]
  have hstops : Stops isLineBlank (Text.trim isBlank text.toList) := fun c hc =>
    hblank (List.mem_of_mem_head? hc) (Text.stops_trim isBlank _ c hc) fun h => hfirst (h ▸ hc)
  have hends : Stops isLineBlank (Text.trim isBlank text.toList).reverse := by
    intro c hc
    have hlast' : c ∈ (Text.trim isBlank text.toList).getLast? := by
      rwa [List.head?_reverse] at hc
    exact hblank (List.mem_of_mem_getLast? hlast') (Text.stops_reverse_trim isBlank _ c hc)
      fun h => hlast (h ▸ hlast')
  have hfeed : ∀ c ∈ ['\n'], isLineBlank c = true := by simp [isLineBlank]
  rw [trimmed, String.toList_append]
  refine congrArg String.ofList ((Text.trim_append hfeed).trans ?_)
  exact Text.trim_of_stops (fun c hc => by simp [isLineBlank, hc]) hstops hends

end Repl

theorem Outcome.exists_format {o : Outcome} (h : o.isOk = false) (precision : Int) :
    ∃ text, o.format precision = .ok text := by
  unfold format
  split
  · exact ⟨_, rfl⟩
  · rename_i herror _
    simp [isOk, herror] at h
  · rename_i herror _
    simp [isOk, herror] at h

namespace CommandLine

/-- An action of the loop and the answer to an expression on its own that are alike, behind the same
emissions: a text on the output, a text on the error stream, or the same failure. The loop notes
what it complains of. -/
inductive Alike (es : List Emission) : Act Bool → Act Nat → Prop
  | value {text : String} : text ≠ "" →
    Alike es ⟨es ++ [.output text], .ok true⟩ ⟨es ++ [.output text], .ok 0⟩
  | failure {record : Log.Record} {text : String} : record.level = .info → text ≠ "" →
    Alike es ⟨es ++ [.record record, .complaint text], .ok true⟩
      ⟨es ++ [.complaint text], .ok 1⟩
  | escape {e : Failure} : Alike es ⟨es, .error e⟩ ⟨es, .error e⟩

theorem line_ne_nil (text : String) : text ++ "\n" ≠ "" := by
  intro h
  simpa using congrArg String.toList h

/-- An expression is answered on its own as on a line. -/
theorem alike_single (E : Elementary) (repl : Repl) {line text : String}
    (h : Repl.trimmed line ∉ "" :: Repl.commands)
    (htext : String.ofList (Text.trim isBlank text.toList) = Repl.trimmed line) :
    Alike (repl.evaluator.tryEvaluate E (Repl.trimmed line)).emitted (repl.handleLine E line)
      (single E repl text) := by
  rw [Repl.handleLine_eq h, single, htext]
  generalize repl.evaluator.tryEvaluate E (Repl.trimmed line) = tried
  obtain ⟨es, e | o⟩ := tried
  · exact .escape
  have htried {α : Type} (f : Outcome → Act α) :
      (⟨es, .ok o⟩ : Act Outcome) >>= f = ⟨es ++ (f o).emitted, (f o).outcome⟩ := rfl
  rw [htried, htried]
  cases hok : o.isOk with
  | true =>
    cases hformat : o.format repl.precision with
    | error e =>
      simp only [Repl.report, hok, hformat, if_true]
      simpa [Act.ofExcept, bind, pure] using Alike.escape
    | ok shown =>
      simp only [Repl.report, hok, hformat, if_true]
      exact .value (line_ne_nil shown)
  | false =>
    obtain ⟨shown, hformat⟩ := Outcome.exists_format hok repl.precision
    simp only [Repl.report, hok, hformat, Bool.false_eq_true, if_false]
    exact .failure rfl (line_ne_nil shown)

end CommandLine
end Reckoner
