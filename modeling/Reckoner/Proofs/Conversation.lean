import Reckoner.CommandLine
import Reckoner.Proofs.Contexts
import Reckoner.Proofs.Emissions
import Reckoner.Proofs.Lines

/-!
# Conversations

A conversation is a fold over the lines of its input, each of which is handled as if it were the
only one. No line makes it fail: over the functions of the library every expression comes to one
line on the output or to one line on the error stream. It goes on up to the first line that ends it,
and what follows that line does not matter.
-/
namespace Reckoner

namespace Repl

/-- The words that are not read as expressions. -/
def commands : List String := ["exit", "quit", "help", "clear", "functions", "constants"]

/-- Whether a line ends the conversation. -/
def ends (line : String) : Bool := trimmed line == "exit" || trimmed line == "quit"

/-- The lines up to the first one that ends the conversation, with that one. -/
def handled (lines : List String) : List String := lines.take (lines.findIdx ends + 1)

/-- What is said to a line on the output and on the error stream. -/
inductive Replies (E : Elementary) (r : Repl) (line : String) : String → String → Prop
  | blank : trimmed line = "" → Replies E r line "" ""
  | command (text : String) : trimmed line ∈ commands → Replies E r line text ""
  | value {x : Float} {text : String} : trimmed line ∉ "" :: commands →
    (r.evaluator.evaluate E (trimmed line)).outcome = .ok x →
    formatNumber x r.precision = .ok text → IsOneLine text →
    Replies E r line ("Result: " ++ text ++ "\n") ""
  | failure {e : Failure} : trimmed line ∉ "" :: commands →
    (r.evaluator.evaluate E (trimmed line)).outcome = .error e → IsOneLine e.report.text →
    Replies E r line "" ("Error: " ++ e.report.text ++ "\n")

variable {E : Elementary} {r : Repl} {line : String} {lines : List String}

theorem handleLine_blank (h : trimmed line = "") : r.handleLine E line = pure true := by
  unfold handleLine
  generalize trimmed line = word at *
  subst h
  rfl

theorem handleLine_command (h : trimmed line ∈ commands) :
    (r.handleLine E line).outcome = .ok (!ends line) ∧
      Emission.complaints (r.handleLine E line).emitted = "" := by
  have houtputs (es : List (String × Float)) :
      Emission.complaints (es.map fun e => .output (constantLine e)) = "" := by
    simp [Emission.complaints, List.filterMap_map, Function.comp_def, Emission.complaint?]
  rw [ends]
  unfold handleLine
  generalize trimmed line = word at *
  split
  case h_8 hblank hexit hquit hhelp hclear hfunctions hconstants =>
    simp only [commands, List.mem_cons, List.not_mem_nil, or_false] at h
    rcases h with rfl | rfl | rfl | rfl | rfl | rfl <;> contradiction
  case h_7 => exact ⟨rfl, (congrArg _ (List.append_nil _)).trans (houtputs _)⟩
  all_goals exact ⟨rfl, rfl⟩

/-- Every other line is an expression, which is evaluated and reported. -/
theorem handleLine_eq (h : trimmed line ∉ "" :: commands) : r.handleLine E line = do
    r.report (← r.evaluator.tryEvaluate E (trimmed line))
    return true := by
  simp only [commands, List.mem_cons, List.not_mem_nil, or_false, not_or] at h
  obtain ⟨hblank, hexit, hquit, hhelp, hclear, hfunctions, hconstants⟩ := h
  unfold handleLine
  generalize trimmed line = word at *
  split
  case h_8 => rfl
  all_goals contradiction

theorem handleLine_expression {o : Outcome} {es : List Emission}
    (h : trimmed line ∉ "" :: commands)
    (ho : (r.evaluator.tryEvaluate E (trimmed line)).outcome = .ok o)
    (hr : r.report o = ⟨es, .ok ()⟩) :
    r.handleLine E line =
      ⟨(r.evaluator.tryEvaluate E (trimmed line)).emitted ++ es, .ok true⟩ := by
  have hreport : (do r.report o; return true : Act Bool) = ⟨es, .ok true⟩ := by
    rw [hr, Act.bind_of_ok rfl]
    exact congrArg (Act.mk · _) (List.append_nil es)
  rw [handleLine_eq h, Act.bind_of_ok ho, hreport]

theorem not_ends (h : trimmed line ∉ "" :: commands) : ends line = false := by
  simp only [commands, List.mem_cons, List.not_mem_nil, or_false, not_or] at h
  obtain ⟨-, hexit, hquit, -⟩ := h
  simp [ends, hexit, hquit]

/-- A value is shown on the output. -/
theorem report_value (expression : String) {x : Float} {text : String}
    (h : formatNumber x r.precision = .ok text) :
    r.report { expression, value := some x } =
      ⟨[.output ("Result: " ++ text ++ "\n")], .ok ()⟩ := by
  simp only [report, Outcome.isOk, Option.isNone_none, if_true, Outcome.format, h]
  rfl

/-- A failure is shown on the error stream, and recorded. -/
theorem report_failure (expression : String) (e : Failure) :
    r.report (Outcome.ofFailure expression e) =
      ⟨[.record (failureRecord (Outcome.ofFailure expression e)),
        .complaint ("Error: " ++ e.report.text ++ "\n")], .ok ()⟩ := rfl

section

variable {input : String} (hE : E.Documented) (hc : r.evaluator.context.IsLibrary)
  (hp : 0 ≤ r.precision) (hp' : r.precision ≤ 2147483647)

include hE hc hp hp'

/-- No line of an input makes its handling fail. -/
theorem handleLine_replies (h : line ∈ inputLines input) :
    (r.handleLine E line).outcome = .ok (!ends line) ∧
      Replies E r line (Emission.outputs (r.handleLine E line).emitted)
        (Emission.complaints (r.handleLine E line).emitted) := by
  by_cases hblank : trimmed line = ""
  · have hends : ends line = false := by simp [ends, hblank]
    rw [handleLine_blank hblank, hends]
    exact ⟨rfl, .blank hblank⟩
  by_cases hcommand : trimmed line ∈ commands
  · obtain ⟨houtcome, hcomplaints⟩ := handleLine_command (E := E) (r := r) hcommand
    rw [hcomplaints]
    exact ⟨houtcome, .command _ hcommand⟩
  have hexpression : trimmed line ∉ "" :: commands := by simp [hblank, hcommand]
  have htotal := r.evaluator.tryEvaluate_outcome E (trimmed line)
  have hquiet := r.evaluator.isQuiet_tryEvaluate E (trimmed line)
  have houtputs := Emission.outputs_of_isMinor hquiet
  have hcomplaints := Emission.complaints_of_isMinor hquiet
  rw [not_ends hexpression]
  cases hvalue : (r.evaluator.evaluate E (trimmed line)).outcome with
  | ok x =>
    obtain ⟨text, htext, hline⟩ := exists_formatNumber x hp hp'
    rw [hvalue] at htotal
    rw [handleLine_expression hexpression htotal (report_value _ htext), Emission.outputs_append,
      Emission.complaints_append, houtputs, hcomplaints]
    have hreply := Replies.value hexpression hvalue htext hline
    exact ⟨rfl, by simpa using hreply⟩
  | error e =>
    have hdocumented := Reading.evaluate_documented hE hc hvalue
    have hline := Reading.report_isOneLine_of_evaluate hE hc hvalue (trimmed_isOneLine h)
    rw [hvalue] at htotal
    simp only [Kind.isCaptured_of_mem_documented hdocumented, if_true] at htotal
    rw [handleLine_expression hexpression htotal (report_failure _ e), Emission.outputs_append,
      Emission.complaints_append, houtputs, hcomplaints]
    have hreply := Replies.failure hexpression hvalue hline
    exact ⟨rfl, by simpa using hreply⟩

end

/-- What a turn emits: the prompt, and what is said to the line. -/
def turn (E : Elementary) (r : Repl) (line : String) : List Emission :=
  .output r.prompt :: (r.handleLine E line).emitted

/-- The loop takes turns up to the line that ends it, or prompts once more. -/
theorem loop_eq (h : ∀ line ∈ lines, (r.handleLine E line).outcome = .ok (!ends line)) :
    r.loop E lines = ⟨(handled lines).flatMap (turn E r) ++
      (if lines.any ends then [] else [.output r.prompt]), .ok (lines.any ends)⟩ := by
  induction lines with
  | nil => rfl
  | cons line lines ih =>
    have hline := h line List.mem_cons_self
    have ih := ih fun line hline => h line (List.mem_cons_of_mem _ hline)
    rw [loop, Act.bind_of_ok rfl, Act.bind_of_ok hline]
    cases hends : ends line with
    | true => simp [handled, hends, List.findIdx_cons, turn, Act.write, Act.emit, pure]
    | false => simp [handled, hends, List.findIdx_cons, turn, Act.write, Act.emit, ih]

/-- The conversation over an input. -/
structure Converses (E : Elementary) (r : Repl) (input : String) : Prop where
  /-- Put together the lines are the input. Each ends in its only line feed, which only the last one
  may lack. -/
  lines : String.join (inputLines input) = input ∧
    ∀ before line after, inputLines input = before ++ line :: after → ∃ content,
      IsOneLine content ∧ (line = content ++ "\n" ∨ line = content ∧ content ≠ "" ∧ after = [])
  /-- It ends well, whatever its lines are. -/
  status : (CommandLine.interact E r input false).outcome = .ok 0
  ended : (r.run E input).outcome = .ok ((inputLines input).any ends)
  /-- Every line that is handled is prompted for; so is the end of an input without a line that ends
  the conversation. -/
  output : Emission.outputs (r.run E input).emitted =
    banner ++ "\n" ++ (help ++ "\n") ++ String.join ((handled (inputLines input)).map fun line =>
      r.prompt ++ Emission.outputs (r.handleLine E line).emitted) ++
    if (inputLines input).any ends then "" else r.prompt
  complaints : Emission.complaints (r.run E input).emitted =
    String.join ((handled (inputLines input)).map fun line =>
      Emission.complaints (r.handleLine E line).emitted)
  /-- A line on its own goes on unless it ends the conversation, and gets its reply. -/
  replies : ∀ line ∈ inputLines input, (r.handleLine E line).outcome = .ok (!ends line) ∧
    Replies E r line (Emission.outputs (r.handleLine E line).emitted)
      (Emission.complaints (r.handleLine E line).emitted)
  /-- What follows the line that ends the conversation has no effect. -/
  rest : r.run E (String.join (handled (inputLines input))) = r.run E input

/-- The greeting, and the turns. -/
theorem run_eq {input : String}
    (h : ∀ line ∈ inputLines input, (r.handleLine E line).outcome = .ok (!ends line)) :
    r.run E input = ⟨.output (banner ++ "\n") :: .output (help ++ "\n") ::
      ((handled (inputLines input)).flatMap (turn E r) ++
        if (inputLines input).any ends then [] else [.output r.prompt]),
      .ok ((inputLines input).any ends)⟩ := by
  have hgreet : greet = ⟨[.output (banner ++ "\n"), .output (help ++ "\n")], .ok ()⟩ := rfl
  rw [run, hgreet, Act.bind_of_ok rfl, ← inputLines, loop_eq h]
  rfl

theorem any_handled (lines : List String) : (handled lines).any ends = lines.any ends := by
  induction lines with
  | nil => rfl
  | cons line lines ih =>
    cases hends : ends line with
    | true => simp [handled, hends, List.findIdx_cons]
    | false =>
      simp only [handled, hends, List.findIdx_cons, cond_false, List.take_succ_cons, List.any_cons]
      exact congrArg _ ih

/-- What is handled of the lines that are handled is all of them. -/
theorem handled_handled (lines : List String) : handled (handled lines) = handled lines := by
  have hmin (n : ℕ) : min (min (n + 1) n + 1) (n + 1) = n + 1 := by omega
  rw [handled, handled, List.findIdx_take, List.take_take, hmin]

/-- Over the functions of the library a conversation takes every line on its own: it replies to each
up to the one that ends it, whatever the other lines are, and always ends well. -/
theorem converses (E : Elementary) (hE : E.Documented) (r : Repl)
    (hc : r.evaluator.context.IsLibrary) (hp : 0 ≤ r.precision) (hp' : r.precision ≤ 2147483647)
    (input : String) : r.Converses E input := by
  have hrun (input : String) := run_eq (E := E) (r := r)
    fun line (hline : line ∈ inputLines input) => (handleLine_replies hE hc hp hp' hline).1
  have hlines : inputLines (String.join (handled (inputLines input))) =
      handled (inputLines input) := inputLines_take input _
  exact {
    lines := ⟨join_inputLines input, fun _ _ _ => exists_isOneLine⟩
    status := by
      rw [CommandLine.interact, hrun, Act.bind_of_ok rfl]
      simp [pure]
    ended := by rw [hrun]
    output := by
      rw [hrun]
      cases (inputLines input).any ends <;>
        simp [Emission.outputs_flatMap, turn, String.append_assoc]
    complaints := by
      rw [hrun]
      cases (inputLines input).any ends <;> simp [Emission.complaints_flatMap, turn]
    replies := fun _ hline => handleLine_replies hE hc hp hp' hline
    rest := by rw [hrun, hrun, hlines, any_handled, handled_handled] }

/-- A failure and the end of a conversation before its last line. -/
theorem converses_exit :
    (⟨⟨.standard, ({} : Settings).reading none none⟩, "> ", 12⟩ : Repl).Converses Elementary.checked
        "1/0\n exit\r\n2" ∧
      handled (inputLines "1/0\n exit\r\n2") = ["1/0\n", " exit\r\n"] :=
  ⟨converses _ Elementary.checked_documented _ Context.isLibrary_standard (by decide) (by decide) _,
    by decide +kernel⟩

end Repl
end Reckoner
