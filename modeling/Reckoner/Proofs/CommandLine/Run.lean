import Reckoner.Proofs.CommandLine.Answer
import Reckoner.Proofs.CommandLine.Options
import Reckoner.Proofs.CommandLine.Preparation

/-!
# Runs for one expression

An expression that is asked for in front of other options is answered as the loop that the same
options start answers it on a line: the same is shown on the output and on the error stream, and the
status says on which of them. Two dashes are the one exception, because a word of the command line
does not hand them on.
-/
namespace Reckoner.CommandLine

/-- What emissions put on the error stream: complaints and the lines of records in their order. -/
def Logging.errors (l : Logging) (clock : Log.Clock) (es : List Emission) : String :=
  String.join (es.filterMap fun
    | .output _ => none
    | .complaint text => some text
    | .record r => l.line? clock r)

namespace Logging

variable {l : Logging} {clock : Log.Clock}

theorem errors_append (es fs : List Emission) :
    l.errors clock (es ++ fs) = l.errors clock es ++ l.errors clock fs := by
  simp [errors]

/-- Where warnings are the least that is shown, minor records are not. -/
theorem errors_of_isMinor (hl : Log.Level.warning.rank ≤ l.threshold) {es : List Emission}
    (h : ∀ x ∈ es, x.IsMinor) : l.errors clock es = "" := by
  have hhidden (r : Log.Record) (hr : (Emission.record r).IsMinor) : l.line? clock r = none :=
    if_pos (Nat.lt_of_lt_of_le hr hl)
  rw [errors, Emission.filterMap_of_isMinor hhidden h]
  rfl

end Logging

/-- Options without an expression with which the loop is ready for its lines, where nothing of less
weight than warnings is shown. -/
structure Start (environment : Table String) (files : Files) (options : List String) where
  request : Request
  settings : Settings
  opened : Files
  logFile : Option Location
  logging : Logging
  repl : Repl
  reads : Request.ofArguments options = .ok request
  noExpression : request.expression = none
  loads : Settings.load environment (files.read ".env").toOption = .ok settings
  opens : openLog settings files = .ok (opened, logFile)
  logs : Logging.of settings request = .ok logging
  quiet : Log.Level.warning.rank ≤ logging.threshold
  prepares : (prepare opened.read settings request).outcome = .ok (some repl)

def Status.ofOutcome : Except Failure Nat → Status
  | .ok n => .code n
  | .error e => .failed e

variable {environment : Table String} {files : Files} {options : List String}

/-- The run that ends with an action behind the preparation. -/
def Start.ended (o : Start environment files options) (a : Act Nat) : Run where
  status := .ofOutcome a.outcome
  emitted := (prepare o.opened.read o.settings o.request).emitted ++ a.emitted
  logging := o.logging
  logFile := o.logFile

/-- What is done with a loop. -/
def answer (E : Elementary) (repl : Repl) (input : String) (isInterrupted : Bool) :
    Option (Option String) → Act Nat
  | some (some text) => single E repl text
  | some none => .fail noText
  | none => interact E repl input isInterrupted

/-- Whether an expression is asked for does not matter for the preparation. -/
theorem Start.run_eq (o : Start environment files options) (E : Elementary)
    {arguments : List String} {e : Option (Option String)}
    (h : Request.ofArguments arguments = .ok { o.request with expression := e }) (input : String)
    (isInterrupted : Bool) : run E environment files arguments input isInterrupted =
      o.ended (answer E o.repl input isInterrupted e) := by
  have hlogs : Logging.of o.settings { o.request with expression := e } = .ok o.logging := o.logs
  have hact : act E o.opened.read o.settings { o.request with expression := e } input
      isInterrupted = ⟨(prepare o.opened.read o.settings o.request).emitted ++
        (answer E o.repl input isInterrupted e).emitted,
        (answer E o.repl input isInterrupted e).outcome⟩ := by
    have hprepare : (prepare o.opened.read o.settings
        { o.request with expression := e }).outcome = .ok (some o.repl) := o.prepares
    rw [act, Act.bind_of_ok hprepare]
    obtain _ | _ | text := e <;> rfl
  simp only [run, h, o.loads, o.opens, hlogs, hact]
  rfl

/-- A run that repeats what a line of the loop shows, and whose status says on which stream, or what
has failed. -/
structure Run.Repeats (run : Run) (l : Logging) (line : Act Bool) : Prop where
  output : run.output = Emission.outputs line.emitted
  complaints : ∀ clock, run.complaints clock = l.errors clock line.emitted
  status :
    (line.outcome = .ok true ∧ run.status = .code 0 ∧
      Emission.outputs line.emitted ≠ "" ∧ ∀ clock, l.errors clock line.emitted = "") ∨
    (line.outcome = .ok true ∧ run.status = .code 1 ∧
      Emission.outputs line.emitted = "" ∧ ∀ clock, l.errors clock line.emitted ≠ "") ∨
    ∃ e, line.outcome = .error e ∧ run.status = .failed e ∧
      Emission.outputs line.emitted = "" ∧ ∀ clock, l.errors clock line.emitted = ""

/-- Nothing of what comes before an answer is shown. -/
theorem Start.ended_repeats (o : Start environment files options) {es : List Emission}
    (hes : ∀ x ∈ es, x.IsMinor) {line : Act Bool} {a : Act Nat} (h : Alike es line a) :
    (o.ended a).Repeats o.logging line := by
  have hprepared := (prepare_of_outcome o.prepares).1
  have houtput : (o.ended a).output = Emission.outputs a.emitted := by
    change Emission.outputs (_ ++ a.emitted) = _
    rw [Emission.outputs_append, Emission.outputs_of_isMinor hprepared, String.empty_append]
  have hcomplaints (clock : Log.Clock) :
      (o.ended a).complaints clock = o.logging.errors clock a.emitted := by
    change o.logging.errors clock (_ ++ a.emitted) = _
    rw [Logging.errors_append, Logging.errors_of_isMinor o.quiet hprepared, String.empty_append]
  have hnothing (clock : Log.Clock) : o.logging.errors clock es = "" :=
    Logging.errors_of_isMinor o.quiet hes
  cases h with
  | @value text htext =>
    refine ⟨houtput, hcomplaints, .inl ⟨rfl, rfl, ?_, fun clock => ?_⟩⟩
    · simpa [Emission.outputs_of_isMinor hes] using htext
    · rw [Logging.errors_append, hnothing]
      rfl
  | @failure record text hlevel htext =>
    have hrecord : ∀ x ∈ es ++ [.record record], x.IsMinor := by
      refine List.forall_mem_append.2 ⟨hes, List.forall_mem_singleton.2 ?_⟩
      simp [Emission.IsMinor, hlevel, Log.Level.rank]
    have hshown (clock : Log.Clock) : o.logging.errors clock [.complaint text] = text := by
      simp [Logging.errors]
    have hline (clock : Log.Clock) :
        o.logging.errors clock (es ++ [.record record, .complaint text]) = text := by
      rw [List.append_cons, Logging.errors_append, Logging.errors_of_isMinor o.quiet hrecord,
        hshown, String.empty_append]
    refine ⟨?_, fun clock => ?_, .inr (.inl ⟨rfl, rfl, ?_, fun clock => ?_⟩)⟩
    · simpa using houtput
    · rw [hcomplaints, hline, Logging.errors_append, hnothing, hshown, String.empty_append]
    · simp [Emission.outputs_of_isMinor hes]
    · rwa [hline]
  | @escape e =>
    exact ⟨houtput, hcomplaints, .inr (.inr ⟨e, rfl, rfl, Emission.outputs_of_isMinor hes, hnothing⟩)⟩

/-- Where there are no files none is read. -/
theorem exists_read_error (path : String) :
    ∃ refusal, ({} : Files).read path = .error refusal := by
  have hthrow {α β : Type} (refusal : Files.Refusal) (f : α → Except Files.Refusal β) :
      (throw refusal : Except Files.Refusal α) >>= f = .error refusal := rfl
  unfold Files.read
  simp only [hthrow]
  split
  · exact ⟨_, rfl⟩
  split
  · exact ⟨_, rfl⟩
  split
  · cases ({} : Files).enter (Path.ofText path) <;> exact ⟨_, rfl⟩
  cases ({} : Files).enter (Path.ofText path).parent with
  | error e => exact ⟨e, rfl⟩
  | ok directory =>
    simp only [Bind.bind, Except.bind]
    split <;> exact ⟨_, rfl⟩

/-- What starts without options, variables and files. -/
def Start.plain : Start [] {} [] where
  request := {}
  settings := {}
  opened := {}
  logFile := none
  logging := {}
  repl := ⟨⟨.standard, ({} : Settings).reading none none⟩, "> ", 12⟩
  reads := by
    rw [Request.ofArguments, words]
    change (CommandLine.read {} [] >>= _) = _
    rw [CommandLine.read]
    rfl
  noExpression := rfl
  loads := by
    obtain ⟨refusal, h⟩ := exists_read_error ".env"
    rw [h]
    rfl
  opens := rfl
  logs := rfl
  quiet := by decide
  prepares := rfl

/-- The failure of a line is shown on the error stream. -/
theorem errors_handleLine {E : Elementary} {l : Logging}
    (hl : Log.Level.warning.rank ≤ l.threshold) (repl : Repl) (line : String) {e : Failure}
    (h : Repl.trimmed line ∉ "" :: Repl.commands)
    (he : (repl.evaluator.evaluate E (Repl.trimmed line)).outcome = .error e)
    (hcaptured : e.kind.isCaptured = true) :
    (repl.handleLine E line).outcome = .ok true ∧ ∀ clock,
      l.errors clock (repl.handleLine E line).emitted = "Error: " ++ e.report.text ++ "\n" := by
  have htried := repl.evaluator.tryEvaluate_outcome E (Repl.trimmed line)
  simp only [he, hcaptured, if_true] at htried
  rw [Repl.handleLine_expression h htried (Repl.report_failure _ e)]
  refine ⟨rfl, fun clock => ?_⟩
  have hquiet := repl.evaluator.isQuiet_tryEvaluate E (Repl.trimmed line)
  have hinfo : Log.Level.info.rank < l.threshold := Nat.lt_of_lt_of_le (by decide) hl
  have hrecord : l.line? clock (Repl.failureRecord (.ofFailure (Repl.trimmed line) e)) = none :=
    if_pos hinfo
  rw [Logging.errors_append, Logging.errors_of_isMinor hl hquiet, String.empty_append]
  simp [Logging.errors, hrecord]

/-- An expression in front of options is answered as the loop that the options start answers it on a
line, if it is neither a command nor empty. Two dashes are not handed on: for them the run fails
where a line would be answered. Over the functions of the library every line is answered. -/
theorem run_repeats_line (E : Elementary) (o : Start environment files options) (text : String)
    (hline : IsOneLine text) (hfirst : '\r' ∉ (Text.trim isBlank text.toList).head?)
    (hlast : '\r' ∉ (Text.trim isBlank text.toList).getLast?)
    (hword : String.ofList (Text.trim isBlank text.toList) ∉ "" :: Repl.commands) (input : String)
    (isInterrupted : Bool) :
    run E environment files options input isInterrupted =
        o.ended (interact E o.repl input isInterrupted) ∧
      (text ≠ "--" → (run E environment files (expressionWord text :: options) input
        isInterrupted).Repeats o.logging (o.repl.handleLine E (text ++ "\n"))) ∧
      (text = "--" → run E environment files (expressionWord text :: options) input
        isInterrupted = o.ended (.fail noText)) ∧
      (E.Documented → 0 ≤ o.repl.precision → o.repl.precision ≤ 2147483647 →
        (o.repl.handleLine E (text ++ "\n")).outcome = .ok true) := by
  have htrimmed := Repl.trimmed_line hline hfirst hlast
  have hexpression : Repl.trimmed (text ++ "\n") ∉ "" :: Repl.commands := htrimmed ▸ hword
  have harguments : Request.ofArguments (expressionWord text :: options) =
      .ok { o.request with expression := some (argumentOf text) } := by
    rw [Request.ofArguments_expressionWord, o.reads]
    simp [Except.map, Request.orAsk, o.noExpression]
  have hrun := o.run_eq E harguments input isInterrupted
  refine ⟨?_, fun hdashes => ?_, fun hdashes => ?_, fun hE hp hp' => ?_⟩
  · have hloop : { o.request with expression := none } = o.request := by
      rw [← o.noExpression]
    exact o.run_eq E (o.reads.trans (congrArg _ hloop.symm)) input isInterrupted
  · rw [argumentOf, if_neg hdashes] at hrun
    rw [hrun]
    exact o.ended_repeats (o.repl.evaluator.isQuiet_tryEvaluate E _)
      (alike_single E o.repl hexpression htrimmed.symm)
  · rw [hrun, argumentOf, if_pos hdashes]
    rfl
  · have hmem : text ++ "\n" ∈ Repl.inputLines (text ++ "\n") := by
      rw [Repl.inputLines_line hline]
      exact List.mem_singleton_self _
    rw [(Repl.handleLine_replies hE (prepare_of_outcome o.prepares).2 hp hp' hmem).1,
      Repl.not_ends hexpression]
    rfl

open Grammar in
/-- A sign without an operand fails on its own as on a line. -/
theorem run_repeats_line_sign :
    (run .checked [] {} [expressionWord "-"] "" false).Repeats {}
        (Start.plain.repl.handleLine .checked "-\n") ∧
      (run .checked [] {} [expressionWord "-"] "" false).status = .code 1 ∧
      ∀ clock, (run .checked [] {} [expressionWord "-"] "" false).complaints clock =
        "Error: Unexpected end of expression at position 1\n" := by
  have hfails : Fails ((Context.productions .checked .standard).reporting 100) ⟨100, some 960⟩
      (Reading.call "-") (.unexpectedEnd 1) :=
    .within .first (.within .first (.within (.sign rfl rfl) (.here (.atEnd rfl))))
  have hevaluate : (Start.plain.repl.evaluator.evaluate .checked (Repl.trimmed "-\n")).outcome =
      .error (.unexpectedEnd 1) := Reading.run_eq_error_iff.2 (.inl hfails)
  obtain ⟨houtcome, herrors⟩ :=
    errors_handleLine Start.plain.quiet Start.plain.repl "-\n" (by decide) hevaluate rfl
  have hrepeats := (run_repeats_line .checked Start.plain "-" (by decide) (by decide)
    (by decide) (by decide) "" false).2.1 (by decide)
  refine ⟨hrepeats, ?_, fun clock => (hrepeats.complaints clock).trans (herrors clock)⟩
  obtain ⟨-, -, -, hnothing⟩ | ⟨-, hstatus, -⟩ | ⟨e, herror, -⟩ := hrepeats.status
  · exact absurd ((herrors ⟨"", ""⟩).symm.trans (hnothing ⟨"", ""⟩)) (by decide)
  · exact hstatus
  · exact absurd (houtcome.symm.trans herror) (by simp)

open Grammar in
/-- Two signs without an operand are answered with a message on a line. On their own they are taken
for the mark that ends the options, and there is no answer. -/
theorem run_dashes : 0 ≤ Start.plain.repl.precision ∧ IsOneLine "--" ∧
    '\r' ∉ (Text.trim isBlank "--".toList).head? ∧
    '\r' ∉ (Text.trim isBlank "--".toList).getLast? ∧
    String.ofList (Text.trim isBlank "--".toList) ∉ "" :: Repl.commands ∧
    (Start.plain.repl.handleLine .checked "--\n").outcome = .ok true ∧
    (∀ clock, Start.plain.logging.errors clock
      (Start.plain.repl.handleLine .checked "--\n").emitted =
        "Error: Unexpected end of expression at position 2\n") ∧
    (run .checked [] {} [expressionWord "--"] "" false).status = .failed noText ∧
    ∀ clock, (run .checked [] {} [expressionWord "--"] "" false).complaints clock = "" := by
  have hfails : Fails ((Context.productions .checked .standard).reporting 100) ⟨100, some 960⟩
      (Reading.call "--") (.unexpectedEnd 2) :=
    .within .first (.within .first (.within (.sign rfl rfl) (.within (.sign rfl rfl)
      (.here (.atEnd rfl)))))
  have hevaluate : (Start.plain.repl.evaluator.evaluate .checked (Repl.trimmed "--\n")).outcome =
      .error (.unexpectedEnd 2) := Reading.run_eq_error_iff.2 (.inl hfails)
  obtain ⟨houtcome, herrors⟩ :=
    errors_handleLine Start.plain.quiet Start.plain.repl "--\n" (by decide) hevaluate rfl
  have harguments : Request.ofArguments [expressionWord "--"] =
      .ok { Start.plain.request with expression := some none } := by
    rw [Request.ofArguments_expressionWord, Start.plain.reads]
    rfl
  have hrun := Start.plain.run_eq .checked harguments "" false
  refine ⟨by decide, by decide, by decide, by decide, by decide, houtcome, herrors, by rw [hrun]; rfl,
    fun clock => ?_⟩
  have hprepared := (prepare_of_outcome Start.plain.prepares).1
  rw [hrun]
  change Start.plain.logging.errors clock (_ ++ []) = ""
  rw [Logging.errors_append, Logging.errors_of_isMinor Start.plain.quiet hprepared]
  rfl

end Reckoner.CommandLine
