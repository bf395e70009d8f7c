import Reckoner.Calculator
import Reckoner.Log.Line
import Reckoner.Proofs.Json.Failures
import Reckoner.Proofs.Longest

/-!
# Records as JSON

The line of a record is one JSON object with its time, level, logger and message and all of its
fields, as long as no two of them share a name and every double is finite. What an evaluation or a
parse records has names of its own, but a result that is not finite makes its line unreadable.
-/
namespace Reckoner

open Double

namespace Log

/-- Fields with new names come behind the others. -/
theorem mergeFields_of_nodup {fixed fields : List (String × Datum)}
    (h : ((fixed ++ fields).map Prod.fst).Nodup) : mergeFields fixed fields = fixed ++ fields := by
  induction fields generalizing fixed with
  | nil => simp [mergeFields]
  | cons f fields ih =>
    have hnew : fixed.any (·.1 == f.1) = false := by
      rw [List.map_append, List.map_cons, List.nodup_append] at h
      rw [List.any_eq_false]
      intro g hg heq
      exact h.2.2 _ (List.mem_map_of_mem hg) _ List.mem_cons_self (by simpa using heq)
    have hstep : mergeFields fixed (f :: fields) = mergeFields (fixed ++ [f]) fields := by
      simp [mergeFields, hnew]
    rw [hstep, ih (by simpa using h), List.append_assoc, List.singleton_append]

/-- All that a line holds by its names, with an exception at the end. -/
def Record.entries (clock : Clock) (r : Record) (exception : Option String) :
    List (String × Datum) :=
  [("timestamp", Datum.text clock.json), ("level", .text r.level.label),
    ("logger", .text r.logger), ("message", .text r.message)] ++ r.fields ++
    exception.toList.map fun e => ("exception", Datum.text e)

theorem Record.line_json {clock : Clock} {r : Record} {exception : Option String}
    (h : ((r.entries clock exception).map Prod.fst).Nodup) :
    r.line clock .json exception = Json.value (Datum.fields (r.entries clock exception)) := by
  have hfront := h
  rw [entries, List.map_append, List.nodup_append] at hfront
  unfold line jsonLine
  dsimp only
  rw [mergeFields_of_nodup hfront.1]
  cases exception <;> rw [mergeFields_of_nodup (by simpa [entries] using h)] <;> rfl

theorem Record.isLine_line_json (clock : Clock) (r : Record) (exception : Option String) :
    Json.IsLine (r.line clock .json exception) := Json.isLine_value _

/-- When a line is a JSON text, and what it holds. -/
theorem Record.isText_line_iff {clock : Clock} {r : Record} {exception : Option String}
    (h : ((r.entries clock exception).map Prod.fst).Nodup) (d : Datum) :
    Json.IsText (r.line clock .json exception) d ↔
      Json.isFinite (Datum.fields (r.entries clock exception)) = true ∧
        d = Json.decoded (Datum.fields (r.entries clock exception)) := by
  rw [line_json h, Json.isText_value_iff]

end Log

namespace Expr

open Grammar Log.Json

theorem isPrinted_quoted {text : String} (h : IsLine text) : ∀ c ∈ quoted text, isPrinted c = true :=
  List.forall_mem_cons.2 ⟨by decide, List.forall_mem_append.2 ⟨h, by simp [isPrinted, quote]⟩⟩

theorem isLine_of_parts {t : Expr} (h : ∀ c ∈ t.parts, isPrinted c = true) : IsLine t.debug := by
  have hword : IsLine t.shape.word := by
    cases t <;> exact isLine_iff.2 (by cbv)
  rw [IsLine, toList_debug]
  exact List.forall_mem_append.2 ⟨hword, List.forall_mem_cons.2 ⟨by decide,
    List.forall_mem_append.2 ⟨h, by simp [isPrinted]⟩⟩⟩

/-- The debug form of a tree that was read is printed on one line. -/
theorem isLine_debug {t : Expr} (ht : t.WellFormed) (hn : t.Numbers FromZero) :
    IsLine t.debug := by
  have hop : ∀ op ∈ ["+", "-", "*", "/", "%", "^"], IsLine op := by
    simp only [isLine_iff, ← List.all_eq_true]
    cbv
  have hsigns : ["+", "-"] ⊆ ["+", "-", "*", "/", "%", "^"] := by decide
  have hnext {cs : List Char} (hcs : ∀ c ∈ cs, isPrinted c = true) :
      ∀ c ∈ separator ++ cs, isPrinted c = true :=
    List.forall_mem_append.2 ⟨by simp [separator, isPrinted], hcs⟩
  induction t with
  | number x =>
    refine isLine_of_parts ?_
    rw [parts]
    rcases Number.shortestChars_cases hn with ⟨hx, -⟩ | ⟨l, hx, -⟩ <;> rw [hx]
    · simp [isPrinted]
    · exact fun c hc => isPrinted_of_isPart (l.isPart_of_mem c hc)
  | constant name => exact isLine_of_parts (isPrinted_quoted (isLine_of_isIdentifier ht))
  | unary op a ih =>
    exact isLine_of_parts (List.forall_mem_append.2
      ⟨isPrinted_quoted (hop op (hsigns ht.1)), hnext (ih ht.2 hn)⟩)
  | binary a op d iha ihd =>
    exact isLine_of_parts (List.forall_mem_append.2 ⟨iha ht.2.1 hn.1, hnext
      (List.forall_mem_append.2 ⟨isPrinted_quoted (hop op ht.1), hnext (ihd ht.2.2 hn.2)⟩)⟩)
  | call f a ih =>
    exact isLine_of_parts (List.forall_mem_append.2
      ⟨isPrinted_quoted (isLine_of_isIdentifier ht.1), hnext (ih ht.2 hn)⟩)

end Expr

namespace Calculator

open Log Log.Json

/-- What an evaluation or a parse ends in: the message of its record and the last field. -/
inductive Ends (E : Elementary) (v : Evaluator) (r : Reading) (text : String) :
    String → String × Datum → Prop
  | result {x} : v.reading.evaluate E v.context text = .ok x →
    Ends E v r text "Evaluated expression" ("result", .float x)
  | error {e} : v.reading.evaluate E v.context text = .error e → e.kind.isCalculator = true →
    Ends E v r text "Evaluation failed" ("error", Datum.fields e.report.fields)
  | tree {t} : r.parse text = .ok t →
    Ends E v r text "Parsed expression" ("tree", .text t.debug)

variable {E : Elementary} {v : Evaluator} {r : Reading} {text : String}

/-- Every record carries the text and what came of it. -/
theorem exists_ends {record : Record}
    (h : record ∈ Emission.records ((v.evaluate E text).emitted ++ (parse r text).emitted)) :
    ∃ message last, Ends E v r text message last ∧
      record = parserRecord message [("expression", .text text), last] := by
  rw [Emission.records, List.filterMap_append, List.mem_append] at h
  rcases h with h | h
  · simp only [Evaluator.evaluate] at h
    cases hresult : v.reading.evaluate E v.context text with
    | ok x =>
      rw [hresult] at h
      exact ⟨_, _, .result hresult, List.mem_singleton.1 h⟩
    | error e =>
      rw [hresult, evaluationRecord] at h
      split at h
      · exact ⟨_, _, .error hresult ‹_›, List.mem_singleton.1 h⟩
      · cases h
  · cases htree : r.parse text with
    | ok t =>
      rw [parse, htree] at h
      exact ⟨_, _, .tree htree, List.mem_singleton.1 h⟩
    | error e =>
      rw [parse, htree] at h
      cases h

namespace Ends

variable {message : String} {last : String × Datum} {clock : Clock}

/-- No name of a field stands twice. -/
theorem nodup_entries (h : Ends E v r text message last) :
    (((parserRecord message [("expression", .text text), last]).entries clock none).map
      Prod.fst).Nodup := by
  have hnames : ∀ name ∈ ["result", "error", "tree"], ["timestamp", "level", "logger", "message",
      "component", "expression", name].Nodup := by decide
  refine hnames last.1 ?_
  cases h <;> simp

/-- Only a result can be a double that is not finite. -/
theorem isFinite_entries_iff (h : Ends E v r text message last) :
    isFinite (Datum.fields
        ((parserRecord message [("expression", .text text), last]).entries clock none)) = true ↔
      ∀ x, last.2 = .float x → x.isFinite = true := by
  have hlast : isFinite last.2 = true ↔ ∀ x, last.2 = .float x → x.isFinite = true := by
    cases h with
    | result => simp [isFinite]
    | tree => simp [isFinite]
    | error => exact iff_of_true (Failure.isFinite_report _) fun x hx => by cases hx
  rw [isFinite_fields, ← hlast]
  simp [Record.entries, parserRecord, isFinite]

theorem isWhole_entries (h : Ends E v r text message last) (hclock : IsJoined clock.json.toList)
    (htext : IsJoined text.toList) (hc : v.context.FailsWhole) : IsWhole (Datum.fields
      ((parserRecord message [("expression", .text text), last]).entries clock none)) := by
  have hlast : IsJoined message.toList ∧ IsJoined last.1.toList ∧ IsWhole last.2 := by
    cases h with
    | result => exact ⟨isJoined_word (by cbv), isJoined_word (by cbv), trivial⟩
    | error he hcalculator =>
      exact ⟨isJoined_word (by cbv), isJoined_word (by cbv),
        Reading.isWhole_of_evaluate hc he hcalculator⟩
    | tree ht =>
      have hdebug := Expr.isLine_debug (Reading.wellFormed_of_parse ht)
        (Reading.fromZero_of_parse ht)
      have hname : IsJoined "tree".toList := isJoined_word (by cbv)
      exact ⟨isJoined_word (by cbv), hname, isJoined_of_isLine hdebug⟩
  rw [isWhole_fields]
  simp only [Record.entries, parserRecord, List.cons_append, List.nil_append, List.forall_mem_cons]
  exact ⟨⟨isJoined_word (by cbv), hclock⟩, ⟨isJoined_word (by cbv), isJoined_word (by cbv)⟩,
    ⟨isJoined_word (by cbv), isJoined_word (by cbv)⟩, ⟨isJoined_word (by cbv), hlast.1⟩,
    ⟨isJoined_word (by cbv), isJoined_word (by cbv)⟩, ⟨isJoined_word (by cbv), htext⟩,
    hlast.2, by simp⟩

end Ends

/-- What an evaluation or a parse records is printed on one line. The line is a JSON text unless the
result is infinite or no number, and then an object with all the fields, no two of one name, that a
reader gets back as they were. In a text a character from U+10D800 to U+10DFFF stands for half of a
pair, so texts with one of these characters in its own right are not covered. -/
theorem records_decode (E : Elementary) (v : Evaluator) (r : Reading) (text : String)
    (clock : Clock) {record : Record}
    (h : record ∈ Emission.records ((v.evaluate E text).emitted ++ (parse r text).emitted)) :
    ∃ last, Ends E v r text record.message last ∧
      record.fields = [("component", .text "parser"), ("expression", .text text), last] ∧
      let fields := [("timestamp", Datum.text clock.json), ("level", .text record.level.label),
        ("logger", .text record.logger), ("message", .text record.message)] ++ record.fields
      let line := record.line clock .json none
      (fields.map Prod.fst).Nodup ∧ IsLine line ∧
      (∀ d, IsText line d ↔
        (∀ x, last.2 = .float x → x.isFinite = true) ∧ d = decoded (Datum.fields fields)) ∧
      (IsJoined clock.json.toList → IsJoined text.toList → v.context.FailsWhole →
        decoded (Datum.fields fields) = Datum.fields fields) := by
  obtain ⟨message, last, hends, rfl⟩ := exists_ends h
  refine ⟨last, hends, rfl, ?_⟩
  intro fields line
  refine ⟨hends.nodup_entries, Record.isLine_line_json _ _ _, fun d => ?_, fun hclock htext hc => ?_⟩
  · rw [Record.isText_line_iff hends.nodup_entries, hends.isFinite_entries_iff]
    rfl
  · exact decoded_eq_self _ (hends.isWhole_entries hclock htext hc)

/-- An evaluator in the standard context. -/
def standardEvaluator : Evaluator := ⟨.standard, ⟨.unlimited, true⟩⟩

def midnight : Clock := ⟨"2024-01-01 00:00:00", "2024-01-01T00:00:00+00:00"⟩

/-- What comes of a literal is recorded. -/
theorem mem_records_literal (l : Literal) :
    parserRecord "Evaluated expression"
        [("expression", .text (String.ofList l.chars)), ("result", .float l.value)] ∈
      Emission.records (standardEvaluator.evaluate .native (String.ofList l.chars)).emitted := by
  have hvalue : standardEvaluator.reading.evaluate .native standardEvaluator.context
      (String.ofList l.chars) = .ok l.value := Reading.run_literal _ _ l
  simp only [Evaluator.evaluate, hvalue, evaluationRecord]
  exact List.mem_cons_self

theorem records_decode_half : ∃ record ∈ Emission.records
    ((standardEvaluator.evaluate .native ".5").emitted ++
      (parse standardEvaluator.reading ".5").emitted),
    IsText (record.line midnight .json none) (Datum.fields [("timestamp", .text midnight.json),
      ("level", .text "DEBUG"), ("logger", .text "advcalc.parser.parser"),
      ("message", .text "Evaluated expression"), ("component", .text "parser"),
      ("expression", .text ".5"), ("result", .float 0.5)]) := by
  let l : Literal := ⟨[], some ['5'], none, by simp, by simp, by simp⟩
  have hvalue : l.value = 0.5 := by decide +kernel
  let record := parserRecord "Evaluated expression"
    [("expression", .text ".5"), ("result", .float l.value)]
  have hmem : record ∈ Emission.records ((standardEvaluator.evaluate .native ".5").emitted ++
      (parse standardEvaluator.reading ".5").emitted) := by
    rw [Emission.records, List.filterMap_append]
    exact List.mem_append_left _ (mem_records_literal l)
  obtain ⟨last, -, hfields, -, -, htext, hwhole⟩ :=
    records_decode .native standardEvaluator standardEvaluator.reading ".5" midnight hmem
  obtain rfl : ("result", .float l.value) = last := by
    simpa [record, parserRecord] using hfields
  have hself := hwhole (isJoined_of_isLine (by simp [IsLine, isPrinted, midnight]))
    (isJoined_of_isLine (by simp [IsLine, isPrinted])) Context.isLibrary_standard.failsWhole
  have hread := (htext _).2 ⟨by rw [hvalue]; rintro _ ⟨⟩; decide +kernel, rfl⟩
  rw [hself] at hread
  refine ⟨record, hmem, ?_⟩
  rw [← hvalue]
  exact hread

/-- An overflow is recorded as a word that is no value of JSON. -/
theorem records_overflow : ∃ record ∈ Emission.records
    (standardEvaluator.evaluate .native "1e999").emitted,
    ∀ d, ¬IsText (record.line midnight .json none) d := by
  let l : Literal := ⟨['1'], none, some ⟨'e', [], ['9', '9', '9'], by simp, by simp, by simp, by simp⟩,
    by simp, by simp, by simp⟩
  have hvalue : l.value.isFinite = false := by decide +kernel
  refine ⟨_, mem_records_literal l, fun d h => ?_⟩
  obtain ⟨hfinite, -⟩ := (Record.isText_line_iff (by decide) d).1 h
  rw [isFinite_fields] at hfinite
  have hresult := hfinite ("result", .float l.value) (by simp [Record.entries, parserRecord])
  rw [isFinite, hvalue] at hresult
  cases hresult

end Calculator
end Reckoner
