import Reckoner.CommandLine.Options
import Reckoner.Proofs.Literal

/-!
# An expression among the options

A word that begins with `--expression=` gives what follows as the expression, whatever that is, but
for two dashes, which count as no text. In front of other options it does nothing else: they are
read as they are without it.
-/
namespace Reckoner.CommandLine

/-- A word that asks for a text as the expression. -/
def expressionWord (text : String) : String := "--expression=" ++ text

/-- No flag has an equals sign in its name. -/
theorem Flag.ofName?_eq_none {name : String} (h : '=' ∈ name.toList) : ofName? name = none := by
  have hnames : ∀ f ∈ all, ∀ name ∈ f.names, '=' ∉ name.toList := by decide
  refine List.find?_eq_none.2 fun f hf hname => ?_
  exact hnames f hf name (by simpa using hname) h

theorem toList_expressionWord (text : String) :
    (expressionWord text).toList = "--expression".toList ++ '=' :: text.toList := by
  rw [expressionWord, String.toList_append]
  rfl

theorem splitEquals_expressionWord (text : String) :
    splitEquals (expressionWord text) = ("--expression", some text.toList) := by
  simp [splitEquals, toList_expressionWord]

theorem classify_expressionWord (text : String) : classify (expressionWord text) =
    .ok (.flag .expression "--expression" (some text.toList)) := by
  have hlong : ¬(expressionWord text).length < 2 := by
    rw [← String.length_toList, toList_expressionWord, List.length_append]
    exact Nat.not_lt.2 (Nat.le_add_right_of_le (by decide))
  have hdash : (expressionWord text).startsWith "-" = true := by
    rw [String.startsWith_string_iff, toList_expressionWord]
    exact ⟨_, rfl⟩
  have hflag : Flag.ofName? (expressionWord text) = none :=
    Flag.ofName?_eq_none (by simp [toList_expressionWord])
  have hname : Flag.ofName? "--expression" = some .expression := by decide
  simp [classify, hlong, hdash, hflag, splitEquals_expressionWord, hname]

theorem words_expressionWord (text : String) (options : List String) :
    words (expressionWord text :: options) =
      (words options).map (.flag .expression "--expression" (some text.toList) :: ·) := by
  have hseparator : expressionWord text ≠ "--" := by
    intro h
    have hequals : '=' ∈ "--".toList := by simp [← h, toList_expressionWord]
    exact absurd hequals (by decide)
  rw [words, if_neg hseparator, classify_expressionWord]
  cases words options <;> rfl

/-- A request that asks for an expression if nothing else does. -/
def Request.orAsk (r : Request) (e : Option String) : Request :=
  { r with expression := r.expression.or (some e) }

namespace Request

variable (r : Request) (e : Option String)

theorem act_orAsk (f : Flag) : (r.orAsk e).act f = (r.act f).map (·.orAsk e) := by
  cases f <;> rfl

theorem foldlM_act_orAsk (fs : List Flag) :
    fs.foldlM Request.act (r.orAsk e) = (fs.foldlM Request.act r).map (·.orAsk e) := by
  induction fs generalizing r with
  | nil => rfl
  | cons f fs ih =>
    rw [List.foldlM_cons, List.foldlM_cons, act_orAsk]
    cases r.act f with
    | error _ => rfl
    | ok r' => exact ih r'

theorem note_orAsk (f : Flag) (argument : Option String) :
    (r.orAsk e).note f argument = (r.note f argument).map (·.orAsk e) := by
  cases f with
  | precision =>
    cases argument with
    | none => rfl
    | some text =>
      simp only [note]
      cases Number.typedInteger 10 text <;> rfl
  | _ => rfl

end Request

/-- That a reading goes on from a request in the same way if an expression has been asked for. -/
def Ignores (e : Option String) (f : Request → Except Stop (Request × List String)) : Prop :=
  ∀ r, f (r.orAsk e) = (f r).map fun p => (p.1.orAsk e, p.2)

namespace Ignores

variable {e : Option String} {f : Request → Except Stop (Request × List String)}

theorem acts (h : Ignores e f) (fs : List Flag) :
    Ignores e fun r => fs.foldlM Request.act r >>= f := by
  intro r
  dsimp only
  rw [Request.foldlM_act_orAsk]
  cases fs.foldlM Request.act r with
  | error _ => rfl
  | ok r => exact h r

theorem note (h : Ignores e f) (g : Flag) (argument : Option String) :
    Ignores e fun r => r.note g argument >>= f := by
  intro r
  dsimp only
  rw [Request.note_orAsk]
  cases r.note g argument with
  | error _ => rfl
  | ok r => exact h r

end Ignores

/-- Words are read in the same way whether an expression has been asked for or not. -/
theorem read_orAsk (r : Request) (e : Option String) : (ws : List Word) →
    read (r.orAsk e) ws = (read r ws).map fun p => (p.1.orAsk e, p.2)
  | [] => by rw [read, read]; rfl
  | .argument text :: ws | .unknown text :: ws | .separator :: ws => by
    rw [read, read, read_orAsk r e ws]
    cases read r ws <;> rfl
  | .flag f name own :: ws => by
    have hrest : Ignores e fun r => read r ws := fun r => read_orAsk r e ws
    rw [read, read]
    cases resolve f name own with
    | error _ => rfl
    | ok c =>
      obtain ⟨before, last, argument⟩ := c
      change (if (!last.takesArgument) = true then _ else _) = Except.map _ (if _ then _ else _)
      split
      · exact hrest.acts _ r
      · cases argument with
        | some text => exact (hrest.note last _).acts before r
        | none =>
          cases ws with
          | nil => rfl
          | cons w ws =>
            have hbehind : Ignores e fun r => read r ws := fun r => read_orAsk r e ws
            cases w with
            | argument text => exact (hbehind.note last _).acts before r
            | _ => rfl
termination_by ws => ws.length

/-- In front of options an expression is asked for, if they ask for none, and nothing else changes:
they are read or refused as they are without it. -/
theorem Request.ofArguments_expressionWord (text : String) (options : List String) :
    ofArguments (expressionWord text :: options) =
      (ofArguments options).map (·.orAsk (argumentOf text)) := by
  have hcluster : resolve .expression "--expression" (some text.toList) =
      .ok { last := .expression, own := some text } := by
    rw [resolve, cluster, String.ofList_toList]
    rfl
  have hfirst (ws : List Word) :
      read {} (.flag .expression "--expression" (some text.toList) :: ws) =
        read (({} : Request).orAsk (argumentOf text)) ws := by
    rw [read, hcluster]
    rfl
  rw [ofArguments, words_expressionWord, ofArguments]
  cases words options with
  | error _ => rfl
  | ok ws =>
    change (read {} (.flag .expression "--expression" (some text.toList) :: ws) >>= _) =
      Except.map _ (read {} ws >>= _)
    rw [hfirst, read_orAsk]
    obtain _ | ⟨r, _ | ⟨text, rest⟩⟩ := read {} ws <;> rfl

end Reckoner.CommandLine
