import Reckoner.Proofs.Contexts
import Reckoner.Session

/-!
# Steps of a session

A step says by itself which context it creates, for which context it makes a target stand, and what
it registers. From that follows what it does to the tables of each context.
-/
namespace Reckoner

/-! ## What a step is to do -/

/-- What is registered under a name. -/
inductive Entry where
  | constant (x : Float)
  | function (f : Callable)

namespace Entry

def constant? : Entry → Option Float
  | constant x => some x
  | function _ => none

def function? : Entry → Option Callable
  | constant _ => none
  | function f => some f

end Entry

/-- A registration that no table refuses. -/
structure Registration where
  target : Target
  name : String
  entry : Entry

/-- The number of the context that a target stands for. -/
def Session.number? (s : Session) (target : Target) : Option Nat := (s.place target).toOption

theorem Session.number?_eq_some_iff {s : Session} {target : Target} {i : Nat} :
    s.number? target = some i ↔ s.place target = .ok i := by
  unfold number?
  cases s.place target <;> simp [Except.toOption]

namespace Step

/-- The context that a step creates. -/
def creates (files : Files) : Step → Option Context
  | context _ .standard | evaluator _ none _ _ => some .standard
  | context _ (.empty name) => some (.empty name)
  | context _ (.file path) => (Context.ofFile .whole path (files.read path)).outcome.toOption
  | _ => none

/-- The number that a step gives to a target: that of the context that it creates, or that of the
context that an evaluator is to share. -/
def binds (files : Files) (s : Session) (target : Target) (t : Step) : Option Nat :=
  match t, target with
  | context id _, .context id' =>
    if id = id' then (t.creates files).map fun _ => s.contexts.length else none
  | evaluator id shared _ _, .evaluator id' =>
    if id = id' then shared.elim (some s.contexts.length) fun c => s.number? (.context c) else none
  | _, _ => none

/-- What a step registers: a number or a function, under a name that is an identifier. -/
def registration? : Step → Option Registration
  | constant target name value => if isIdentifier name then
      value.toFloat.toOption.map fun x => ⟨target, name, .constant x⟩ else none
  | function target name f => if isIdentifier name then
      f.toOption.map fun g => ⟨target, name, .function g⟩ else none
  | _ => none

/-- Steps that only look at contexts: evaluations, parses, lookups and descriptions. -/
def reads : Step → Bool
  | lookup _ _ | describe _ | evaluate _ _ | tryEvaluate _ _ | parse _ _ _ _
  | evaluateTree _ _ _ => true
  | context _ _ | evaluator _ _ _ _ | constant _ _ _ | function _ _ _ => false

/-- Steps that are to register something. -/
def enters : Step → Bool
  | constant _ _ _ | function _ _ _ => true
  | _ => false

/-- What a step sets of one kind under a name of the context with a number. -/
def sets {β : Type} (kind : Entry → Option β) (s : Session) (i : Nat) (name : String) (t : Step) :
    Option β :=
  t.registration?.bind fun r =>
    if s.number? r.target = some i ∧ r.name = name then kind r.entry else none

end Step

/-! ## Tables of one kind -/

/-- The context with one more entry. -/
def Context.enter (c : Context) (name : String) : Entry → Context
  | .constant x => { c with constants := c.constants.put name x }
  | .function f => { c with functions := c.functions.put name f }

/-- A lookup in the table for the entries of one kind. -/
def Looks {β : Type} (look : Context → String → Option β) (kind : Entry → Option β) : Prop :=
  ∀ c name e name', look (c.enter name e) name' =
    if name = name' then (kind e).or (look c name') else look c name'

theorem looks_constant : Looks Context.constant? Entry.constant? := by
  intro c name e name'
  cases e with
  | constant x =>
    rw [Context.constant?, Context.enter, Table.get?_put]
    rfl
  | function f => simp [Context.constant?, Context.enter, Entry.constant?]

theorem looks_function : Looks Context.function? Entry.function? := by
  intro c name e name'
  cases e with
  | constant x => simp [Context.function?, Context.enter, Entry.function?]
  | function f =>
    rw [Context.function?, Context.enter, Table.get?_put]
    rfl

theorem Context.Keyed.enter {c : Context} {name : String} (h : c.Keyed)
    (hn : isIdentifier name = true) (e : Entry) : (c.enter name e).Keyed := by
  cases e with
  | constant x => exact ⟨h.functions, h.constants.put x hn⟩
  | function f => exact ⟨h.functions.put f hn, h.constants⟩

/-! ## What a step does to one context -/

namespace Step

/-- What becomes of the context with a number by a step. -/
def updates (s : Session) (i : Nat) (c : Context) (t : Step) : Context :=
  t.registration?.elim c fun r =>
    if s.number? r.target = some i then c.enter r.name r.entry else c

variable {files : Files} {s : Session} {i : Nat} {c : Context} {t : Step}

/-- A step that registers nothing in a context leaves it as it is. -/
theorem updates_eq (h : ∀ r ∈ t.registration?, s.number? r.target ≠ some i) :
    t.updates s i c = c := by
  unfold updates
  cases hr : t.registration? with
  | none => rfl
  | some r => exact if_neg (h r hr)

/-- Steps that only look at contexts do nothing else. -/
theorem nothing_of_reads (files : Files) (s : Session) (h : t.reads = true) :
    t.creates files = none ∧ t.registration? = none ∧ ∀ target, t.binds files s target = none := by
  cases t <;> first | exact ⟨rfl, rfl, fun _ => rfl⟩ | cases h

/-- Steps that register something do nothing else. -/
theorem nothing_else_of_enters (files : Files) (s : Session) (h : t.enters = true) :
    t.creates files = none ∧ ∀ target, t.binds files s target = none := by
  cases t <;> first | exact ⟨rfl, fun _ => rfl⟩ | cases h

theorem enters_of_registration? {r : Registration} (h : t.registration? = some r) :
    t.enters = true := by
  cases t <;> first | rfl | cases h

theorem look_updates {β : Type} {look : Context → String → Option β} {kind : Entry → Option β}
    (hl : Looks look kind) (name : String) :
    look (t.updates s i c) name = (t.sets kind s i name).or (look c name) := by
  unfold updates sets
  cases t.registration? with
  | none => rfl
  | some r =>
    by_cases hi : s.number? r.target = some i
    · by_cases hname : r.name = name <;> simp [hi, hname, hl c]
    · simp [hi]

theorem isIdentifier_of_registration? {r : Registration} (h : t.registration? = some r) :
    isIdentifier r.name = true := by
  cases t with
  | constant target name value =>
    simp only [registration?] at h
    split at h
    · obtain ⟨x, -, rfl⟩ := Option.map_eq_some_iff.1 h
      assumption
    · cases h
  | function target name f =>
    simp only [registration?] at h
    split at h
    · obtain ⟨g, -, rfl⟩ := Option.map_eq_some_iff.1 h
      assumption
    · cases h
  | _ => cases h

theorem keyed_updates (h : c.Keyed) : (t.updates s i c).Keyed := by
  unfold updates
  cases hr : t.registration? with
  | none => exact h
  | some r =>
    simp only [Option.elim_some]
    split
    · exact h.enter (isIdentifier_of_registration? hr) r.entry
    · exact h

theorem keyed_of_creates (h : t.creates files = some c) : c.Keyed := by
  cases t with
  | context id source =>
    cases source with
    | standard =>
      cases h
      exact Context.keyed_standard
    | empty name =>
      cases h
      exact Context.keyed_empty name
    | file path =>
      simp only [creates] at h
      cases hc : (Context.ofFile .whole path (files.read path)).outcome with
      | ok c' =>
        rw [hc] at h
        cases h
        exact Context.yields_ofFile _ _ c hc
      | error e =>
        rw [hc] at h
        cases h
  | evaluator id shared maxDepth full =>
    cases shared with
    | none =>
      cases h
      exact Context.keyed_standard
    | some c' => cases h
  | _ => cases h

end Step

end Reckoner
