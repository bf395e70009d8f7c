import Reckoner.Proofs.Checks
import Reckoner.Proofs.Contexts
import Reckoner.Proofs.Yaml.Loader
import Reckoner.Proofs.Yaml.Order

/-!
# Contents of documents

What a document says before it is put into tables: the name of its context, the numbers of its
constants and the functions of its aliases. Reading the contents may fail; entering them in the
tables of the context that they start from may not.
-/
namespace Reckoner

/-- The double that a number is; truth values are no numbers. -/
inductive Datum.Gives : Datum → Float → Prop where
  | int {n : ℤ} (h : (Float.ofInt n).isInf = false) : Gives (.int n) (Float.ofInt n)
  | float (x : Float) : Gives (.float x) x

/-- Values that count as numbers. -/
def Datum.isNumber : Datum → Bool
  | int _ | float _ => true
  | _ => false

theorem Datum.Gives.unique {d : Datum} {x y : Float} (hx : d.Gives x) (hy : d.Gives y) :
    x = y := by
  cases hx <;> cases hy <;> rfl

theorem LibraryFunction.ofName?_eq_some_iff {name : String} {f : LibraryFunction} :
    ofName? name = some f ↔ name = f.name := by
  constructor
  · intro h
    have hname : f.name = name := by simpa using List.find?_some h
    exact hname.symm
  · rintro rfl
    cases f <;> decide +kernel

theorem LibraryFunction.name_injective : Function.Injective name := by
  intro f g h
  have hsome := ofName?_eq_some_iff.2 h
  rw [ofName?_eq_some_iff.2 rfl] at hsome
  exact Option.some.inj hsome

namespace Yaml.Document

variable (D : Document)

/-- The entries of the document itself; one that holds nothing has none. -/
def fields : List (Value × Value) := (D.entries? D.root).getD []

def field? (name : String) : Option Value := Value.entry? name D.fields

/-- The entries of a part that is a mapping; one that is left out or not given has none. -/
def part? (name : String) : Option (List (Value × Value)) :=
  match D.field? name with
  | none => some []
  | some v => if D.isGiven v then D.entries? v else some []

theorem datum_eq_text_iff {D : Document} {v : Value} {name : String} :
    D.datum v = .text name ↔ v = .scalar (.text name) := by
  cases v with
  | scalar => simp
  | nan => simp [datum, datumWithin]
  | collection id =>
    refine iff_of_false ?_ (by simp)
    rcases @datum_collection D id with h | ⟨c, inner, h⟩ | ⟨isMapping, h⟩
    · simp [h]
    · cases c <;> simp [h, Collection.opened]
    · simp [h]

end Yaml.Document

namespace Context

variable {path name : String} {x : Float} {f : LibraryFunction} {key value : Datum}
  {D : Yaml.Document}

theorem shown_eq_ok_iff {text : Datum → String} {d : Datum} :
    (∃ s, shown text d = .ok s) ↔ d.HasText := by
  unfold shown Datum.HasText
  split <;> rename_i hd <;> simp [hd]

theorem shown_eq_error_iff {text : Datum → String} {d : Datum} {e : Failure} :
    shown text d = .error e ↔
      ∃ fault, d.textFault? Datum.room = some fault ∧ textFailure fault = e := by
  unfold shown
  split <;> rename_i hd <;> simp [hd]

/-- A refusal that shows a name and a value, if both of them can be shown. -/
def refusal {α : Type} (path : String) (message : String → String → String) (key value : Datum) :
    Except Failure α := do
  .error (.badContext (message (← shown Datum.plain key) (← shown Datum.display value)) path)

theorem refusal_eq_error_iff {α : Type} {message : String → String → String} {e : Failure} :
    (refusal path message key value : Except Failure α) = .error e ↔
      (∃ fault, key.textFault? Datum.room = some fault ∧ textFailure fault = e) ∨
      (key.HasText ∧ ∃ fault, value.textFault? Datum.room = some fault ∧ textFailure fault = e) ∨
      (key.HasText ∧ value.HasText ∧ .badContext (message key.plain value.display) path = e) := by
  unfold refusal shown Datum.HasText
  cases key.textFault? Datum.room <;> cases value.textFault? Datum.room <;>
    simp [Bind.bind, Except.bind]

theorem refusal_ne_ok {α : Type} {message : String → String → String} {a : α} :
    refusal path message key value ≠ .ok a := by
  intro h
  obtain ⟨_, -, h⟩ := bind_eq_ok_iff.1 h
  obtain ⟨_, -, h⟩ := bind_eq_ok_iff.1 h
  cases h

theorem number_of_not_isNumber (h : value.isNumber = false) : number path key value =
    refusal path (fun name value => s!"Constant '{name}' must be numeric, " ++ s!"got {value}")
      key value := by
  cases value with
  | int | float => cases h
  | _ => rfl

theorem number_eq_ok_iff : number path key value = .ok x ↔ value.Gives x := by
  constructor
  · intro h
    cases value with
    | int n =>
      simp only [number, Datum.toFloat] at h
      split at h
      · cases h
      · rename_i hn
        cases h
        exact .int (by simpa using hn)
    | float y =>
      cases h
      exact .float x
    | _ => exact absurd ((number_of_not_isNumber rfl).symm.trans h) refusal_ne_ok
  · rintro (⟨hn⟩ | _)
    · simp [number, Datum.toFloat, hn]
    · rfl

theorem nameOf_eq_ok_iff :
    nameOf path key = .ok name ↔ key = .text name ∧ isIdentifier name = true := by
  cases key with
  | text s =>
    by_cases hs : isIdentifier s
    · simp only [nameOf, hs, if_true, Except.ok.injEq, Datum.text.injEq]
      exact ⟨fun h => ⟨h, h ▸ hs⟩, And.left⟩
    · simp only [nameOf, hs, nameOf.refuse, Datum.text.injEq]
      refine iff_of_false (by simp) ?_
      rintro ⟨rfl, hn⟩
      exact hs hn
  | _ =>
    simp only [reduceCtorEq, false_and, iff_false]
    intro h
    obtain ⟨_, -, h⟩ := bind_eq_ok_iff.1 h
    cases h

theorem target_name (f : LibraryFunction) : target path key (.text f.name) = .ok f := by
  simp [target, LibraryFunction.ofName?_eq_some_iff.2 rfl, pure, Except.pure]

/-- What is no name of a library function is refused, or shown as unknown. -/
theorem target_unknown (h : ∀ f : LibraryFunction, value ≠ .text f.name) :
    target path key value =
      if value.isKey then
        refusal path (fun name value => s!"Function '{name}' refers to " ++
          s!"unknown library function {value}") key value
      else .error (.host .type s!"unhashable type: '{value.kind}'") := by
  have hnone (name : String) (hname : value = .text name) :
      LibraryFunction.ofName? name = none := by
    refine Option.eq_none_iff_forall_ne_some.2 fun f hf => h f ?_
    rw [hname, LibraryFunction.ofName?_eq_some_iff.1 hf]
  cases value with
  | text name => simp [target, hnone name rfl, Datum.isKey, refusal]
  | _ =>
    simp only [target]
    cases Datum.isKey _ <;> rfl

theorem target_eq_ok_iff : target path key value = .ok f ↔ value = .text f.name := by
  by_cases hg : ∃ g : LibraryFunction, value = .text g.name
  · obtain ⟨g, rfl⟩ := hg
    rw [target_name, Except.ok.injEq, Datum.text.injEq, LibraryFunction.name_injective.eq_iff]
  · rw [target_unknown fun g hvalue => hg ⟨g, hvalue⟩]
    refine ⟨fun h => ?_, fun h => absurd ⟨f, h⟩ hg⟩
    split at h
    · exact absurd h refusal_ne_ok
    · cases h

/-- A constant of a document: its name and its number. -/
def constantOf (path : String) (e : Datum × Datum) : Except Failure (String × Float) := do
  let x ← number path e.1 e.2
  return (← nameOf path e.1, x)

/-- An alias in a document: the new name and the function that it stands for. -/
def aliasOf (path : String) (e : Datum × Datum) : Except Failure (String × LibraryFunction) := do
  let f ← target path e.1 e.2
  return (← nameOf path e.1, f)

theorem constantOf_eq_ok_iff : constantOf path (key, value) = .ok (name, x) ↔
    key = .text name ∧ isIdentifier name = true ∧ value.Gives x := by
  simp only [constantOf, bind_eq_ok_iff, number_eq_ok_iff, nameOf_eq_ok_iff, pure, Except.pure,
    Except.ok.injEq, Prod.mk.injEq]
  grind

theorem aliasOf_eq_ok_iff : aliasOf path (key, value) = .ok (name, f) ↔
    key = .text name ∧ isIdentifier name = true ∧ value = .text f.name := by
  simp only [aliasOf, bind_eq_ok_iff, target_eq_ok_iff, nameOf_eq_ok_iff, pure, Except.pure,
    Except.ok.injEq, Prod.mk.injEq]
  grind

/-- What a document says. -/
structure Contents where
  name : String
  constants : List (String × Float)
  functions : List (String × LibraryFunction)

def enterConstant (c : Context) (e : String × Float) : Context :=
  { c with constants := c.constants.put e.1 e.2 }

def enterFunction (c : Context) (e : String × LibraryFunction) : Context :=
  { c with functions := c.functions.put e.1 (.library e.2) }

/-- The context that has the contents of a document beside the entries of its own. -/
def Contents.over (k : Contents) (c : Context) : Context :=
  k.functions.foldl enterFunction (k.constants.foldl enterConstant { c with name := k.name })

def nameFor (path : String) (D : Yaml.Document) : Except Failure String :=
  match D.field? "name" with
  | some v => shown Datum.plain (D.datum v)
  | none => .ok (Path.ofText path).stem

/-- Reads the entries of a part in their order. -/
def readPart {β : Type} (path : String) (D : Yaml.Document) (name : String)
    (read : Datum × Datum → Except Failure β) : Except Failure (List β) := do
  (← part path D name D.fields).mapM fun e => read (D.datum e.1, D.datum e.2)

/-- Reads what a document says. -/
def contentsOf (path : String) (D : Yaml.Document) : Except Failure Contents := do
  let _ ← entriesOf path D
  let name ← nameFor path D
  let constants ← readPart path D "constants" (constantOf path)
  let functions ← readPart path D "functions" (aliasOf path)
  return { name, constants, functions }

/-- Whether a document adds to the standard context. -/
def hasDefaults (D : Yaml.Document) : Bool := (D.field? "include_defaults").all D.isGiven

def base (D : Yaml.Document) : Context := if hasDefaults D then standard else empty "Empty"

theorem addConstant_outcome (c : Context) (e : Datum × Datum) :
    (addConstant path c e).outcome = (constantOf path e).map (enterConstant c) := by
  simp only [addConstant, Act.bind_outcome, Act.ofExcept, constantOf]
  cases number path e.1 e.2 with
  | error e => rfl
  | ok x =>
    cases hname : nameOf path e.1 with
    | error e => rfl
    | ok name =>
      have hid := (nameOf_eq_ok_iff.1 hname).2
      simp [Bind.bind, Except.bind, Except.map, Calculator.registerConstant_outcome,
        registerConstant, hid, Datum.toFloat, enterConstant, pure, Except.pure]

theorem addFunction_outcome (c : Context) (e : Datum × Datum) :
    (addFunction path c e).outcome = (aliasOf path e).map (enterFunction c) := by
  simp only [addFunction, Act.bind_outcome, Act.ofExcept, aliasOf]
  cases target path e.1 e.2 with
  | error e => rfl
  | ok f =>
    cases hname : nameOf path e.1 with
    | error e => rfl
    | ok name =>
      have hid := (nameOf_eq_ok_iff.1 hname).2
      simp [Bind.bind, Except.bind, Except.map, Calculator.registerFunction_outcome,
        registerFunction, hid, enterFunction, pure, Except.pure]

/-- Adding the entries of a part one by one is reading them all and entering them then. -/
theorem foldlM_outcome {α β : Type} {add : Context → α → Act Context} {g : α → Except Failure β}
    {enter : Context → β → Context} (h : ∀ c e, (add c e).outcome = (g e).map (enter c))
    (c : Context) (es : List α) :
    (es.foldlM add c).outcome = (es.mapM g).map (List.foldl enter c) := by
  induction es generalizing c with
  | nil => rfl
  | cons e es ih =>
    rw [List.foldlM_cons, List.mapM_cons, Act.bind_outcome, h]
    cases g e with
    | error e => rfl
    | ok b =>
      simp only [Except.map, Except.bind, ih, Bind.bind, pure, Except.pure]
      cases es.mapM g <;> rfl

theorem addPart_outcome {β : Type} {add : Context → Datum × Datum → Act Context}
    {read : Datum × Datum → Except Failure β} {enter : Context → β → Context}
    (h : ∀ c e, (add c e).outcome = (read e).map (enter c)) (c : Context) :
    (addPart path D name D.fields add c).outcome =
      (readPart path D name read).map (List.foldl enter c) := by
  simp only [addPart, readPart, Act.bind_outcome, Act.ofExcept]
  cases part path D name D.fields with
  | error e => rfl
  | ok es => exact foldlM_outcome (fun c e => h c (D.datum e.1, D.datum e.2)) c es

theorem entriesOf_eq_ok_iff {es : Entries} : entriesOf path D = .ok es ↔
    (D.isGiven D.root → (D.entries? D.root).isSome) ∧ D.fields = es := by
  unfold entriesOf Yaml.Document.fields
  cases D.entries? D.root <;> cases D.isGiven D.root <;> simp

theorem part_eq_ok_iff {es : Entries} :
    part path D name D.fields = .ok es ↔ D.part? name = some es := by
  unfold part Yaml.Document.part? Yaml.Document.field?
  cases Yaml.Value.entry? name D.fields with
  | none => simp
  | some v => cases hv : D.isGiven v <;> cases he : D.entries? v <;> simp [hv, he]

theorem exists_nameFor_iff (path : String) : (∃ n, nameFor path D = .ok n) ↔
    ∀ v, D.field? "name" = some v → (D.datum v).HasText := by
  unfold nameFor
  cases D.field? "name" with
  | none => simp
  | some v => simp [shown_eq_ok_iff]

/-- The context of a document: its contents over the context that it starts from. -/
theorem ofDocument_outcome :
    (ofDocument path D).outcome = (contentsOf path D).map fun k => k.over (base D) := by
  unfold ofDocument contentsOf
  rw [Act.bind_outcome]
  cases hes : entriesOf path D with
  | error e => rfl
  | ok es =>
    obtain rfl := (entriesOf_eq_ok_iff.1 hes).2
    have hbase (f : Context → Act Context) :
        (if hasDefaults D then Calculator.standardContext >>= f
          else pure (empty "Empty") >>= f).outcome = (f (base D)).outcome := by
      unfold base
      cases hasDefaults D <;> rfl
    have hname (f : String → Act Context) :
        (match D.field? "name" with
          | some v => Act.ofExcept (shown Datum.plain (D.datum v)) >>= f
          | none => pure (Path.ofText path).stem >>= f).outcome =
          (nameFor path D).bind fun name => (f name).outcome := by
      unfold nameFor
      cases D.field? "name" with
      | none => rfl
      | some v => exact Act.bind_outcome _ f
    refine (hbase _).trans ((hname _).trans ?_)
    simp only [Act.bind_outcome, addPart_outcome addConstant_outcome,
      addPart_outcome addFunction_outcome]
    cases nameFor path D with
    | error e => rfl
    | ok name =>
      change Except.bind (Except.map _ (readPart path D "constants" (constantOf path))) _ = _
      cases readPart path D "constants" (constantOf path) with
      | error e => rfl
      | ok cs =>
        change Except.bind (Except.map _ (readPart path D "functions" (aliasOf path))) _ = _
        cases readPart path D "functions" (aliasOf path) <;> rfl

/-- A document is what is loaded from the content of a file. -/
def Loads (load : Yaml.Loader) (content : Except Files.Refusal ByteArray) (D : Yaml.Document) :
    Prop :=
  ∃ bytes, content = .ok bytes ∧ load bytes = .ok D

theorem Loads.namesOnce {load : Yaml.Loader} {content : Except Files.Refusal ByteArray}
    (hload : load.NamesOnce) (h : Loads load content D) : D.NamesOnce := by
  obtain ⟨bytes, -, hbytes⟩ := h
  exact hload bytes D hbytes

theorem ofFile_of_loads {load : Yaml.Loader} {content : Except Files.Refusal ByteArray}
    (hpath : path.contains '\x00' = false) (h : Loads load content D) :
    ofFile load path content = ofDocument path D := by
  obtain ⟨bytes, rfl, hload⟩ := h
  simp [ofFile, hpath, hload]

end Context
end Reckoner
