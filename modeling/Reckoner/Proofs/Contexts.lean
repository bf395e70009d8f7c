import Reckoner.Context.Document
import Reckoner.Proofs.Table

/-!
# Keys of contexts

A context has each name at most once in either table, and all of its names are identifiers. The
standard context is such a context, every registration that is accepted keeps it one, and so every
context that a file describes is one.
-/
namespace Reckoner

namespace Act

variable {α β : Type} {p : α → Prop} {m : Act β} {f : β → Act α}

theorem bind_outcome (m : Act β) (f : β → Act α) :
    (m >>= f).outcome = m.outcome.bind fun b => (f b).outcome := by
  obtain ⟨es, r⟩ := m
  cases r <;> rfl

/-- Whatever an action gives has a property. -/
def Yields (p : α → Prop) (m : Act α) : Prop := ∀ a, m.outcome = .ok a → p a

theorem yields_bind (h : ∀ b, m.outcome = .ok b → (f b).Yields p) : (m >>= f).Yields p := by
  intro a ha
  rw [bind_outcome] at ha
  cases hm : m.outcome with
  | ok b =>
    rw [hm] at ha
    exact h b hm a ha
  | error e =>
    rw [hm] at ha
    cases ha

theorem yields_pure {a : α} (h : p a) : (pure a : Act α).Yields p := by
  intro b hb
  cases hb
  exact h

theorem yields_fail (e : Failure) : (fail e : Act α).Yields p := fun _ h => by cases h

/-- What each step keeps, a fold keeps. -/
theorem yields_foldlM {f : α → β → Act α} (hf : ∀ a b, p a → (f a b).Yields p) {a : α}
    (ha : p a) (bs : List β) : (bs.foldlM f a).Yields p := by
  induction bs generalizing a with
  | nil => exact yields_pure ha
  | cons b bs ih =>
    rw [List.foldlM_cons]
    exact yields_bind fun a' ha' => ih (hf a b ha a' ha')

end Act

/-- The names in a table are identifiers, and each is there once. -/
structure Table.Keyed {α : Type} (t : Table α) : Prop where
  identifiers : ∀ name ∈ t.keys, isIdentifier name = true
  nodup : t.keys.Nodup

theorem Table.Keyed.put {α : Type} {t : Table α} {name : String} (a : α) (h : t.Keyed)
    (hn : isIdentifier name = true) : (t.put name a).Keyed where
  identifiers key hkey := by
    rcases mem_keys_put.1 hkey with hkey | rfl
    · exact h.identifiers key hkey
    · exact hn
  nodup := nodup_keys_put h.nodup

namespace Context

/-- Both tables of a context have proper keys. -/
structure Keyed (c : Context) : Prop where
  functions : c.functions.Keyed
  constants : c.constants.Keyed

variable {c c' : Context} {name : String}

theorem keyed_empty (name : String) : (empty name).Keyed :=
  ⟨⟨by simp [empty, Table.keys], List.nodup_nil⟩, ⟨by simp [empty, Table.keys], List.nodup_nil⟩⟩

theorem keyed_standard : standard.Keyed where
  functions := ⟨by decide +kernel, by decide +kernel⟩
  constants := ⟨by decide +kernel, by decide +kernel⟩

theorem registerFunction_eq_ok_iff {f : Except Datum Callable} :
    c.registerFunction name f = .ok c' ↔ isIdentifier name = true ∧
      ∃ g, f = .ok g ∧ { c with functions := c.functions.put name g } = c' := by
  unfold registerFunction
  cases isIdentifier name <;> cases f <;> simp

theorem registerConstant_eq_ok_iff {value : Datum} :
    c.registerConstant name value = .ok c' ↔ isIdentifier name = true ∧
      ∃ x, value.toFloat = .ok x ∧ { c with constants := c.constants.put name x } = c' := by
  unfold registerConstant
  cases isIdentifier name <;> cases value.toFloat <;> simp

theorem keyed_registerFunction {f : Except Datum Callable} (h : c.Keyed)
    (hc : c.registerFunction name f = .ok c') : c'.Keyed := by
  obtain ⟨hn, g, -, rfl⟩ := registerFunction_eq_ok_iff.1 hc
  exact ⟨h.functions.put g hn, h.constants⟩

theorem keyed_registerConstant {value : Datum} (h : c.Keyed)
    (hc : c.registerConstant name value = .ok c') : c'.Keyed := by
  obtain ⟨hn, x, -, rfl⟩ := registerConstant_eq_ok_iff.1 hc
  exact ⟨h.functions, h.constants.put x hn⟩

end Context

namespace Calculator

theorem registerFunction_outcome (c : Context) (name : String) (f : Except Datum Callable) :
    (registerFunction c name f).outcome = c.registerFunction name f := by
  simp only [registerFunction, Act.bind_outcome, Act.ofExcept]
  cases c.registerFunction name f <;> rfl

theorem registerConstant_outcome (c : Context) (name : String) (value : Datum) :
    (registerConstant c name value).outcome = c.registerConstant name value := by
  simp only [registerConstant, Act.bind_outcome, Act.ofExcept]
  cases c.registerConstant name value <;> rfl

end Calculator

namespace Context

open Act

variable {path : String} {document : Yaml.Document}

theorem yields_addConstant (c : Context) (entry : Datum × Datum) (h : c.Keyed) :
    (addConstant path c entry).Yields Keyed :=
  yields_bind fun _ _ => yields_bind fun _ _ _ hc =>
    keyed_registerConstant h ((Calculator.registerConstant_outcome ..).symm.trans hc)

theorem yields_addFunction (c : Context) (entry : Datum × Datum) (h : c.Keyed) :
    (addFunction path c entry).Yields Keyed :=
  yields_bind fun _ _ => yields_bind fun _ _ _ hc =>
    keyed_registerFunction h ((Calculator.registerFunction_outcome ..).symm.trans hc)

theorem yields_addPart {name : String} {entries : Entries}
    {add : Context → Datum × Datum → Act Context}
    (hadd : ∀ c e, c.Keyed → (add c e).Yields Keyed) {c : Context} (h : c.Keyed) :
    (addPart path document name entries add c).Yields Keyed :=
  yields_bind fun _ _ => yields_foldlM (fun c _ hc => hadd c _ hc) h _

/-- Registering both parts of a document. -/
theorem yields_parts {entries : Entries} {c : Context} (h : c.Keyed) :
    (do
      let c ← addPart path document "constants" entries (addConstant path) c
      let c ← addPart path document "functions" entries (addFunction path) c
      .log (loadedRecord c path)
      return c : Act Context).Yields Keyed := by
  refine yields_bind fun c hc => yields_bind fun c' hc' => yields_bind fun _ _ => yields_pure ?_
  exact yields_addPart yields_addFunction (yields_addPart yields_addConstant h c hc) c' hc'

theorem yields_ofDocument : (ofDocument path document).Yields Keyed := by
  have hname (base : Context) (h : base.Keyed) (name : String) : { base with name }.Keyed :=
    ⟨h.functions, h.constants⟩
  refine yields_bind fun entries _ => ?_
  dsimp only
  split
  · refine yields_bind fun base hbase => ?_
    obtain rfl : Context.standard = base := Except.ok.inj hbase
    split <;> exact yields_bind fun name _ => yields_parts (hname _ keyed_standard name)
  · refine yields_bind fun base hbase => ?_
    obtain rfl : empty "Empty" = base := Except.ok.inj hbase
    split <;> exact yields_bind fun name _ => yields_parts (hname _ (keyed_empty _) name)

/-- A file that does not load fails at once, and otherwise its document decides. -/
theorem ofFile_cases (load : Yaml.Loader) (path : String)
    (content : Except Files.Refusal ByteArray) :
    (∃ e, ofFile load path content = .fail e) ∨
      ∃ D, ofFile load path content = ofDocument path D := by
  unfold ofFile
  dsimp only
  split
  · exact .inl ⟨_, rfl⟩
  · split
    · exact .inl ⟨_, rfl⟩
    · split
      · exact .inl ⟨_, rfl⟩
      · exact .inr ⟨_, rfl⟩

/-- Every context that a file describes has proper keys. -/
theorem yields_ofFile (load : Yaml.Loader) (content : Except Files.Refusal ByteArray) :
    (ofFile load path content).Yields Keyed := by
  obtain ⟨e, h⟩ | ⟨D, h⟩ := ofFile_cases load path content
  · rw [h]
    exact yields_fail e
  · rw [h]
    exact yields_ofDocument

end Context
end Reckoner
