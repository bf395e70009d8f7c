import Reckoner.CommandLine
import Reckoner.Proofs.Documents.Contents
import Reckoner.Proofs.Emissions
import Reckoner.Proofs.Outcomes

/-!
# Preparation

What comes before the first line: a context is read and a loop is made with it. All that this emits
is records of less weight than warnings, unless the file of the context describes none. Whatever
names a file gives, the functions behind them are those of the library.
-/
namespace Reckoner

open Act

namespace Context

open Calculator

variable {path : String} {D : Yaml.Document} {c : Context}

theorem isQuiet_addConstant (c : Context) (e : Datum × Datum) : (addConstant path c e).IsQuiet :=
  isQuiet_bind (isQuiet_ofExcept _) fun _ _ => isQuiet_bind (isQuiet_ofExcept _) fun _ _ =>
    isQuiet_registerConstant _ _ _

theorem isQuiet_addFunction (c : Context) (e : Datum × Datum) : (addFunction path c e).IsQuiet :=
  isQuiet_bind (isQuiet_ofExcept _) fun _ _ => isQuiet_bind (isQuiet_ofExcept _) fun _ _ =>
    isQuiet_registerFunction _ _ _

theorem isQuiet_addPart {name : String} {entries : Entries}
    {add : Context → Datum × Datum → Act Context} (h : ∀ c e, (add c e).IsQuiet) (c : Context) :
    (addPart path D name entries add c).IsQuiet :=
  isQuiet_bind (isQuiet_ofExcept _) fun _ _ => isQuiet_foldlM (fun c _ => h c _) c _

theorem isQuiet_ofDocument : (ofDocument path D).IsQuiet := by
  have hparts (entries : Entries) (c : Context) : (do
      let c ← addPart path D "constants" entries (addConstant path) c
      let c ← addPart path D "functions" entries (addFunction path) c
      .log (loadedRecord c path)
      return c : Act Context).IsQuiet :=
    isQuiet_bind (isQuiet_addPart isQuiet_addConstant c) fun c _ =>
      isQuiet_bind (isQuiet_addPart isQuiet_addFunction c) fun _ _ =>
        isQuiet_bind (isQuiet_log (.inr rfl)) fun _ _ => isQuiet_pure _
  refine isQuiet_bind (isQuiet_ofExcept _) fun entries _ => ?_
  dsimp only
  split
  · refine isQuiet_bind isQuiet_standardContext fun base _ => ?_
    split
    · exact isQuiet_bind (isQuiet_ofExcept _) fun name _ => hparts entries _
    · exact isQuiet_bind (isQuiet_pure _) fun name _ => hparts entries _
  · refine isQuiet_bind (isQuiet_pure _) fun base _ => ?_
    split
    · exact isQuiet_bind (isQuiet_ofExcept _) fun name _ => hparts entries _
    · exact isQuiet_bind (isQuiet_pure _) fun name _ => hparts entries _

theorem isQuiet_ofFile (load : Yaml.Loader) (path : String)
    (content : Except Files.Refusal ByteArray) : (ofFile load path content).IsQuiet := by
  obtain ⟨e, h⟩ | ⟨D, h⟩ := ofFile_cases load path content
  · rw [h]
    exact isQuiet_ofExcept _
  · rw [h]
    exact isQuiet_ofDocument

theorem isLibrary_base (D : Yaml.Document) : (base D).IsLibrary := by
  unfold base
  split
  · exact isLibrary_standard
  · intro name f h
    cases h

theorem isLibrary_enterFunction (hc : c.IsLibrary) (e : String × LibraryFunction) :
    (c.enterFunction e).IsLibrary := by
  intro name f hf
  rw [Context.enterFunction, function?, Table.get?_put] at hf
  split at hf
  · cases hf
    exact ⟨_, rfl⟩
  · exact hc hf

theorem isLibrary_foldl {β : Type} {enter : Context → β → Context}
    (henter : ∀ c b, c.IsLibrary → (enter c b).IsLibrary) (hc : c.IsLibrary) (bs : List β) :
    (bs.foldl enter c).IsLibrary := by
  induction bs generalizing c with
  | nil => exact hc
  | cons b bs ih => exact ih (henter c b hc)

theorem isLibrary_over (hc : c.IsLibrary) (k : Contents) : (k.over c).IsLibrary := by
  rw [Contents.over]
  refine isLibrary_foldl (fun _ e hc => isLibrary_enterFunction hc e) ?_ k.functions
  refine isLibrary_foldl (fun _ _ hc => ?_) ?_ k.constants
  · exact hc
  · exact hc

/-- Whatever a file says, all functions are those of the library. -/
theorem isLibrary_ofFile {load : Yaml.Loader} {content : Except Files.Refusal ByteArray}
    (h : (ofFile load path content).outcome = .ok c) : c.IsLibrary := by
  obtain ⟨e, hfile⟩ | ⟨D, hfile⟩ := ofFile_cases load path content
  · rw [hfile] at h
    cases h
  · rw [hfile, ofDocument_outcome] at h
    cases hk : contentsOf path D with
    | error e =>
      rw [hk] at h
      cases h
    | ok k =>
      rw [hk] at h
      cases h
      exact isLibrary_over (isLibrary_base D) k

end Context

namespace CommandLine

variable {read : Reader} {s : Settings} {r : Request}

/-- For a context that is given only records have been emitted, and it is of the library. -/
theorem context_of_outcome {c : Context} (h : (context read s r).outcome = .ok (some c)) :
    (context read s r).IsQuiet ∧ c.IsLibrary := by
  unfold context at h ⊢
  split at h
  · cases h
    exact ⟨isQuiet_bind Calculator.isQuiet_standardContext fun _ _ => isQuiet_pure _,
      Context.isLibrary_standard⟩
  · rename_i path _
    have hquiet := Context.isQuiet_ofFile .whole path (read path)
    rw [Act.bind_of_ok (m := (Context.ofFile .whole path (read path)).attempt) rfl] at h ⊢
    cases hfile : (Context.ofFile .whole path (read path)).outcome with
    | error e =>
      rw [hfile] at h
      cases e <;> cases h
    | ok c' =>
      rw [hfile] at h
      cases h
      exact ⟨List.forall_mem_append.2 ⟨hquiet, isQuiet_pure _⟩, Context.isLibrary_ofFile hfile⟩

/-- A loop that is made has functions of the library only, and only records have been emitted. -/
theorem prepare_of_outcome {repl : Repl} (h : (prepare read s r).outcome = .ok (some repl)) :
    (prepare read s r).IsQuiet ∧ repl.evaluator.context.IsLibrary := by
  unfold prepare at h ⊢
  rw [Act.bind_outcome] at h
  cases hc : (context read s r).outcome with
  | error e =>
    rw [hc] at h
    cases h
  | ok given =>
    rw [hc] at h
    cases given with
    | none => cases h
    | some c =>
      obtain ⟨hquiet, hlibrary⟩ := context_of_outcome hc
      cases h
      exact ⟨isQuiet_bind hquiet fun _ _ => isQuiet_pure _, hlibrary⟩

end CommandLine
end Reckoner
