import Mathlib.Tactic.MkIffOfInductiveProp
import Reckoner.Proofs.Documents.Contents

/-!
# Tables of documents

Which documents describe a context, and which tables they describe: what a document lists lies over
the standard context, or over an empty one. Both depend on the entries of a document and not on
their order, although its entries are read one by one up to the first that is wrong.
-/
namespace Reckoner

namespace Yaml.Document

variable {D D' : Document} {part : String} {es es' : List (Value × Value)} {v : Value}

/-- A key that may be registered. -/
def IsName (key : Value) : Prop := ∃ name, key = .scalar (.text name) ∧ isIdentifier name = true

/-- A name with a number that has a double. -/
def IsConstant (D : Document) (e : Value × Value) : Prop :=
  IsName e.1 ∧ ∃ x, (D.datum e.2).Gives x

/-- A new name for a library function. -/
def IsAlias (e : Value × Value) : Prop :=
  IsName e.1 ∧ ∃ f : LibraryFunction, e.2 = .scalar (.text f.name)

/-- A document that describes a context: a mapping, or nothing, with a name that can be shown, with
constants and with aliases. All of them may be left out. -/
@[mk_iff]
structure IsContext (D : Document) : Prop where
  mapping : D.isGiven D.root = true → (D.entries? D.root).isSome
  name : ∀ v, D.field? "name" = some v → (D.datum v).HasText
  constants : ∃ es, D.part? "constants" = some es ∧ ∀ e ∈ es, D.IsConstant e
  functions : ∃ es, D.part? "functions" = some es ∧ ∀ e ∈ es, IsAlias e

/-- A part of a document has an entry under a name. -/
def Lists (D : Document) (part name : String) (v : Value) : Prop :=
  ∃ es, D.part? part = some es ∧ (.scalar (.text name), v) ∈ es

theorem NamesOnce.entries? (h : D.NamesOnce) (hes : D.entries? v = some es) :
    (names es).Nodup := by
  cases v with
  | scalar | nan => cases hes
  | collection id =>
    simp only [Document.entries?] at hes
    split at hes
    · rename_i es' hlookup
      cases hes
      obtain ⟨before, after, hcs, -⟩ := List.lookup_eq_some_iff.1 hlookup
      exact h (id, .mapping es) (by simp [hcs])
    · cases hes

theorem NamesOnce.fields (h : D.NamesOnce) : (names D.fields).Nodup := by
  unfold Document.fields
  cases hes : D.entries? D.root with
  | none => exact List.nodup_nil
  | some es => exact h.entries? hes

theorem NamesOnce.part? (h : D.NamesOnce) (hes : D.part? part = some es) :
    (names es).Nodup := by
  unfold Document.part? at hes
  split at hes
  · cases hes
    exact List.nodup_nil
  · split at hes
    · exact h.entries? hes
    · cases hes
      exact List.nodup_nil

/-- A number is the same in every document. -/
theorem gives_iff (D D' : Document) {x : Float} :
    (D'.datum v).Gives x ↔ (D.datum v).Gives x := by
  cases v with
  | scalar => simp
  | nan => simp [datum, datumWithin]
  | collection id =>
    have hnot (D : Document) : ¬(D.datum (.collection id)).Gives x := by
      intro hgives
      rcases @datum_collection D id with h | ⟨c, inner, h⟩ | ⟨isMapping, h⟩
      · rw [h] at hgives
        cases hgives
      · rw [h] at hgives
        cases c <;> cases hgives
      · rw [h] at hgives
        cases hgives
    exact iff_of_false (hnot D') (hnot D)

section Order

variable (h : D.Reordered D') (hD : D.NamesOnce)
include h hD

theorem Reordered.field?_eq (name : String) : D'.field? name = D.field? name := by
  have hrel := h.entries? D.root
  have hfields : D.fields.Perm D'.fields := by
    unfold Document.fields
    rw [h.root]
    generalize D.entries? D.root = r, D'.entries? D.root = r' at hrel ⊢
    cases hrel with
    | none => exact .refl _
    | some hp => exact hp
  exact Value.entry?_perm name hD.fields hfields

theorem Reordered.part? (name : String) : Option.Rel List.Perm (D.part? name) (D'.part? name) := by
  unfold Document.part?
  rw [h.field?_eq hD]
  cases D.field? name with
  | none => exact .some (.refl _)
  | some v =>
    simp only [h.isGiven]
    split
    · exact h.entries? v
    · exact .some (.refl _)

theorem Reordered.forall_part_iff {name : String} {p : Value × Value → Prop} :
    (∃ es, D'.part? name = some es ∧ ∀ e ∈ es, p e) ↔
      ∃ es, D.part? name = some es ∧ ∀ e ∈ es, p e := by
  have hrel := h.part? hD name
  generalize D.part? name = r, D'.part? name = r' at hrel ⊢
  cases hrel with
  | none => simp
  | some hp => simp [hp.mem_iff]

theorem Reordered.lists_iff {name : String} : D'.Lists part name v ↔ D.Lists part name v := by
  have hrel := h.part? hD part
  unfold Lists
  generalize D.part? part = r, D'.part? part = r' at hrel ⊢
  cases hrel with
  | none => simp
  | some hp => simp [hp.mem_iff]

theorem Reordered.isContext_iff : D'.IsContext ↔ D.IsContext := by
  have hmapping : (D'.entries? D.root).isSome = (D.entries? D.root).isSome := by
    have hrel := h.entries? D.root
    generalize D.entries? D.root = r, D'.entries? D.root = r' at hrel ⊢
    cases hrel <;> rfl
  have hconstant (e : Value × Value) : D'.IsConstant e ↔ D.IsConstant e := by
    simp only [IsConstant, gives_iff D D']
  simp only [Document.isContext_iff, h.root, h.isGiven, hmapping, h.field?_eq hD, h.hasText_iff,
    hconstant, h.forall_part_iff hD]

end Order

end Yaml.Document

namespace Context

variable {path name : String} {D D' : Yaml.Document} {c c' : Context} {k : Contents}

section Parts

variable {α β : Type} {ps : List (String × β)} {part : String}
  {g : Datum × Datum → Except Failure (String × β)}

theorem readPart_eq_ok_iff : readPart path D part g = .ok ps ↔ ∃ es, D.part? part = some es ∧
    List.Forall₂ (fun e p => g (D.datum e.1, D.datum e.2) = .ok p) es ps := by
  simp only [readPart, bind_eq_ok_iff, part_eq_ok_iff, mapM_eq_ok_iff]

/-- A part is read without a failure if it is a mapping and each entry is read without one. -/
theorem exists_readPart_iff (path part : String) (g : Datum × Datum → Except Failure β) :
    (∃ ps, readPart path D part g = .ok ps) ↔ ∃ es, D.part? part = some es ∧
      ∀ e ∈ es, ∃ b, g (D.datum e.1, D.datum e.2) = .ok b := by
  simp only [readPart, bind_eq_ok_iff, part_eq_ok_iff, ← exists_mapM_eq_ok_iff]
  constructor
  · rintro ⟨ps, es, hes, hps⟩
    exact ⟨es, hes, ps, hps⟩
  · rintro ⟨es, hes, ps, hps⟩
    exact ⟨ps, es, hes, hps⟩

variable (hg : ∀ k v name b, g (k, v) = .ok (name, b) → k = .text name)
include hg

/-- The entries of a part are read under their own names. -/
theorem keys_eq_names {es : Entries}
    (h : List.Forall₂ (fun e p => g (D.datum e.1, D.datum e.2) = .ok p) es ps) :
    ps.map Prod.fst = Yaml.names es := by
  induction h with
  | nil => rfl
  | @cons e p _ _ hep _ ih =>
    have hkey := Yaml.Document.datum_eq_text_iff.1 (hg _ _ p.1 p.2 hep)
    rw [List.map_cons, ih, Yaml.names_cons, hkey]
    rfl

/-- Under a name that a part lists stands what its value is read as. -/
theorem get?_overlay_of_lists (hD : D.NamesOnce) (h : readPart path D part g = .ok ps)
    (enter : β → α) (t : Table α) {v : Yaml.Value} (hv : D.Lists part name v) :
    ∃ b, g (.text name, D.datum v) = .ok (name, b) ∧
      (ps.foldl (fun t e => t.put e.1 (enter e.2)) t).get? name = some (enter b) := by
  obtain ⟨es, hes, hall⟩ := readPart_eq_ok_iff.1 h
  obtain ⟨_, hes', hmem⟩ := hv
  cases hes.symm.trans hes'
  obtain ⟨⟨name', b⟩, hb, hread⟩ := forall₂_of_mem hall hmem
  rw [Yaml.Document.datum_scalar] at hread
  cases hg _ _ _ _ hread
  refine ⟨b, hread, Table.get?_foldl_put_of_mem enter t ?_ hb⟩
  rw [keys_eq_names hg hall]
  exact hD.part? hes

/-- A name that a part does not list stands for what it stood for. -/
theorem get?_overlay_of_not_lists (h : readPart path D part g = .ok ps) (enter : β → α)
    (t : Table α) (hnot : ∀ v, ¬D.Lists part name v) :
    (ps.foldl (fun t e => t.put e.1 (enter e.2)) t).get? name = t.get? name := by
  obtain ⟨es, hes, hall⟩ := readPart_eq_ok_iff.1 h
  apply Table.get?_foldl_put_of_not_mem
  rw [keys_eq_names hg hall]
  intro hmem
  obtain ⟨e, he, hname⟩ := List.mem_filterMap.1 hmem
  exact hnot e.2 ⟨es, hes, by rwa [← Yaml.Value.name?_eq_some_iff.1 hname]⟩

end Parts

theorem foldl_enterConstant (cs : List (String × Float)) (c : Context) :
    cs.foldl enterConstant c =
      { c with constants := cs.foldl (fun t e => t.put e.1 e.2) c.constants } := by
  induction cs generalizing c with
  | nil => rfl
  | cons e cs ih => rw [List.foldl_cons, ih]; rfl

theorem foldl_enterFunction (fs : List (String × LibraryFunction)) (c : Context) :
    fs.foldl enterFunction c =
      { c with functions := fs.foldl (fun t e => t.put e.1 (.library e.2)) c.functions } := by
  induction fs generalizing c with
  | nil => rfl
  | cons e fs ih => rw [List.foldl_cons, ih]; rfl

theorem over_eq (k : Contents) (c : Context) : k.over c =
    { name := k.name
      functions := k.functions.foldl (fun t e => t.put e.1 (.library e.2)) c.functions
      constants := k.constants.foldl (fun t e => t.put e.1 e.2) c.constants } := by
  rw [Contents.over, foldl_enterConstant, foldl_enterFunction]

theorem exists_constantOf_iff (path : String) (e : Yaml.Value × Yaml.Value) :
    (∃ p, constantOf path (D.datum e.1, D.datum e.2) = .ok p) ↔ D.IsConstant e := by
  simp only [Prod.exists, constantOf_eq_ok_iff, Yaml.Document.datum_eq_text_iff,
    Yaml.Document.IsConstant, Yaml.Document.IsName]
  grind

theorem exists_aliasOf_iff (path : String) (e : Yaml.Value × Yaml.Value) :
    (∃ p, aliasOf path (D.datum e.1, D.datum e.2) = .ok p) ↔ Yaml.Document.IsAlias e := by
  simp only [Prod.exists, aliasOf_eq_ok_iff, Yaml.Document.datum_eq_text_iff,
    Yaml.Document.IsAlias, Yaml.Document.IsName]
  grind

theorem exists_constants_iff (path : String) :
    (∃ cs, readPart path D "constants" (constantOf path) = .ok cs) ↔
      ∃ es, D.part? "constants" = some es ∧ ∀ e ∈ es, D.IsConstant e := by
  simp only [exists_readPart_iff, exists_constantOf_iff]

theorem exists_functions_iff (path : String) :
    (∃ fs, readPart path D "functions" (aliasOf path) = .ok fs) ↔
      ∃ es, D.part? "functions" = some es ∧ ∀ e ∈ es, Yaml.Document.IsAlias e := by
  simp only [exists_readPart_iff, exists_aliasOf_iff]

/-- A document has contents if it is one that describes a context. -/
theorem exists_contentsOf_iff (path : String) : (∃ k, contentsOf path D = .ok k) ↔ D.IsContext := by
  rw [Yaml.Document.isContext_iff, ← exists_constants_iff path, ← exists_functions_iff path,
    ← exists_nameFor_iff path]
  simp only [contentsOf, bind_eq_ok_iff, entriesOf_eq_ok_iff]
  constructor
  · rintro ⟨k, _, ⟨hmapping, -⟩, n, hn, cs, hcs, fs, hfs, -⟩
    exact ⟨hmapping, ⟨n, hn⟩, ⟨cs, hcs⟩, ⟨fs, hfs⟩⟩
  · rintro ⟨hmapping, ⟨n, hn⟩, ⟨cs, hcs⟩, ⟨fs, hfs⟩⟩
    exact ⟨_, _, ⟨hmapping, rfl⟩, n, hn, cs, hcs, fs, hfs, rfl⟩

/-- The tables of a context are those that a document describes: under the names that it lists
stand the values that it gives, all other names stand for what they stand for in the standard
context, or for nothing if the defaults are left out. -/
structure Describes (D : Yaml.Document) (c : Context) : Prop where
  constant_listed : ∀ name v, D.Lists "constants" name v →
    ∃ x, (D.datum v).Gives x ∧ c.constant? name = some x
  constant_default : ∀ name, (∀ v, ¬D.Lists "constants" name v) →
    c.constant? name = if hasDefaults D then standard.constant? name else none
  function_listed : ∀ name v, D.Lists "functions" name v →
    ∃ f : LibraryFunction, v = .scalar (.text f.name) ∧ c.function? name = some (.library f)
  function_default : ∀ name, (∀ v, ¬D.Lists "functions" name v) →
    c.function? name = if hasDefaults D then standard.function? name else none

theorem describes_over (hD : D.NamesOnce) (h : contentsOf path D = .ok k) :
    Describes D (k.over (base D)) := by
  obtain ⟨_, -, h⟩ := bind_eq_ok_iff.1 h
  obtain ⟨n, -, h⟩ := bind_eq_ok_iff.1 h
  obtain ⟨cs, hcs, h⟩ := bind_eq_ok_iff.1 h
  obtain ⟨fs, hfs, h⟩ := bind_eq_ok_iff.1 h
  cases h
  have hconstant (k v : Datum) (name : String) (x : Float)
      (h : constantOf path (k, v) = .ok (name, x)) : k = .text name := (constantOf_eq_ok_iff.1 h).1
  have halias (k v : Datum) (name : String) (f : LibraryFunction)
      (h : aliasOf path (k, v) = .ok (name, f)) : k = .text name := (aliasOf_eq_ok_iff.1 h).1
  rw [over_eq]
  constructor
  · intro name v hv
    obtain ⟨x, hx, hget⟩ := get?_overlay_of_lists hconstant hD hcs id (base D).constants hv
    exact ⟨x, (constantOf_eq_ok_iff.1 hx).2.2, hget⟩
  · intro name hnot
    have hget := get?_overlay_of_not_lists hconstant hcs id (base D).constants hnot
    refine hget.trans ?_
    unfold base
    split <;> rfl
  · intro name v hv
    obtain ⟨f, hf, hget⟩ := get?_overlay_of_lists halias hD hfs Callable.library (base D).functions hv
    exact ⟨f, Yaml.Document.datum_eq_text_iff.1 (aliasOf_eq_ok_iff.1 hf).2.2, hget⟩
  · intro name hnot
    have hget := get?_overlay_of_not_lists halias hfs Callable.library (base D).functions hnot
    refine hget.trans ?_
    unfold base
    split <;> rfl

theorem exists_ofDocument_iff :
    (∃ c, (ofDocument path D).outcome = .ok c) ↔ D.IsContext := by
  rw [← exists_contentsOf_iff path, ofDocument_outcome]
  cases contentsOf path D <;> simp [Except.map]

theorem describes_ofDocument (hD : D.NamesOnce) (h : (ofDocument path D).outcome = .ok c) :
    Describes D c := by
  rw [ofDocument_outcome] at h
  cases hk : contentsOf path D with
  | error e =>
    rw [hk] at h
    cases h
  | ok k =>
    rw [hk] at h
    cases h
    exact describes_over hD hk

/-- Contexts that the same document describes have the same tables. -/
theorem Describes.agree (h : Describes D c) (h' : Describes D c') (name : String) :
    c'.constant? name = c.constant? name ∧ c'.function? name = c.function? name := by
  constructor
  · by_cases hl : ∃ v, D.Lists "constants" name v
    · obtain ⟨v, hv⟩ := hl
      obtain ⟨x, hx, hc⟩ := h.constant_listed name v hv
      obtain ⟨y, hy, hc'⟩ := h'.constant_listed name v hv
      rw [hc, hc', hx.unique hy]
    · have hnot := not_exists.1 hl
      rw [h.constant_default name hnot, h'.constant_default name hnot]
  · by_cases hl : ∃ v, D.Lists "functions" name v
    · obtain ⟨v, hv⟩ := hl
      obtain ⟨f, rfl, hc⟩ := h.function_listed name v hv
      obtain ⟨g, hg, hc'⟩ := h'.function_listed name _ hv
      have hname : f.name = g.name := by simpa using hg
      rw [hc, hc', LibraryFunction.name_injective hname]
    · have hnot := not_exists.1 hl
      rw [h.function_default name hnot, h'.function_default name hnot]

theorem Describes.of_reordered (h : D.Reordered D') (hD : D.NamesOnce) (hc : Describes D' c) :
    Describes D c := by
  have hdefaults : hasDefaults D' = hasDefaults D := by
    unfold hasDefaults
    rw [h.field?_eq hD]
    cases D.field? "include_defaults" <;> simp [h.isGiven]
  obtain ⟨hcl, hcd, hfl, hfd⟩ := hc
  simp only [h.lists_iff hD, Yaml.Document.gives_iff D D', hdefaults] at hcl hcd hfl hfd
  exact ⟨hcl, hcd, hfl, hfd⟩

/-- A file from which a document is loaded is accepted if the document describes a context, and the
context has the tables that the document describes. The order of the entries of its mappings does
not count. -/
theorem ofFile_describes {load : Yaml.Loader} {content : Except Files.Refusal ByteArray}
    (hpath : path.contains '\x00' = false) (hnames : load.NamesOnce)
    (hload : Loads load content D) :
    ((∃ c, (ofFile load path content).outcome = .ok c) ↔ D.IsContext) ∧
      (∀ c, (ofFile load path content).outcome = .ok c → Describes D c) ∧
      ∀ D', D.Reordered D' →
        ((∃ c, (ofDocument path D').outcome = .ok c) ↔
          ∃ c, (ofFile load path content).outcome = .ok c) ∧
        ∀ c c', (ofFile load path content).outcome = .ok c →
          (ofDocument path D').outcome = .ok c' →
          ∀ name, c'.constant? name = c.constant? name ∧ c'.function? name = c.function? name := by
  have hD := hload.namesOnce hnames
  rw [ofFile_of_loads hpath hload]
  refine ⟨exists_ofDocument_iff, fun c hc => describes_ofDocument hD hc, fun D' h => ?_⟩
  refine ⟨?_, fun c c' hc hc' => ?_⟩
  · rw [exists_ofDocument_iff, exists_ofDocument_iff, h.isContext_iff hD]
  · have hdescribes := describes_ofDocument (h.namesOnce hD) hc'
    exact (describes_ofDocument hD hc).agree (hdescribes.of_reordered h hD)

/-- A document that leaves out the defaults gives what it lists and nothing else. -/
theorem ofFile_describes_alias :
    let source := "include_defaults: false\nconstants: {g: 9}\nfunctions: {arc: asin}\n"
    let load := Yaml.Loader.whole
    ∃ D c, Loads load (.ok source.toUTF8) D ∧ D.IsContext ∧
      (ofFile load "c.yaml" (.ok source.toUTF8)).outcome = .ok c ∧ Describes D c ∧
      c.constant? "g" = some (Float.ofInt 9) ∧ c.constant? "pi" = none := by
  intro source load
  have hread : (Yaml.Document.ofText source).toOption.any (fun D =>
      (ofDocument "c.yaml" D).outcome.toOption.any fun c =>
        c.constant? "g" = some (Float.ofInt 9) && c.constant? "pi" = none) = true := by
    decide +kernel
  obtain ⟨D, hD, hread⟩ := (Option.any_eq_true _ _).1 hread
  obtain ⟨c, hc, hlookups⟩ := (Option.any_eq_true _ _).1 hread
  rw [toOption_eq_some_iff] at hD hc
  have hpath : "c.yaml".contains '\x00' = false := by simp
  have hload : Loads load (.ok source.toUTF8) D :=
    ⟨_, rfl, Yaml.Loader.whole_eq_ok_iff.2 ⟨source, by decide +kernel, hD⟩⟩
  rw [← ofFile_of_loads hpath hload] at hc
  obtain ⟨haccepts, hdescribes, -⟩ :=
    ofFile_describes hpath Yaml.Loader.namesOnce_whole hload
  refine ⟨D, c, hload, haccepts.1 ⟨c, hc⟩, hc, hdescribes c hc, ?_⟩
  simpa using hlookups

end Context
end Reckoner
