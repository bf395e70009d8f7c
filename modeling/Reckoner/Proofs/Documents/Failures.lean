import Reckoner.Proofs.Documents.Tables

/-!
# Failures of documents

A file that describes no context is refused, and the refusal names its path. Not every failure is a
refusal: a path or a content that no text can be read from, an integer beyond the greatest double,
an alias that stands for a collection, and values that a message or the name of the context would
have to show although there is no text for them, fail as faults of the host. There are no other
escapes, whatever loader reads the file, as long as it gives a document for text or finds it
malformed.
-/
namespace Reckoner

/-- A refusal of the file at a path. -/
def Failure.Refuses (path : String) (e : Failure) : Prop := ∃ message, e = .badContext message path

def Failure.IsHost (e : Failure) : Prop := ∃ fault message, e = .host fault message

namespace Context

/-- The ways in which a constant fails without a refusal: its number is too large, or its name or
its value has to be shown and cannot be. -/
inductive ConstantEscape (key value : Datum) : Failure → Prop where
  | tooLarge {n : ℤ} (hv : value = .int n) (h : (Float.ofInt n).isInf = true) :
    ConstantEscape key value Datum.tooLarge
  | key {fault : Datum.TextFault} (hv : ∀ n, value = .int n → (Float.ofInt n).isInf = false)
    (h : key.textFault? Datum.room = some fault) : ConstantEscape key value (textFailure fault)
  | value {fault : Datum.TextFault} (hv : value.isNumber = false) (hkey : key.HasText)
    (h : value.textFault? Datum.room = some fault) : ConstantEscape key value (textFailure fault)

/-- The ways in which an alias fails without a refusal: it stands for a collection, or its name or
what it stands for has to be shown and cannot be. -/
inductive AliasEscape (key value : Datum) : Failure → Prop where
  | unhashable (h : value.isKey = false) :
    AliasEscape key value (.host .type s!"unhashable type: '{value.kind}'")
  | key {fault : Datum.TextFault} (hv : value.isKey = true)
    (h : key.textFault? Datum.room = some fault) : AliasEscape key value (textFailure fault)
  | target {fault : Datum.TextFault} (hv : value.isKey = true)
    (hf : ∀ f : LibraryFunction, value ≠ .text f.name) (hkey : key.HasText)
    (h : value.textFault? Datum.room = some fault) : AliasEscape key value (textFailure fault)

variable {path : String} {key value : Datum} {e : Failure}

theorem isHost_textFailure (fault : Datum.TextFault) : (textFailure fault).IsHost := by
  cases fault <;> exact ⟨_, _, rfl⟩

theorem ConstantEscape.isHost (h : ConstantEscape key value e) : e.IsHost := by
  cases h with
  | tooLarge => exact ⟨_, _, rfl⟩
  | key | value => exact isHost_textFailure _

theorem AliasEscape.isHost (h : AliasEscape key value e) : e.IsHost := by
  cases h with
  | unhashable => exact ⟨_, _, rfl⟩
  | key | target => exact isHost_textFailure _

theorem nameOf_error (h : nameOf path key = .error e) : e.Refuses path ∨
    ∃ fault, key.textFault? Datum.room = some fault ∧ textFailure fault = e := by
  cases key with
  | text name =>
    simp only [nameOf] at h
    split at h
    · cases h
    · cases h
      exact .inl ⟨_, rfl⟩
  | _ =>
    rcases bind_eq_error_iff.1 h with h | ⟨_, -, h⟩
    · exact .inr (shown_eq_error_iff.1 h)
    · cases h
      exact .inl ⟨_, rfl⟩

theorem nameOf_of_textFault? {fault : Datum.TextFault}
    (h : key.textFault? Datum.room = some fault) :
    nameOf path key = .error (textFailure fault) := by
  have hshown : shown Datum.plain key = .error (textFailure fault) :=
    shown_eq_error_iff.2 ⟨fault, h, rfl⟩
  cases key with
  | text name => simp [Datum.textFault?] at h
  | _ => exact bind_eq_error_iff.2 (.inl hshown)

theorem refusal_bind {α β : Type} {message : String → String → String} (f : α → Except Failure β) :
    (refusal path message key value >>= f) = refusal path message key value := by
  unfold refusal
  cases shown Datum.plain key with
  | error => rfl
  | ok => cases shown Datum.display value <;> rfl

/-- What a constant is given is an integer that is too large, a number, or no number. -/
theorem number_cases (value : Datum) : (∃ n, value = .int n ∧ (Float.ofInt n).isInf = true) ∨
    (∃ x, value.Gives x) ∨ value.isNumber = false := by
  cases value with
  | int n =>
    cases h : (Float.ofInt n).isInf with
    | true => exact .inl ⟨n, rfl, h⟩
    | false => exact .inr (.inl ⟨_, .int h⟩)
  | float x => exact .inr (.inl ⟨x, .float x⟩)
  | _ => exact .inr (.inr rfl)

theorem constantOf_of_gives {x : Float} (h : value.Gives x) :
    constantOf path (key, value) = (nameOf path key).map fun name => (name, x) := by
  simp only [constantOf, number_eq_ok_iff.2 h]
  cases nameOf path key <;> rfl

theorem constantOf_of_not_isNumber (h : value.isNumber = false) : constantOf path (key, value) =
    refusal path (fun name value => s!"Constant '{name}' must be numeric, " ++ s!"got {value}")
      key value := by
  rw [constantOf, number_of_not_isNumber h, refusal_bind]

theorem constantOf_error (h : constantOf path (key, value) = .error e) :
    e.Refuses path ∨ ConstantEscape key value e := by
  rcases number_cases value with ⟨n, rfl, hn⟩ | ⟨x, hx⟩ | hn
  · simp only [constantOf, number, Datum.toFloat, hn] at h
    cases h
    exact .inr (.tooLarge rfl hn)
  · rw [constantOf_of_gives hx] at h
    have hv (n : ℤ) (heq : value = .int n) : (Float.ofInt n).isInf = false := by
      subst heq
      cases hx with
      | int hn => exact hn
    rcases nameOf_error (map_eq_error_iff.1 h) with h | ⟨_, hf, rfl⟩
    · exact .inl h
    · exact .inr (.key hv hf)
  · have hv (n : ℤ) (heq : value = .int n) : (Float.ofInt n).isInf = false := by
      subst heq
      cases hn
    rw [constantOf_of_not_isNumber hn] at h
    rcases refusal_eq_error_iff.1 h with ⟨_, hf, rfl⟩ | ⟨hk, _, hf, rfl⟩ | ⟨-, -, rfl⟩
    · exact .inr (.key hv hf)
    · exact .inr (.value hn hk hf)
    · exact .inl ⟨_, rfl⟩

theorem ConstantEscape.constantOf (h : ConstantEscape key value e) :
    Context.constantOf path (key, value) = .error e := by
  cases h with
  | tooLarge hv h =>
    subst hv
    exact bind_eq_error_iff.2 (.inl (by simp [number, Datum.toFloat, h]))
  | key hv h =>
    rcases number_cases value with ⟨n, heq, hn⟩ | ⟨x, hx⟩ | hn
    · rw [hv n heq] at hn
      cases hn
    · rw [constantOf_of_gives hx, nameOf_of_textFault? h]
      rfl
    · rw [constantOf_of_not_isNumber hn]
      exact refusal_eq_error_iff.2 (.inl ⟨_, h, rfl⟩)
  | value hv hkey h =>
    rw [constantOf_of_not_isNumber hv]
    exact refusal_eq_error_iff.2 (.inr (.inl ⟨hkey, _, h, rfl⟩))

theorem aliasOf_of_name (f : LibraryFunction) :
    aliasOf path (key, .text f.name) = (nameOf path key).map fun name => (name, f) := by
  simp only [aliasOf, target_name]
  cases nameOf path key <;> rfl

theorem aliasOf_of_unknown (h : ∀ f : LibraryFunction, value ≠ .text f.name) :
    aliasOf path (key, value) =
      if value.isKey then
        refusal path (fun name value => s!"Function '{name}' refers to " ++
          s!"unknown library function {value}") key value
      else .error (.host .type s!"unhashable type: '{value.kind}'") := by
  rw [aliasOf, target_unknown h]
  cases value.isKey with
  | true => exact refusal_bind _
  | false => rfl

theorem aliasOf_error (h : aliasOf path (key, value) = .error e) :
    e.Refuses path ∨ AliasEscape key value e := by
  by_cases hf : ∃ f : LibraryFunction, value = .text f.name
  · obtain ⟨f, rfl⟩ := hf
    rw [aliasOf_of_name] at h
    rcases nameOf_error (map_eq_error_iff.1 h) with h | ⟨_, hf, rfl⟩
    · exact .inl h
    · exact .inr (.key rfl hf)
  · have hnot := not_exists.1 hf
    rw [aliasOf_of_unknown hnot] at h
    cases hk : value.isKey with
    | false =>
      rw [hk] at h
      cases h
      exact .inr (.unhashable hk)
    | true =>
      rw [hk] at h
      rcases refusal_eq_error_iff.1 h with ⟨_, hf, rfl⟩ | ⟨hkey, _, hf, rfl⟩ | ⟨-, -, rfl⟩
      · exact .inr (.key hk hf)
      · exact .inr (.target hk hnot hkey hf)
      · exact .inl ⟨_, rfl⟩

theorem AliasEscape.aliasOf (h : AliasEscape key value e) :
    Context.aliasOf path (key, value) = .error e := by
  cases h with
  | unhashable h =>
    have hnot (f : LibraryFunction) : value ≠ .text f.name := by
      rintro rfl
      cases h
    simp [aliasOf_of_unknown hnot, h]
  | key hv h =>
    by_cases hf : ∃ f : LibraryFunction, value = .text f.name
    · obtain ⟨f, rfl⟩ := hf
      rw [aliasOf_of_name, nameOf_of_textFault? h]
      rfl
    · rw [aliasOf_of_unknown (not_exists.1 hf), hv]
      exact refusal_eq_error_iff.2 (.inl ⟨_, h, rfl⟩)
  | target hv hf hkey h =>
    rw [aliasOf_of_unknown hf, hv]
    exact refusal_eq_error_iff.2 (.inr (.inl ⟨hkey, _, h, rfl⟩))

section Document

variable {D : Yaml.Document} {part : String}

/-- The ways in which a document fails without a refusal: its name cannot be shown, or one of its
entries escapes after entries that are accepted, constants first. -/
inductive DocumentEscape (D : Yaml.Document) : Failure → Prop where
  | name {v : Yaml.Value} {fault : Datum.TextFault} (hv : D.field? "name" = some v)
    (h : (D.datum v).textFault? Datum.room = some fault) : DocumentEscape D (textFailure fault)
  | constant {before after : Entries} {entry : Yaml.Value × Yaml.Value} {e : Failure}
    (hname : ∀ v, D.field? "name" = some v → (D.datum v).HasText)
    (hpart : D.part? "constants" = some (before ++ entry :: after))
    (hbefore : ∀ y ∈ before, D.IsConstant y)
    (h : ConstantEscape (D.datum entry.1) (D.datum entry.2) e) : DocumentEscape D e
  | function {before after : Entries} {entry : Yaml.Value × Yaml.Value} {e : Failure}
    (hname : ∀ v, D.field? "name" = some v → (D.datum v).HasText)
    (hconstants : ∃ es, D.part? "constants" = some es ∧ ∀ y ∈ es, D.IsConstant y)
    (hpart : D.part? "functions" = some (before ++ entry :: after))
    (hbefore : ∀ y ∈ before, Yaml.Document.IsAlias y)
    (h : AliasEscape (D.datum entry.1) (D.datum entry.2) e) : DocumentEscape D e

theorem DocumentEscape.isHost (h : DocumentEscape D e) : e.IsHost := by
  cases h with
  | name => exact isHost_textFailure _
  | constant _ _ _ h => exact h.isHost
  | function _ _ _ _ h => exact h.isHost

theorem entriesOf_error (h : entriesOf path D = .error e) : e.Refuses path := by
  unfold entriesOf at h
  split at h
  · cases h
  · split at h
    · cases h
      exact ⟨_, rfl⟩
    · cases h

theorem part_error (h : Context.part path D part D.fields = .error e) : e.Refuses path := by
  unfold Context.part at h
  split at h
  · cases h
  · split at h
    · cases h
    · split at h
      · cases h
      · cases h
        exact ⟨_, rfl⟩

/-- A part is refused, or it fails with the first entry that does. -/
theorem readPart_error {β : Type} {read : Datum × Datum → Except Failure β}
    (h : readPart path D part read = .error e) : e.Refuses path ∨
      ∃ before entry after, D.part? part = some (before ++ entry :: after) ∧
        (∀ y ∈ before, ∃ b, read (D.datum y.1, D.datum y.2) = .ok b) ∧
        read (D.datum entry.1, D.datum entry.2) = .error e := by
  rcases bind_eq_error_iff.1 h with h | ⟨es, hes, h⟩
  · exact .inl (part_error h)
  · obtain ⟨before, entry, after, rfl, hbefore, hentry⟩ := mapM_eq_error_iff.1 h
    exact .inr ⟨before, entry, after, part_eq_ok_iff.1 hes, hbefore, hentry⟩

theorem readPart_of_entry {β : Type} {read : Datum × Datum → Except Failure β}
    {before after : Entries} {entry : Yaml.Value × Yaml.Value}
    (hpart : D.part? part = some (before ++ entry :: after))
    (hbefore : ∀ y ∈ before, ∃ b, read (D.datum y.1, D.datum y.2) = .ok b)
    (hentry : read (D.datum entry.1, D.datum entry.2) = .error e) :
    readPart path D part read = .error e :=
  bind_eq_error_iff.2 (.inr ⟨_, part_eq_ok_iff.2 hpart,
    mapM_eq_error_iff.2 ⟨before, entry, after, rfl, hbefore, hentry⟩⟩)

theorem contentsOf_error (h : contentsOf path D = .error e) :
    e.Refuses path ∨ DocumentEscape D e := by
  -- One bind after the other: what was read before the failure was accepted.
  rcases bind_eq_error_iff.1 h with h | ⟨_, -, h⟩
  · exact .inl (entriesOf_error h)
  rcases bind_eq_error_iff.1 h with h | ⟨n, hn, h⟩
  · unfold nameFor at h
    split at h
    · rename_i v hv
      obtain ⟨_, hf, rfl⟩ := shown_eq_error_iff.1 h
      exact .inr (.name hv hf)
    · cases h
  have hname := (exists_nameFor_iff path).1 ⟨n, hn⟩
  rcases bind_eq_error_iff.1 h with h | ⟨cs, hcs, h⟩
  · rcases readPart_error h with h | ⟨before, entry, after, hpart, hbefore, hentry⟩
    · exact .inl h
    · refine (constantOf_error hentry).imp id fun hescape => ?_
      exact .constant hname hpart (fun y hy => (exists_constantOf_iff path y).1 (hbefore y hy))
        hescape
  rcases bind_eq_error_iff.1 h with h | ⟨fs, -, h⟩
  · rcases readPart_error h with h | ⟨before, entry, after, hpart, hbefore, hentry⟩
    · exact .inl h
    · refine (aliasOf_error hentry).imp id fun hescape => ?_
      exact .function hname ((exists_constants_iff path).1 ⟨cs, hcs⟩) hpart
        (fun y hy => (exists_aliasOf_iff path y).1 (hbefore y hy)) hescape
  · cases h

/-- A document with a field is a mapping. -/
theorem entriesOf_of_field? {name : String} {v : Yaml.Value} (h : D.field? name = some v) :
    entriesOf path D = .ok D.fields := by
  refine entriesOf_eq_ok_iff.2 ⟨fun _ => ?_, rfl⟩
  unfold Yaml.Document.field? Yaml.Document.fields at h
  cases hes : D.entries? D.root with
  | none => simp [hes, Yaml.Value.entry?] at h
  | some => rfl

theorem entriesOf_of_part? {before after : Entries} {entry : Yaml.Value × Yaml.Value}
    (h : D.part? part = some (before ++ entry :: after)) :
    entriesOf path D = .ok D.fields := by
  unfold Yaml.Document.part? at h
  split at h
  · simp at h
  · rename_i hv
    exact entriesOf_of_field? hv

theorem DocumentEscape.contentsOf (h : DocumentEscape D e) :
    Context.contentsOf path D = .error e := by
  cases h with
  | name hv h =>
    refine bind_eq_error_iff.2 (.inr ⟨_, entriesOf_of_field? hv, bind_eq_error_iff.2 (.inl ?_)⟩)
    simp only [nameFor, hv]
    exact shown_eq_error_iff.2 ⟨_, h, rfl⟩
  | constant hname hpart hbefore h =>
    obtain ⟨n, hn⟩ := (exists_nameFor_iff path).2 hname
    have hread : readPart path D "constants" (constantOf path) = .error e :=
      readPart_of_entry hpart (fun y hy => (exists_constantOf_iff path y).2 (hbefore y hy))
        h.constantOf
    refine bind_eq_error_iff.2 (.inr ⟨_, entriesOf_of_part? hpart, ?_⟩)
    exact bind_eq_error_iff.2 (.inr ⟨n, hn, bind_eq_error_iff.2 (.inl hread)⟩)
  | function hname hconstants hpart hbefore h =>
    obtain ⟨n, hn⟩ := (exists_nameFor_iff path).2 hname
    obtain ⟨cs, hcs⟩ := (exists_constants_iff path).2 hconstants
    have hread : readPart path D "functions" (aliasOf path) = .error e :=
      readPart_of_entry hpart (fun y hy => (exists_aliasOf_iff path y).2 (hbefore y hy)) h.aliasOf
    refine bind_eq_error_iff.2 (.inr ⟨_, entriesOf_of_part? hpart, ?_⟩)
    refine bind_eq_error_iff.2 (.inr ⟨n, hn, bind_eq_error_iff.2 (.inr ⟨cs, hcs, ?_⟩)⟩)
    exact bind_eq_error_iff.2 (.inl hread)

theorem ofDocument_eq_error_iff :
    (ofDocument path D).outcome = .error e ↔ contentsOf path D = .error e := by
  rw [ofDocument_outcome, map_eq_error_iff]

end Document

/-- The ways in which a file fails without a refusal. -/
inductive Escapes (load : Yaml.Loader) (path : String)
    (content : Except Files.Refusal ByteArray) : Failure → Prop where
  /-- No system takes the path. -/
  | path (h : path.contains '\x00' = true) : Escapes load path content nullByte
  /-- The content is no text, and is not found malformed before that shows. -/
  | encoding {bytes : ByteArray} {message : String} (hpath : path.contains '\x00' = false)
    (hcontent : content = .ok bytes) (hload : load bytes = .error (.undecodable message))
    (h : Text.Utf8.decode bytes = .error message) :
    Escapes load path content (.host .decoding message)
  | document {D : Yaml.Document} {e : Failure} (hpath : path.contains '\x00' = false)
    (hload : Loads load content D) (h : DocumentEscape D e) : Escapes load path content e

section File

variable {load : Yaml.Loader} {content : Except Files.Refusal ByteArray}

theorem Escapes.isHost (h : Escapes load path content e) : e.IsHost := by
  cases h with
  | path | encoding => exact ⟨_, _, rfl⟩
  | document _ _ h => exact h.isHost

theorem ofFile_of_unread {bytes : ByteArray} {u : Yaml.Unread}
    (hpath : path.contains '\x00' = false) (h : load bytes = .error u) :
    (ofFile load path (.ok bytes)).outcome = .error (unreadFailure path u) := by
  simp [ofFile, hpath, h, Act.fail, Act.ofExcept]

theorem Escapes.outcome (h : Escapes load path content e) :
    (ofFile load path content).outcome = .error e := by
  cases h with
  | path h => simp [ofFile, h, Act.fail, Act.ofExcept, Bind.bind]
  | encoding hpath hcontent hload =>
    subst hcontent
    exact ofFile_of_unread hpath hload
  | document hpath hload h =>
    rw [ofFile_of_loads hpath hload]
    exact ofDocument_eq_error_iff.2 h.contentsOf

/-- The content of a file is loaded or found malformed, or decoding it fails. -/
def IsRead (load : Yaml.Loader) (content : Except Files.Refusal ByteArray) : Prop :=
  ∀ bytes, content = .ok bytes → load.Reads bytes

theorem Loads.isRead {D : Yaml.Document} (h : Loads load content D) : IsRead load content := by
  obtain ⟨bytes, rfl, hload⟩ := h
  rintro _ ⟨⟩
  exact .of_eq_ok hload

theorem ofFile_error (hread : IsRead load content)
    (h : (ofFile load path content).outcome = .error e) :
    e.Refuses path ∨ Escapes load path content e := by
  cases hpath : path.contains '\x00' with
  | true =>
    rw [(Escapes.path hpath).outcome] at h
    cases h
    exact .inr (.path hpath)
  | false => cases content with
    | error refusal =>
      simp only [ofFile, hpath, Act.fail, Act.ofExcept] at h
      cases h
      exact .inl ⟨_, rfl⟩
    | ok bytes => cases hload : load bytes with
      | error u =>
        rw [ofFile_of_unread hpath hload] at h
        cases h
        cases u with
        | malformed explanation => exact .inl ⟨_, rfl⟩
        | undecodable message =>
          exact .inr (.encoding hpath rfl hload ((hread bytes rfl).undecodable message hload))
        | escaped e => exact absurd hload ((hread bytes rfl).not_escaped e)
      | ok D =>
        have hloads : Loads load (.ok bytes) D := ⟨bytes, rfl, hload⟩
        rw [ofFile_of_loads hpath hloads, ofDocument_eq_error_iff] at h
        exact (contentsOf_error h).imp id (.document hpath hloads)

/-- A file fails with a refusal that names its path, or it escapes in one of the ways above. -/
theorem ofFile_failures (hpath : path ≠ "") (hread : IsRead load content) :
    (∀ e, (ofFile load path content).outcome = .error e ∧ e.kind ≠ .badContext ↔
      Escapes load path content e) ∧
    ∀ e, (ofFile load path content).outcome = .error e → e.kind = .badContext →
      e.report.details = [("path", .text path)] := by
  constructor
  · intro e
    constructor
    · rintro ⟨h, hkind⟩
      rcases ofFile_error hread h with ⟨message, rfl⟩ | hescape
      · exact absurd rfl hkind
      · exact hescape
    · intro h
      obtain ⟨fault, message, rfl⟩ := h.isHost
      exact ⟨h.outcome, by simp [Failure.kind, Failure.report]⟩
  · intro e h hkind
    rcases ofFile_error hread h with ⟨message, rfl⟩ | hescape
    · simp [Failure.report, hpath]
    · obtain ⟨fault, message, rfl⟩ := hescape.isHost
      simp [Failure.kind, Failure.report] at hkind

/-- A document that is a list is refused. -/
theorem ofFile_failures_list :
    let load := Yaml.Loader.whole
    let content : Except Files.Refusal ByteArray := .ok "[sin]\n".toUTF8
    ∃ e, (ofFile load "c.yaml" content).outcome = .error e ∧ ¬Escapes load "c.yaml" content e ∧
      e.report.details = [("path", .text "c.yaml")] := by
  intro load content
  have hread : (Yaml.Document.ofText "[sin]\n").toOption.any (fun D =>
      (ofDocument "c.yaml" D).outcome.map (fun _ => ()) =
        .error (.badContext "Context file must contain a mapping" "c.yaml")) = true := by
    decide +kernel
  obtain ⟨D, hD, hread⟩ := (Option.any_eq_true _ _).1 hread
  rw [toOption_eq_some_iff] at hD
  have hload : Loads load content D :=
    ⟨_, rfl, Yaml.Loader.whole_eq_ok_iff.2 ⟨"[sin]\n", by decide +kernel, hD⟩⟩
  rw [← ofFile_of_loads (by simp) hload, decide_eq_true_eq, map_eq_error_iff] at hread
  obtain ⟨hescapes, hdetails⟩ :=
    @ofFile_failures "c.yaml" load content (by decide) hload.isRead
  refine ⟨_, hread, ?_, hdetails _ hread rfl⟩
  intro hescape
  exact ((hescapes _).2 hescape).2 rfl

/-- A list as what an alias stands for is looked up, and found unhashable, instead of refused. -/
theorem ofFile_unhashable :
    let source := "functions: {f: [sin]}\n"
    (ofFile .whole "c.yaml" (.ok source.toUTF8)).outcome =
      .error (.host .type "unhashable type: 'list'") := by
  intro source
  have hread : (Yaml.Document.ofText source).toOption.any (fun D =>
      (ofDocument "c.yaml" D).outcome.map (fun _ => ()) =
        .error (.host .type "unhashable type: 'list'")) = true := by
    decide +kernel
  obtain ⟨D, hD, hread⟩ := (Option.any_eq_true _ _).1 hread
  rw [toOption_eq_some_iff] at hD
  have hload : Loads .whole (.ok source.toUTF8) D :=
    ⟨_, rfl, Yaml.Loader.whole_eq_ok_iff.2 ⟨source, by decide +kernel, hD⟩⟩
  rw [← ofFile_of_loads (by simp) hload, decide_eq_true_eq, map_eq_error_iff] at hread
  exact hread

end File

end Context
end Reckoner
