import Mathlib.Data.List.Forall2
import Reckoner.Proofs.Yaml.Keys

/-!
# Order of entries

A document with the entries of its mappings in another order has the same keys with the same values.
What is looked up in it by name, what counts as given and what can be shown as a text depend on its
entries, and not on their order.
-/
namespace Reckoner

namespace Datum

/-- A value that can be shown as a text. -/
def HasText (d : Datum) : Prop := d.textFault? room = none

theorem textFaultAmong?_eq_none_iff {room : ℕ} {items : List Datum} :
    textFaultAmong? room items = none ↔ ∀ d ∈ items, d.textFault? room = none := by
  induction items with
  | nil => simp [textFaultAmong?]
  | cons d items ih => simp [textFaultAmong?, ih]

theorem textFaultWithin?_eq_none_iff {room : ℕ} {entries : List (Datum × Datum)} :
    textFaultWithin? room entries = none ↔
      ∀ e ∈ entries, e.1.textFault? room = none ∧ e.2.textFault? room = none := by
  induction entries with
  | nil => simp [textFaultWithin?]
  | cons e entries ih => simp [textFaultWithin?, ih, and_assoc]

end Datum

namespace Yaml

/-- Where no name occurs twice, the entries under texts are what is found by name. -/
theorem Value.entry?_eq_some_iff {es : List (Value × Value)} {name : String} {v : Value}
    (h : (names es).Nodup) : entry? name es = some v ↔ (.scalar (.text name), v) ∈ es := by
  induction es with
  | nil => simp [Value.entry?]
  | cons e es ih =>
    obtain ⟨key, old⟩ := e
    by_cases hk : key = .scalar (.text name)
    · subst hk
      obtain ⟨hnew, -⟩ : name ∉ names es ∧ (names es).Nodup := List.nodup_cons.1 h
      have hnot : (.scalar (.text name), v) ∉ es := by
        intro hmem
        exact hnew (List.mem_filterMap.2 ⟨_, hmem, rfl⟩)
      simp [Value.entry?, Value.sameKey_text_iff.2 rfl, hnot, eq_comm]
    · have hes : (names es).Nodup := by
        cases hn : key.name? <;> simp [names, hn] at h ⊢
        · exact h
        · exact h.2
      have hfind : entry? name ((key, old) :: es) = entry? name es := by
        simp [Value.entry?, mt Value.sameKey_text_iff.1 hk]
      rw [hfind, ih hes, List.mem_cons, Prod.mk.injEq]
      simp [Ne.symm hk]

theorem Value.entry?_perm {es es' : List (Value × Value)} (name : String) (h : (names es).Nodup)
    (hp : es.Perm es') : entry? name es' = entry? name es := by
  have h' : (names es').Nodup := (hp.filterMap _).nodup_iff.1 h
  ext v
  rw [Value.entry?_eq_some_iff h, entry?_eq_some_iff h', hp.mem_iff]

/-- The same collection, with the entries of a mapping in any order. -/
inductive Collection.Reordered : Collection → Collection → Prop where
  | refl (c : Collection) : Reordered c c
  | mapping {es es' : List (Value × Value)} (h : es.Perm es') :
    Reordered (mapping es) (mapping es')

theorem Collection.Reordered.namesOnce {c c' : Collection} (h : c.Reordered c')
    (hc : c.NamesOnce) : c'.NamesOnce := by
  cases h with
  | refl => exact hc
  | mapping hp => exact (hp.filterMap _).nodup_iff.1 hc

theorem Collection.Reordered.textFault?_opened {c c' : Collection} (hc : c.Reordered c')
    {inner inner' : Value → Datum}
    (h : ∀ v room, (inner' v).textFault? room = none ↔ (inner v).textFault? room = none)
    (room : ℕ) : (c'.opened inner').textFault? room = none ↔
      (c.opened inner).textFault? room = none := by
  cases room with
  | zero => cases hc with
    | refl => cases c <;> simp [opened, Datum.textFault?]
    | mapping => simp [opened, Datum.textFault?]
  | succ room => cases hc with
    | refl => cases c with
      | list | set =>
        simp only [opened, Datum.textFault?, Datum.textFaultAmong?_eq_none_iff,
          List.forall_mem_map, h]
      | mapping =>
        simp only [opened, Datum.textFault?, Datum.textFaultWithin?_eq_none_iff,
          List.forall_mem_map, h]
      | pairs =>
        -- A pair takes room of its own inside the list.
        simp only [opened, Datum.textFault?, Datum.textFaultAmong?_eq_none_iff,
          List.forall_mem_map]
        cases room <;> simp [Datum.textFaultAmong?_eq_none_iff, h]
    | mapping hp =>
      simp only [opened, Datum.textFault?, Datum.textFaultWithin?_eq_none_iff,
        List.forall_mem_map, h, hp.mem_iff]

namespace Document

/-- The same document, with the entries of its mappings in any order. -/
structure Reordered (doc doc' : Document) : Prop where
  root : doc'.root = doc.root
  collections : List.Forall₂ (fun e e' => e'.1 = e.1 ∧ e.2.Reordered e'.2)
    doc.collections doc'.collections

variable {doc doc' : Document}

theorem Reordered.namesOnce (h : doc.Reordered doc') (hdoc : doc.NamesOnce) :
    doc'.NamesOnce := by
  have hcs := h.collections
  unfold NamesOnce at hdoc ⊢
  generalize doc.collections = cs, doc'.collections = cs' at hcs hdoc ⊢
  induction hcs with
  | nil => exact hdoc
  | cons he _ ih =>
    obtain ⟨hc, hrest⟩ := List.forall_mem_cons.1 hdoc
    exact List.forall_mem_cons.2 ⟨he.2.namesOnce hc, ih hrest⟩

theorem lookup_reordered {cs cs' : List (ℕ × Collection)}
    (h : List.Forall₂ (fun e e' => e'.1 = e.1 ∧ e.2.Reordered e'.2) cs cs') (id : ℕ) :
    Option.Rel Collection.Reordered (cs.lookup id) (cs'.lookup id) := by
  induction h with
  | nil => exact .none
  | @cons e e' cs cs' he _ ih =>
    obtain ⟨key, c⟩ := e
    obtain ⟨key', c'⟩ := e'
    obtain ⟨hkey, hc⟩ : key' = key ∧ c.Reordered c' := he
    subst hkey
    by_cases hid : id = key'
    · subst hid
      simpa using Option.Rel.some hc
    · simpa [List.lookup_cons, beq_eq_false_iff_ne.2 hid] using ih

theorem Reordered.isGiven (h : doc.Reordered doc') (v : Value) :
    doc'.isGiven v = doc.isGiven v := by
  cases v with
  | scalar | nan => rfl
  | collection id =>
    have hrel := lookup_reordered h.collections id
    simp only [Document.isGiven]
    generalize doc.collections.lookup id = r, doc'.collections.lookup id = r' at hrel ⊢
    cases hrel with
    | none => rfl
    | some hc => cases hc with
      | refl => rfl
      | mapping hp => simp [Collection.isEmpty, hp.isEmpty_eq]

theorem Reordered.entries? (h : doc.Reordered doc') (v : Value) :
    Option.Rel List.Perm (doc.entries? v) (doc'.entries? v) := by
  cases v with
  | scalar | nan => exact .none
  | collection id =>
    have hrel := lookup_reordered h.collections id
    simp only [Document.entries?]
    generalize doc.collections.lookup id = r, doc'.collections.lookup id = r' at hrel ⊢
    cases hrel with
    | none => exact .none
    | @some c c' hc => cases hc with
      | refl => cases c with
        | mapping es => exact .some (.refl es)
        | list | pairs | set => exact .none
      | mapping hp => exact .some hp

@[simp]
theorem datum_scalar (d : Datum) : doc.datum (.scalar d) = d := by
  simp [datum, datumWithin]

theorem datumWithin_zero (left : List ℕ) (id : ℕ) : doc.datumWithin left 0 (.collection id) =
    (doc.collections.lookup id).elim .null fun c => .again c.isMapping := by
  cases h : doc.collections.lookup id <;> simp [datumWithin, h]

theorem datumWithin_succ (left : List ℕ) (depth id : ℕ) :
    doc.datumWithin left (depth + 1) (.collection id) =
      (doc.collections.lookup id).elim .null fun c =>
        if id ∈ left then c.opened (doc.datumWithin (left.erase id) depth)
        else .again c.isMapping := by
  cases h : doc.collections.lookup id <;> simp [datumWithin, h]

/-- A collection is shown as a list, a set or a mapping. -/
theorem datum_collection (id : ℕ) : doc.datum (.collection id) = .null ∨
    (∃ c inner, doc.datum (.collection id) = Collection.opened inner c) ∨
    ∃ isMapping, doc.datum (.collection id) = .again isMapping := by
  simp only [datum]
  generalize doc.collections.map Prod.fst = left
  cases left.length with
  | zero =>
    rw [datumWithin_zero]
    cases doc.collections.lookup id with
    | none => exact .inl rfl
    | some c => exact .inr (.inr ⟨_, rfl⟩)
  | succ depth =>
    rw [datumWithin_succ]
    cases doc.collections.lookup id with
    | none => exact .inl rfl
    | some c =>
      by_cases hid : id ∈ left
      · exact .inr (.inl ⟨c, _, if_pos hid⟩)
      · exact .inr (.inr ⟨_, if_neg hid⟩)

/-- Whether there is a text for a value does not depend on the order of entries, whichever and
however many collections are opened and however much room there is. -/
theorem Reordered.textFault?_eq_none_iff (h : doc.Reordered doc') (left : List ℕ) (depth : ℕ)
    (v : Value) (room : ℕ) : (doc'.datumWithin left depth v).textFault? room = none ↔
      (doc.datumWithin left depth v).textFault? room = none := by
  induction depth generalizing left v room with
  | zero => cases v with
    | scalar | nan => simp [datumWithin]
    | collection id =>
      have hrel := lookup_reordered h.collections id
      simp only [datumWithin_zero]
      generalize doc.collections.lookup id = r, doc'.collections.lookup id = r' at hrel ⊢
      cases hrel <;> simp [Datum.textFault?]
  | succ depth ih => cases v with
    | scalar | nan => simp [datumWithin]
    | collection id =>
      have hrel := lookup_reordered h.collections id
      simp only [datumWithin_succ]
      generalize doc.collections.lookup id = r, doc'.collections.lookup id = r' at hrel ⊢
      cases hrel with
      | none => rfl
      | @some c c' hc =>
        by_cases hid : id ∈ left
        · simp only [hid, if_true]
          exact hc.textFault?_opened (fun v room => ih _ v room) room
        · simp [hid, Datum.textFault?]

theorem Reordered.hasText_iff (h : doc.Reordered doc') (v : Value) :
    (doc'.datum v).HasText ↔ (doc.datum v).HasText := by
  have hids : doc'.collections.map Prod.fst = doc.collections.map Prod.fst := by
    have hcs := h.collections
    generalize doc.collections = cs, doc'.collections = cs' at hcs ⊢
    induction hcs with
    | nil => rfl
    | cons he _ ih => rw [List.map_cons, List.map_cons, he.1, ih]
  simp only [Datum.HasText, datum, hids]
  exact h.textFault?_eq_none_iff _ _ v _

end Document
end Yaml
end Reckoner
