import Mathlib.Data.List.Nodup
import Mathlib.Data.String.Basic
import Reckoner.Table

/-!
# Keys of tables

A table has an entry under its keys and under no other name. Putting an entry in keeps the keys
distinct, and the keys of a table in order are strictly ascending.
-/
namespace Reckoner.Table

variable {α : Type} {name key : String} {a value : α} {t : Table α}

theorem mem_of_get? (h : t.get? name = some a) : (name, a) ∈ t := by
  induction t with
  | nil => cases h
  | cons e t ih =>
    obtain ⟨key, old⟩ := e
    by_cases hk : key = name
    · subst hk
      simp only [get?, if_true, Option.some.injEq] at h
      simp [h]
    · simp only [get?, hk, if_false] at h
      exact List.mem_cons_of_mem _ (ih h)

theorem get?_ne_none_iff : t.get? name ≠ none ↔ name ∈ t.keys := by
  induction t with
  | nil => simp [get?, keys]
  | cons e t ih =>
    obtain ⟨key, old⟩ := e
    by_cases hk : key = name
    · simp [get?, keys, hk]
    · simpa [get?, keys, hk, Ne.symm hk] using ih

/-- Where no name occurs twice, the entries are what lookups find. -/
theorem mem_iff_get?_eq_some (h : t.keys.Nodup) : (name, a) ∈ t ↔ t.get? name = some a := by
  refine ⟨fun hmem => ?_, mem_of_get?⟩
  induction t with
  | nil => cases hmem
  | cons e t ih =>
    obtain ⟨key, old⟩ := e
    obtain ⟨hkey, hrest⟩ := List.nodup_cons.1 h
    rcases List.mem_cons.1 hmem with heq | hmem
    · cases heq
      simp [get?]
    · have hne : key ≠ name := by
        rintro rfl
        exact hkey (List.mem_map.2 ⟨_, hmem, rfl⟩)
      simpa [get?, hne] using ih hrest hmem

theorem mem_keys_put : key ∈ (t.put name value).keys ↔ key ∈ t.keys ∨ key = name := by
  rw [keys_put]
  split
  · rename_i hmem
    exact ⟨.inl, fun h => h.elim id fun heq => heq ▸ hmem⟩
  · simp

theorem nodup_keys_put (h : t.keys.Nodup) : (t.put name value).keys.Nodup := by
  rw [keys_put]
  split
  · exact h
  · rename_i hmem
    exact List.nodup_append.2 ⟨h, List.nodup_singleton _, fun x hx y hy hxy => by
      obtain rfl := List.mem_singleton.1 hy
      exact hmem (hxy ▸ hx)⟩

section Overlay

variable {β : Type} (g : β → α) {ps : List (String × β)} {b : β}

/-- Entries put in one after the other leave the other names as they are. -/
theorem get?_foldl_put_of_not_mem (t : Table α) (h : name ∉ ps.map Prod.fst) :
    (ps.foldl (fun t e => t.put e.1 (g e.2)) t).get? name = t.get? name := by
  induction ps generalizing t with
  | nil => rfl
  | cons e ps ih =>
    obtain ⟨hne, hrest⟩ : name ≠ e.1 ∧ name ∉ ps.map Prod.fst := by simpa using h
    rw [List.foldl_cons, ih _ hrest, get?_put, if_neg (Ne.symm hne)]

/-- Entries put in one after the other are there, if no name occurs twice among them. -/
theorem get?_foldl_put_of_mem (t : Table α) (h : (ps.map Prod.fst).Nodup) (hmem : (name, b) ∈ ps) :
    (ps.foldl (fun t e => t.put e.1 (g e.2)) t).get? name = some (g b) := by
  induction ps generalizing t with
  | nil => cases hmem
  | cons e ps ih =>
    obtain ⟨hnew, hnodup⟩ := List.nodup_cons.1 h
    rcases List.mem_cons.1 hmem with rfl | hmem
    · rw [List.foldl_cons, get?_foldl_put_of_not_mem g _ hnew, get?_put, if_pos rfl]
    · exact ih _ hnodup hmem

end Overlay

theorem mem_sorted {e : String × α} : e ∈ t.sorted ↔ e ∈ t := (List.mergeSort_perm t _).mem_iff

theorem mem_sorted_keys : name ∈ t.sorted.keys ↔ name ∈ t.keys :=
  ((List.mergeSort_perm t _).map Prod.fst).mem_iff

/-- The names of a table in order, each of them once. -/
theorem sorted_keys_pairwise (h : t.keys.Nodup) : t.sorted.keys.Pairwise (· < ·) := by
  have hle : t.sorted.keys.Pairwise (· ≤ ·) := by
    refine List.pairwise_map.2 ((List.pairwise_mergeSort ?_ ?_ t).imp fun hab => ?_)
    · simp only [decide_eq_true_eq]
      exact fun a b c => le_trans
    · simp only [Bool.or_eq_true, decide_eq_true_eq]
      exact fun a b => le_total a.1 b.1
    · simpa using hab
  have hnodup : t.sorted.keys.Nodup :=
    ((List.mergeSort_perm t _).map Prod.fst).nodup_iff.2 h
  exact (hle.and hnodup).imp fun hab => lt_of_le_of_ne hab.1 hab.2

end Reckoner.Table
