import Mathlib.Data.List.Nodup
import Reckoner.Yaml.Value.Builder

/-!
# Keys of YAML mappings

In every document that is read from a text each text is a key of a mapping at most once: an entry is
put in the place of an earlier one with an equal key. Building a document fills one collection after
the other, and every step keeps this of the mappings that are filled.
-/
namespace Reckoner

theorem Datum.sameKey_text_iff {d : Datum} {name : String} :
    d.sameKey (.text name) = true ↔ d = .text name := by
  cases d with
  | date year month day time => cases time <;> simp [sameKey, dyadic?]
  | _ => simp [sameKey, dyadic?]

namespace Yaml

namespace Value

/-- The name that a key is, if it is a text. -/
def name? : Value → Option String
  | scalar (.text name) => some name
  | _ => none

theorem name?_eq_some_iff {v : Value} {name : String} :
    v.name? = some name ↔ v = .scalar (.text name) := by
  cases v with
  | scalar d => cases d <;> simp [name?]
  | _ => simp [name?]

theorem sameKey_text_iff {v : Value} {name : String} :
    v.sameKey (.scalar (.text name)) = true ↔ v = .scalar (.text name) := by
  cases v with
  | scalar d => simp [sameKey, Datum.sameKey_text_iff]
  | _ => simp [sameKey]

end Value

/-- The names among the keys of some entries. -/
def names (es : List (Value × Value)) : List String := es.filterMap fun e => e.1.name?

theorem names_cons (e : Value × Value) (es : List (Value × Value)) :
    names (e :: es) = e.1.name?.toList ++ names es := by
  cases h : e.1.name? <;> simp [names, h]

/-- An entry takes the place of one with the same key, or comes last. -/
theorem names_putEntry (key value : Value) (es : List (Value × Value)) :
    names (Value.putEntry key value es) = names es ∨
      (∀ name ∈ key.name?, name ∉ names es) ∧
        names (Value.putEntry key value es) = names es ++ key.name?.toList := by
  induction es with
  | nil =>
    refine .inr ⟨by simp [names], ?_⟩
    cases h : key.name? <;> simp [Value.putEntry, names, h]
  | cons e es ih =>
    obtain ⟨k, v⟩ := e
    rw [Value.putEntry]
    split
    · exact .inl rfl
    · rename_i hk
      rcases ih with h | ⟨hnew, h⟩
      · exact .inl (by rw [names_cons, names_cons, h])
      · refine .inr ⟨fun name hname hmem => ?_, by rw [names_cons, names_cons, h, List.append_assoc]⟩
        rw [names_cons, List.mem_append] at hmem
        rcases hmem with hmem | hmem
        · have hkey := Value.name?_eq_some_iff.1 (Option.mem_def.1 hname)
          have hsame := Value.name?_eq_some_iff.1 (Option.mem_toList.1 hmem)
          exact hk (by rw [hkey]; exact Value.sameKey_text_iff.2 hsame)
        · exact hnew name hname hmem

theorem nodup_names_putEntry {key value : Value} {es : List (Value × Value)}
    (h : (names es).Nodup) : (names (Value.putEntry key value es)).Nodup := by
  rcases names_putEntry key value es with heq | ⟨hnew, heq⟩
  · rwa [heq]
  · rw [heq, List.nodup_append]
    refine ⟨h, by cases key.name? <;> simp, fun a ha b hb hab => ?_⟩
    exact hnew b (Option.mem_toList.1 hb) (hab ▸ ha)

/-- A mapping has each name once among its keys. -/
def Collection.NamesOnce : Collection → Prop
  | mapping es => (names es).Nodup
  | _ => True

/-- All mappings that are filled have each name once. -/
def Builder.NamesOnce (b : Builder) : Prop := ∀ e ∈ b.filled, e.2.NamesOnce

namespace Build

variable {α β : Type} {p : α → Prop} {q : β → Prop} {b : Builder}

/-- A step keeps names apart, and its value has a property. -/
def Ensures (m : Build α) (b : Builder) (p : α → Prop) : Prop :=
  ∀ a b', m b = .ok (a, b') → b'.NamesOnce ∧ p a

theorem Ensures.bind {m : Build β} {f : β → Build α} (hm : Ensures m b q)
    (hf : ∀ x b', b'.NamesOnce → q x → Ensures (f x) b' p) : Ensures (m >>= f) b p := by
  intro a b' h
  cases hr : m b with
  | error d =>
    simp only [Bind.bind, StateT.bind, hr, Except.bind] at h
    cases h
  | ok r =>
    obtain ⟨x, b₁⟩ := r
    simp only [Bind.bind, StateT.bind, hr, Except.bind] at h
    obtain ⟨hb, hx⟩ := hm x b₁ hr
    exact hf x b₁ hb hx a b' h

theorem ensures_pure {a : α} (hb : b.NamesOnce) (h : p a) : Ensures (pure a) b p := by
  intro a' b' heq
  cases heq
  exact ⟨hb, h⟩

theorem ensures_get {f : Builder → Build α} (h : Ensures (f b) b p) :
    Ensures (get >>= f) b p := h

theorem ensures_set (c : Builder) (h : c.NamesOnce) :
    Ensures (set c : Build Unit) b fun _ => True := by
  intro a b' heq
  cases heq
  exact ⟨h, trivial⟩

theorem ensures_lift {r : Result α} (hb : b.NamesOnce) :
    Ensures (liftM r : Build α) b fun _ => True := by
  intro a b' h
  cases r with
  | error d => cases h
  | ok x =>
    cases h
    exact ⟨hb, trivial⟩

theorem ensures_throw {d : Defect} : Ensures (throw d : Build α) b p := by
  intro a b' h
  cases h

/-- What each step keeps, a fold keeps. -/
theorem ensures_foldlM {f : α → β → Build α} (hf : ∀ a x b, b.NamesOnce → p a → Ensures (f a x) b p)
    {a : α} (ha : p a) (hb : b.NamesOnce) (xs : List β) : Ensures (xs.foldlM f a) b p := by
  induction xs generalizing a b with
  | nil => exact ensures_pure hb ha
  | cons x xs ih =>
    rw [List.foldlM_cons]
    exact (hf a x b hb ha).bind fun a' b' hb' ha' => ih ha' hb'

theorem ensures_mapM {f : β → Build α} (hf : ∀ x b, b.NamesOnce → Ensures (f x) b fun _ => True)
    (hb : b.NamesOnce) (xs : List β) : Ensures (xs.mapM f) b fun _ => True := by
  induction xs generalizing b with
  | nil => exact ensures_pure hb trivial
  | cons x xs ih =>
    rw [List.mapM_cons]
    exact (hf x b hb).bind fun a b' hb' _ => (ih hb').bind fun _ b'' hb'' _ =>
      ensures_pure hb'' trivial

end Build

namespace Builder

open Build

variable {b : Builder}

theorem ensures_value (hb : b.NamesOnce) (id : ℕ) : Ensures (value id) b fun _ => True := by
  refine ensures_get ?_
  split
  · exact ensures_lift hb
  · have hbegin : Ensures (do
        if !b.begun.contains id then
          set { b with begun := id :: b.begun, waiting := id :: b.waiting }
        return .collection id : Build Value) b fun _ => True := by
      dsimp only
      split
      · exact (ensures_set { b with begun := id :: b.begun, waiting := id :: b.waiting } hb).bind
          fun _ _ hb _ => ensures_pure hb trivial
      · exact ensures_pure hb trivial
    split
    case h_6 => exact ensures_throw
    all_goals exact hbegin

theorem ensures_pair (hb : b.NamesOnce) (id : ℕ) : Ensures (pair id) b fun _ => True := by
  refine ensures_get ((ensures_lift hb).bind fun es b hb _ => ?_)
  split
  · exact (ensures_value hb _).bind fun _ b hb _ => (ensures_value hb _).bind fun _ b hb _ =>
      ensures_pure hb trivial
  · exact ensures_throw

theorem ensures_put (hb : b.NamesOnce) {es : List (Value × Value)} (hes : (names es).Nodup)
    (e : ℕ × ℕ) : Ensures (put es e) b fun es => (names es).Nodup := by
  refine (ensures_value hb e.1).bind fun key b hb _ => ?_
  dsimp only
  split
  · exact Ensures.bind (q := fun _ => False) ensures_throw fun _ _ _ h => h.elim
  · exact (ensures_value hb e.2).bind fun _ _ hb _ => ensures_pure hb (nodup_names_putEntry hes)

/-- The entries of a mapping have each name once. -/
theorem ensures_entries (hb : b.NamesOnce) (id : ℕ) :
    Ensures (entries id) b fun es => (names es).Nodup := by
  refine ensures_get ((ensures_lift hb).bind fun _ _ hb' _ => ?_)
  refine (ensures_lift hb').bind fun g _ _ _ => (ensures_set { b with graph := g } hb).bind ?_
  refine fun _ b hb _ => ensures_get ((ensures_lift hb).bind fun es b hb _ => ?_)
  have hnil : (names []).Nodup := List.nodup_nil
  exact ensures_foldlM (fun _ e _ hb hes => ensures_put hb hes e) hnil hb es

theorem ensures_fill (hb : b.NamesOnce) (id : ℕ) : Ensures (fill id) b fun _ => True := by
  have hfill {c : Collection} {b : Builder} (hb : b.NamesOnce) (hc : c.NamesOnce) :
      Ensures (modify fun b => { b with filled := (id, c) :: b.filled }) b fun _ => True := by
    intro a b' h
    cases h
    exact ⟨List.forall_mem_cons.2 ⟨hc, hb⟩, trivial⟩
  refine ensures_get ?_
  dsimp only
  split
  · exact (ensures_lift hb).bind fun _ b hb _ =>
      (ensures_mapM (fun id _ hb => ensures_value hb id) hb _).bind fun _ _ hb _ => hfill hb trivial
  · exact (ensures_entries hb id).bind fun _ _ hb hes => hfill hb hes
  · exact (ensures_entries hb id).bind fun _ _ hb _ => hfill hb trivial
  · exact (ensures_lift hb).bind fun _ b hb _ =>
      (ensures_mapM (fun id _ hb => ensures_pair hb id) hb _).bind fun _ _ hb _ => hfill hb trivial

theorem ensures_rounds (hb : b.NamesOnce) (fuel : ℕ) : Ensures (rounds fuel) b fun _ => True := by
  have hround {b : Builder} (hb : b.NamesOnce) (ids : List ℕ) :
      Ensures (ids.forM fill) b fun _ => True := by
    induction ids generalizing b with
    | nil => exact ensures_pure hb trivial
    | cons id ids ih => exact (ensures_fill hb id).bind fun _ _ hb _ => ih hb
  induction fuel generalizing b with
  | zero => exact ensures_pure hb trivial
  | succ fuel ih =>
    refine ensures_get ((ensures_set { b with waiting := [] } hb).bind fun _ b hb _ => ?_)
    exact (hround hb _).bind fun _ _ hb _ => ih hb

end Builder

/-- All mappings of a document have each name once among their keys. -/
def Document.NamesOnce (doc : Document) : Prop := ∀ e ∈ doc.collections, e.2.NamesOnce

theorem Builder.ensures_document {b : Builder} (hb : b.NamesOnce) (root : ℕ) :
    Build.Ensures (document root) b Document.NamesOnce :=
  (ensures_value hb root).bind fun _ _ hb _ => Build.ensures_get <|
    (ensures_rounds hb _).bind fun _ _ hb _ => Build.ensures_get <|
      Build.ensures_pure hb fun e he => hb e (List.mem_reverse.1 he)

/-- In a document that is read from a text every mapping has each name once. -/
theorem Document.namesOnce_ofText {text : String} {doc : Document} (h : ofText text = .ok doc) :
    doc.NamesOnce := by
  unfold ofText at h
  cases hg : Graph.ofText text.toList with
  | error d =>
    rw [hg] at h
    cases h
  | ok r =>
    obtain ⟨graph, root⟩ := r
    rw [hg] at h
    cases root with
    | none =>
      cases h
      simp [NamesOnce]
    | some root =>
      have hstart : Builder.NamesOnce { graph } := by simp [Builder.NamesOnce]
      cases hr : (Builder.document root).run { graph } with
      | error d =>
        simp only [Bind.bind, Except.bind, hr] at h
        cases h
      | ok r =>
        simp only [Bind.bind, Except.bind, hr] at h
        cases h
        exact (Builder.ensures_document hstart root r.1 r.2 hr).2

end Yaml
end Reckoner
