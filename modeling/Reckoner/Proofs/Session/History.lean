import Mathlib.Data.List.Induction
import Reckoner.Proofs.Session.Effect

/-!
# Histories of sessions

What the tables of a context hold after any steps of a session is what was last registered in it,
and else what it was created with. The invariant that a step keeps is that the history of the
session says which contexts there are, what has become of each, and for which one each target
stands.
-/
namespace Reckoner

namespace Session

variable {E : Elementary} {settings : Settings} {files : Files} {s : Session} {t : Step}

/-- Targets stand for contexts that there are. -/
def Proper (s : Session) : Prop :=
  ∀ {target i}, s.number? target = some i → i < s.contexts.length

theorem Proper.binds_lt (hs : s.Proper) {target : Target} {i : Nat}
    (h : t.binds files s target = some i) :
    i < s.contexts.length + (t.creates files).toList.length := by
  unfold Step.binds at h
  split at h
  · split at h
    · obtain ⟨c, hc, rfl⟩ := Option.map_eq_some_iff.1 h
      simp [hc]
    · cases h
  · rename_i id shared _ _ id'
    split at h
    · cases shared with
      | none =>
        cases h
        exact Nat.lt_succ_self _
      | some c => exact hs h
    · cases h
  · cases h

theorem Effect.proper {s' : Session} (h : Effect files s t s') (hs : s.Proper) : s'.Proper := by
  intro target i hi
  rw [h.length_eq]
  rw [h.number?_eq, Option.or_eq_some_iff] at hi
  obtain hb | ⟨-, hi⟩ := hi
  · exact hs.binds_lt hb
  · exact (hs hi).trans_le (Nat.le_add_right _ _)

/-- A step leaves contexts alone that are not there yet. -/
theorem Proper.updates_eq (hs : s.Proper) {i : Nat} (hi : s.contexts.length ≤ i) (c : Context) :
    t.updates s i c = c :=
  Step.updates_eq fun _ _ hnumber => absurd (hs hnumber) (Nat.not_lt.2 hi)

/-- What has been done: the steps, each with the session before it. -/
abbrev History := List (Session × Step)

namespace History

/-- The last thing of one kind that a step did. -/
def latest {β : Type} (h : History) (f : Session → Step → Option β) : Option β :=
  (h.filterMap fun e => f e.1 e.2).getLast?

/-- The contexts as they were created, in order. -/
def created (files : Files) (h : History) : List Context := h.filterMap fun e => e.2.creates files

/-- What has become of the context with a number. -/
def updated (h : History) (i : Nat) (c : Context) : Context :=
  h.foldl (fun c e => e.2.updates e.1 i c) c

theorem latest_concat {β : Type} (h : History) (f : Session → Step → Option β) :
    latest (h ++ [(s, t)]) f = (f s t).or (h.latest f) := by
  cases hf : f s t <;> simp [latest, hf]

theorem created_concat (h : History) :
    created files (h ++ [(s, t)]) = h.created files ++ (t.creates files).toList := by
  cases ht : t.creates files <;> simp [created, ht]

theorem updated_concat (h : History) (i : Nat) (c : Context) :
    updated (h ++ [(s, t)]) i c = t.updates s i (h.updated i c) := by
  simp [updated]

/-- A lookup finds what was registered last, and else what was there in the beginning. -/
theorem look_updated {β : Type} {look : Context → String → Option β} {kind : Entry → Option β}
    (hl : Looks look kind) (h : History) (i : Nat) (c : Context) (name : String) :
    look (h.updated i c) name =
      (h.latest fun s t => t.sets kind s i name).or (look c name) := by
  induction h using List.reverseRecOn with
  | nil => rfl
  | append_singleton h e ih =>
    rw [updated_concat, Step.look_updates hl, ih, latest_concat, Option.or_assoc]

theorem updated_eq {h : History} {i : Nat}
    (hp : ∀ e ∈ h, e.1.Proper ∧ e.1.contexts.length ≤ i) (c : Context) : h.updated i c = c := by
  induction h using List.reverseRecOn with
  | nil => rfl
  | append_singleton h e ih =>
    obtain ⟨hproper, hle⟩ := hp e (by simp)
    rw [updated_concat, hproper.updates_eq hle, ih fun e' he' => hp e' (by simp [he'])]

end History

/-- What a history says of the session that it leads to. -/
structure Records (files : Files) (h : History) (s : Session) : Prop where
  proper : s.Proper
  before : ∀ e ∈ h, e.1.Proper ∧ e.1.contexts.length ≤ s.contexts.length
  numbers : ∀ target, s.number? target = h.latest fun s t => t.binds files s target
  contexts : s.contexts = (h.created files).mapIdx h.updated
  keyed : ∀ c ∈ s.contexts, c.Keyed

theorem records_start : Records files [] {} where
  proper {target _} h := by
    cases target <;> cases h
  before _ h := by cases h
  numbers target := by cases target <;> rfl
  contexts := rfl
  keyed _ h := by cases h

/-- Every step so far was made when no more contexts were there than now. -/
theorem Records.before_concat {h : History} (hr : Records files h s) {e : Session × Step}
    (he : e ∈ h ++ [(s, t)]) : e.1.Proper ∧ e.1.contexts.length ≤ s.contexts.length := by
  rcases List.mem_append.1 he with he | he
  · exact hr.before e he
  · obtain rfl := List.mem_singleton.1 he
    exact ⟨hr.proper, Nat.le_refl _⟩

/-- One step goes on with the records. -/
theorem Effect.records {h : History} {s' : Session} (he : Effect files s t s')
    (hr : Records files h s) : Records files (h ++ [(s, t)]) s' where
  proper := he.proper hr.proper
  before e hmem := by
    obtain ⟨hproper, hle⟩ := hr.before_concat hmem
    rw [he.length_eq]
    exact ⟨hproper, hle.trans (Nat.le_add_right _ _)⟩
  numbers target := by rw [he.number?_eq, History.latest_concat, hr.numbers]
  contexts := by
    have hlength : (h.created files).length = s.contexts.length := by
      rw [hr.contexts, List.length_mapIdx]
    -- A new context has a number that no step before has registered anything for.
    have hnew (i : Nat) (c : Context) :
        History.updated (h ++ [(s, t)]) (i + (h.created files).length) c = c := by
      refine History.updated_eq (fun e hmem => ?_) c
      obtain ⟨hproper, hle⟩ := hr.before_concat hmem
      exact ⟨hproper, by omega⟩
    rw [he.contexts_eq, History.created_concat, List.mapIdx_append]
    congr 1
    · rw [hr.contexts, List.mapIdx_mapIdx]
      refine congrArg (fun f => (h.created files).mapIdx f) ?_
      funext i c
      exact (History.updated_concat h i c).symm
    · cases t.creates files with
      | none => rfl
      | some c => simpa using (hnew 0 c).symm
  keyed c hc := by
    rw [he.contexts_eq] at hc
    rcases List.mem_append.1 hc with hc | hc
    · obtain ⟨i, hi, rfl⟩ := List.mem_mapIdx.1 hc
      exact Step.keyed_updates (hr.keyed _ (List.getElem_mem hi))
    · exact Step.keyed_of_creates (Option.mem_toList.1 hc)

variable (E settings files)

/-- The session after some steps. -/
def run (s : Session) (ts : List Step) : Session :=
  ts.foldl (fun s t => (s.step E settings files t).1) s

def history (s : Session) : List Step → History
  | [] => []
  | t :: ts => (s, t) :: history (s.step E settings files t).1 ts

variable {E settings files}

theorem run_concat (ts : List Step) :
    s.run E settings files (ts ++ [t]) =
      ((s.run E settings files ts).step E settings files t).1 := by
  simp [run]

theorem history_concat (ts : List Step) :
    s.history E settings files (ts ++ [t]) =
      s.history E settings files ts ++ [(s.run E settings files ts, t)] := by
  induction ts generalizing s with
  | nil => rfl
  | cons u ts ih => simp [history, run, ih]

/-- A history leads to what it says. -/
theorem records_run (ts : List Step) :
    Records files (history E settings files {} ts) (run E settings files {} ts) := by
  induction ts using List.reverseRecOn with
  | nil => exact records_start
  | append_singleton ts t ih =>
    rw [history_concat, run_concat]
    exact effect_step.records ih

/-! ## What sessions show -/

variable (E settings files)

/-- What a session shows of its contexts after what has been done. -/
structure Shows (h : History) (s : Session) : Prop where
  /-- A target stands for the context that it was given last. -/
  numbers : ∀ target, s.number? target = h.latest fun s t => t.binds files s target
  /-- Under a name there is what was registered last in the context, through whatever target, and
  else what the context was created with. -/
  lookup : ∀ target i, s.number? target = some i → ∃ c, (h.created files)[i]? = some c ∧
    ∀ name, (s.step E settings files (.lookup target name)).2.outcome = .ok (.entries
      ((h.latest fun s t => t.sets Entry.constant? s i name).or (c.constant? name))
      ((h.latest fun s t => t.sets Entry.function? s i name).or (c.function? name)))
  /-- A registration is accepted if its target is known, its name an identifier and its value a
  number or a function, and otherwise it fails. -/
  accepts : ∀ t, t.enters = true →
    ((∃ a, (s.step E settings files t).2.outcome = .ok a) ↔
      ∃ r i, t.registration? = some r ∧ s.number? r.target = some i)
  /-- What fails changes nothing. -/
  failed : ∀ t e, (s.step E settings files t).2.outcome = .error e →
    (s.step E settings files t).1 = s
  /-- Evaluations, parses, lookups and descriptions change no context. -/
  reads : ∀ t, t.reads = true → (s.step E settings files t).1.contexts = s.contexts
  /-- A registration changes no context but the one that it is made through. -/
  frame : ∀ t i, i < s.contexts.length →
    (∀ r ∈ t.registration?, s.number? r.target ≠ some i) →
    (s.step E settings files t).1.contexts[i]? = s.contexts[i]?
  /-- All names in tables are identifiers. -/
  identifiers : ∀ c ∈ s.contexts, ∀ name, name ∈ c.functions.keys ∨ name ∈ c.constants.keys →
    isIdentifier name = true
  /-- A description lists the names with an entry in ascending order, and the constants with their
  values. -/
  describe : ∀ target i, s.number? target = some i → ∃ c, s.contexts[i]? = some c ∧
    (s.step E settings files (.describe target)).2.outcome = .ok (.context c) ∧
    c.functionNames.Pairwise (· < ·) ∧
    (∀ name, name ∈ c.functionNames ↔ c.function? name ≠ none) ∧
    c.constants.sorted.keys.Pairwise (· < ·) ∧
    ∀ name x, (name, x) ∈ c.constants.sorted ↔ c.constant? name = some x

variable {E settings files}

/-- The context of a target that stands for one. -/
theorem Records.contextOf_eq {h : History} {target : Target} {i : Nat} (hr : Records files h s)
    (hi : s.number? target = some i) :
    ∃ c, s.contexts[i]? = some c ∧ s.contextOf target = .ok c := by
  have hlt := hr.proper hi
  refine ⟨s.contexts[i], List.getElem?_eq_getElem hlt, ?_⟩
  rw [contextOf, number?_eq_some_iff.1 hi]
  simp [Except.map, contextAt, List.getElem?_eq_getElem hlt]

theorem lookup_outcome {target : Target} {c : Context} (h : s.contextOf target = .ok c)
    (name : String) : (s.step E settings files (.lookup target name)).2.outcome =
      .ok (.entries (c.constant? name) (c.function? name)) := by
  rw [step_snd_outcome]
  simp only [act, Act.bind_outcome, Act.ofExcept, h]
  rfl

theorem describe_outcome {target : Target} {c : Context} (h : s.contextOf target = .ok c) :
    (s.step E settings files (.describe target)).2.outcome = .ok (.context c) := by
  rw [step_snd_outcome]
  simp only [act, Act.bind_outcome, Act.ofExcept, h]
  rfl

/-- A step that fails leaves the session as it was. -/
theorem step_fst_of_failed {e : Failure} (h : (s.step E settings files t).2.outcome = .error e) :
    (s.step E settings files t).1 = s := by
  rw [step_snd_outcome] at h
  cases ha : (s.act E settings files t).outcome with
  | ok r =>
    rw [ha] at h
    cases h
  | error e => exact step_fst_of_error ha

theorem contexts_of_reads (h : t.reads = true) :
    (s.step E settings files t).1.contexts = s.contexts := by
  obtain ⟨hcreates, hregistration, -⟩ := Step.nothing_of_reads files s h
  rw [effect_step.contexts_eq, hcreates, mapIdx_updates_eq (by simp [hregistration])]
  exact List.append_nil _

/-- A registration does not touch a context that it is not made through. -/
theorem getElem?_contexts_of_ne {i : Nat} (hi : i < s.contexts.length)
    (h : ∀ r ∈ t.registration?, s.number? r.target ≠ some i) :
    (s.step E settings files t).1.contexts[i]? = s.contexts[i]? := by
  rw [effect_step.contexts_eq, List.getElem?_append_left (by simpa using hi), List.getElem?_mapIdx]
  cases s.contexts[i]? with
  | none => rfl
  | some c => exact congrArg some (Step.updates_eq h)

/-- Over a whole session the tables of contexts hold what was put in last, nothing else changes
them, and what they hold is what is shown. -/
theorem shows_run (E : Elementary) (settings : Settings) (files : Files) (ts : List Step) :
    Shows E settings files (history E settings files {} ts) (run E settings files {} ts) where
  numbers := (records_run ts).numbers
  lookup target i hi := by
    obtain ⟨c, hc, hof⟩ := (records_run ts).contextOf_eq hi
    rw [(records_run ts).contexts, List.getElem?_mapIdx] at hc
    obtain ⟨c₀, hc₀, rfl⟩ := Option.map_eq_some_iff.1 hc
    refine ⟨c₀, hc₀, fun name => ?_⟩
    rw [lookup_outcome hof, History.look_updated looks_constant,
      History.look_updated looks_function]
  accepts t ht := by
    rw [← accepts_iff ht, step_snd_outcome]
    cases (act E settings files _ t).outcome <;> simp [Except.map]
  failed _ _ h := step_fst_of_failed h
  reads _ h := contexts_of_reads h
  frame _ _ hi h := getElem?_contexts_of_ne hi h
  identifiers c hc name hname := by
    have hkeyed := (records_run ts).keyed c hc
    rcases hname with hname | hname
    · exact hkeyed.functions.identifiers name hname
    · exact hkeyed.constants.identifiers name hname
  describe target i hi := by
    obtain ⟨c, hc, hof⟩ := (records_run ts).contextOf_eq hi
    have hkeyed := (records_run ts).keyed c (List.mem_of_getElem? hc)
    refine ⟨c, hc, describe_outcome hof, Table.sorted_keys_pairwise hkeyed.functions.nodup,
      fun name => Table.mem_sorted_keys.trans Table.get?_ne_none_iff.symm,
      Table.sorted_keys_pairwise hkeyed.constants.nodup, fun name x => ?_⟩
    exact Table.mem_sorted.trans (Table.mem_iff_get?_eq_some hkeyed.constants.nodup)

end Session

end Reckoner
