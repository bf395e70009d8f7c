import Reckoner.Proofs.Session.Step

/-!
# What a step does to a session

All that a step can do, said once, and from it the contexts of the session after the step and the
numbers of its targets.
-/
namespace Reckoner

namespace Session

variable (E : Elementary) (settings : Settings) (files : Files)

/-- All that a step can do to a session: it adds a context under a name or under a new evaluator,
lets an evaluator share a context, enters what it registers, keeps a tree, or fails and does
nothing. -/
inductive Effect (s : Session) : Step → Session → Prop
  | creates {id source c} : (Step.context id source).creates files = some c →
    Effect s (.context id source)
      { s with contexts := s.contexts ++ [c], named := s.named.put id s.contexts.length }
  | opens {id maxDepth full reading} : Effect s (.evaluator id none maxDepth full)
      { s with
        contexts := s.contexts ++ [.standard]
        evaluators := s.evaluators.put id ⟨s.contexts.length, reading⟩ }
  | shares {id c maxDepth full n reading} : find c s.named = .ok n →
    Effect s (.evaluator id (some c) maxDepth full)
      { s with evaluators := s.evaluators.put id ⟨n, reading⟩ }
  | registers {t r n} : t.registration? = some r → s.place r.target = .ok n →
    Effect s t (s.replace n ((s.contextAt n).enter r.name r.entry))
  | reads {t trees} : t.reads = true → Effect s t { s with trees }
  | fails {t} : t.creates files = none → (∀ target, t.binds files s target = none) →
    (∀ r ∈ t.registration?, s.number? r.target = none) → Effect s t s

variable {E settings files} {s : Session} {t : Step}

theorem step_fst_of_ok {r : Session × Answer} (h : (s.act E settings files t).outcome = .ok r) :
    (s.step E settings files t).1 = r.1 := by
  simp only [step, h]

theorem step_fst_of_error {e : Failure} (h : (s.act E settings files t).outcome = .error e) :
    (s.step E settings files t).1 = s := by
  simp only [step, h]

theorem step_snd_outcome :
    (s.step E settings files t).2.outcome = (s.act E settings files t).outcome.map Prod.snd := by
  simp only [step]
  split <;> rename_i h <;> rw [h] <;> rfl

theorem act_constant (target : Target) (name : String) (value : Datum) :
    (s.act E settings files (.constant target name value)).outcome =
      (s.place target).bind fun n =>
        ((s.contextAt n).registerConstant name value).map fun c => (s.replace n c, .done) := by
  simp only [act, Act.bind_outcome, Act.ofExcept, Calculator.registerConstant_outcome]
  cases s.place target with
  | error e => rfl
  | ok n =>
    dsimp only [Except.bind]
    cases (s.contextAt n).registerConstant name value <;> rfl

theorem act_function (target : Target) (name : String) (f : Except Datum Callable) :
    (s.act E settings files (.function target name f)).outcome =
      (s.place target).bind fun n =>
        ((s.contextAt n).registerFunction name f).map fun c => (s.replace n c, .done) := by
  simp only [act, Act.bind_outcome, Act.ofExcept, Calculator.registerFunction_outcome]
  cases s.place target with
  | error e => rfl
  | ok n =>
    dsimp only [Except.bind]
    cases (s.contextAt n).registerFunction name f <;> rfl

/-- What can be registered is entered in the context of the target. -/
theorem act_of_registration? {r : Registration} (h : t.registration? = some r) :
    (s.act E settings files t).outcome = (s.place r.target).map fun n =>
      (s.replace n ((s.contextAt n).enter r.name r.entry), .done) := by
  cases t with
  | constant target name value =>
    simp only [Step.registration?] at h
    split at h
    · rename_i hname
      cases hx : value.toFloat with
      | error e =>
        rw [hx] at h
        cases h
      | ok x =>
        rw [hx] at h
        cases h
        have hc (c : Context) : c.registerConstant name value = .ok (c.enter name (.constant x)) :=
          Context.registerConstant_eq_ok_iff.2 ⟨hname, x, hx, rfl⟩
        rw [act_constant]
        simp only [hc]
        cases s.place target <;> rfl
    · cases h
  | function target name f =>
    simp only [Step.registration?] at h
    split at h
    · rename_i hname
      cases f with
      | error d => cases h
      | ok g =>
        cases h
        have hc (c : Context) : c.registerFunction name (.ok g) =
            .ok (c.enter name (.function g)) :=
          Context.registerFunction_eq_ok_iff.2 ⟨hname, g, rfl, rfl⟩
        rw [act_function]
        simp only [hc]
        cases s.place target <;> rfl
    · cases h
  | _ => cases h

/-- A registration that is accepted can be made. -/
theorem registration?_ne_none {r : Session × Answer} (ht : t.enters = true)
    (h : (s.act E settings files t).outcome = .ok r) : t.registration? ≠ none := by
  cases t with
  | constant target name value =>
    rw [act_constant] at h
    cases hn : s.place target with
    | error e =>
      rw [hn] at h
      cases h
    | ok n =>
      rw [hn] at h
      cases hc : (s.contextAt n).registerConstant name value with
      | error e =>
        simp only [Except.bind, hc] at h
        cases h
      | ok c =>
        obtain ⟨hname, x, hx, -⟩ := Context.registerConstant_eq_ok_iff.1 hc
        simp [Step.registration?, hname, hx, Except.toOption]
  | function target name f =>
    rw [act_function] at h
    cases hn : s.place target with
    | error e =>
      rw [hn] at h
      cases h
    | ok n =>
      rw [hn] at h
      cases hc : (s.contextAt n).registerFunction name f with
      | error e =>
        simp only [Except.bind, hc] at h
        cases h
      | ok c =>
        obtain ⟨hname, g, rfl, -⟩ := Context.registerFunction_eq_ok_iff.1 hc
        simp [Step.registration?, hname, Except.toOption]
  | _ => cases ht

/-- A registration is accepted if and only if it can be made and its target is known. -/
theorem accepts_iff (ht : t.enters = true) :
    (∃ r, (s.act E settings files t).outcome = .ok r) ↔
      ∃ r i, t.registration? = some r ∧ s.number? r.target = some i := by
  constructor
  · rintro ⟨x, hx⟩
    obtain ⟨r, hr⟩ := Option.ne_none_iff_exists'.1 (registration?_ne_none ht hx)
    rw [act_of_registration? hr] at hx
    cases hn : s.place r.target with
    | error e =>
      rw [hn] at hx
      cases hx
    | ok n => exact ⟨r, n, hr, number?_eq_some_iff.2 hn⟩
  · rintro ⟨r, i, hr, hi⟩
    rw [act_of_registration? hr, number?_eq_some_iff.1 hi]
    exact ⟨_, rfl⟩

open Act in
theorem yields_reads (h : t.reads = true) :
    (s.act E settings files t).Yields fun r => ∃ trees, r.1 = { s with trees } := by
  cases t with
  | lookup target name => exact yields_bind fun c _ => yields_pure ⟨s.trees, rfl⟩
  | describe target => exact yields_bind fun c _ => yields_pure ⟨s.trees, rfl⟩
  | evaluate id text =>
    exact yields_bind fun v _ => yields_bind fun x _ => yields_pure ⟨s.trees, rfl⟩
  | tryEvaluate id text =>
    exact yields_bind fun v _ => yields_bind fun o _ => yields_pure ⟨s.trees, rfl⟩
  | parse id text maxDepth full =>
    exact yields_bind fun _ _ => yields_bind fun tree _ => yields_pure ⟨s.trees.put id tree, rfl⟩
  | evaluateTree id context bindings =>
    refine yields_bind fun tree _ => ?_
    dsimp only
    split <;> exact yields_bind fun c _ => yields_bind fun x _ => yields_pure ⟨s.trees, rfl⟩
  | context id source => cases h
  | evaluator id shared maxDepth full => cases h
  | constant target name value => cases h
  | function target name f => cases h

theorem effect_enters (ht : t.enters = true) :
    Effect files s t (s.step E settings files t).1 := by
  cases h : (s.act E settings files t).outcome with
  | ok x =>
    obtain ⟨r, n, hr, hn⟩ := (accepts_iff ht).1 ⟨x, h⟩
    rw [number?_eq_some_iff] at hn
    rw [step_fst_of_ok h]
    rw [act_of_registration? hr, hn] at h
    cases h
    exact .registers hr hn
  | error e =>
    obtain ⟨hcreates, hbinds⟩ := Step.nothing_else_of_enters files s ht
    rw [step_fst_of_error h]
    refine .fails hcreates hbinds fun r hr => Option.eq_none_iff_forall_ne_some.2 fun i hi => ?_
    rw [act_of_registration? hr, number?_eq_some_iff.1 hi] at h
    cases h

theorem effect_reads (ht : t.reads = true) : Effect files s t (s.step E settings files t).1 := by
  cases h : (s.act E settings files t).outcome with
  | ok x =>
    obtain ⟨trees, hx⟩ := yields_reads ht x h
    rw [step_fst_of_ok h, hx]
    exact .reads ht
  | error e =>
    have hsame : Effect files s t { s with trees := s.trees } := .reads ht
    rwa [step_fst_of_error h]

/-- A step does nothing but what it can do. -/
theorem effect_step : Effect files s t (s.step E settings files t).1 := by
  cases t with
  | context id source =>
    cases source with
    | standard => exact .creates rfl
    | empty name => exact .creates rfl
    | file path =>
      cases hc : (Context.ofFile .whole path (files.read path)).outcome with
      | ok c =>
        have h : (s.act E settings files (.context id (.file path))).outcome = .ok
            ({ s with
                contexts := s.contexts ++ [c]
                named := s.named.put id s.contexts.length }, .context c) := by
          simp only [act, ContextSource.create, Act.bind_outcome, hc]
          rfl
        rw [step_fst_of_ok h]
        exact .creates (by simp [Step.creates, hc, Except.toOption])
      | error e =>
        have h : (s.act E settings files (.context id (.file path))).outcome = .error e := by
          simp only [act, ContextSource.create, Act.bind_outcome, hc]
          rfl
        rw [step_fst_of_error h]
        refine .fails (by simp [Step.creates, hc, Except.toOption]) ?_ fun r hr => by cases hr
        rintro (id' | id')
        · simp [Step.binds, Step.creates, hc, Except.toOption]
        · rfl
  | evaluator id shared maxDepth full =>
    cases shared with
    | none => exact .opens
    | some c =>
      cases hn : find c s.named with
      | ok n =>
        have h : (s.act E settings files (.evaluator id (some c) maxDepth full)).outcome = .ok
            ({ s with evaluators := s.evaluators.put id ⟨n, settings.reading maxDepth full⟩ },
              .reading (settings.reading maxDepth full)) := by
          simp only [act, Act.bind_outcome, Act.ofExcept, hn]
          rfl
        rw [step_fst_of_ok h]
        exact .shares hn
      | error e =>
        have h : (s.act E settings files (.evaluator id (some c) maxDepth full)).outcome =
            .error e := by
          simp only [act, Act.bind_outcome, Act.ofExcept, hn]
          rfl
        rw [step_fst_of_error h]
        refine .fails rfl ?_ fun r hr => by cases hr
        rintro (id' | id')
        · rfl
        · simp [Step.binds, number?, place, hn, Except.toOption]
  | constant target name value => exact effect_enters rfl
  | function target name f => exact effect_enters rfl
  | lookup | describe | evaluate | tryEvaluate | parse | evaluateTree => exact effect_reads rfl

/-! ## Numbers and contexts after a step -/

theorem number?_context (id : String) : s.number? (.context id) = s.named.get? id := by
  simp only [number?, place, find]
  cases s.named.get? id <;> rfl

theorem number?_evaluator (id : String) :
    s.number? (.evaluator id) = (s.evaluators.get? id).map Seat.context := by
  simp only [number?, place, find]
  cases s.evaluators.get? id <;> rfl

theorem Effect.number?_eq {s' : Session} (h : Effect files s t s') (target : Target) :
    s'.number? target = (t.binds files s target).or (s.number? target) := by
  cases h with
  | @creates id source c hc =>
    cases target with
    | context id' =>
      simp only [number?_context, Table.get?_put, Step.binds, hc]
      split <;> rfl
    | evaluator id' => rfl
  | @opens id =>
    cases target with
    | context id' => rfl
    | evaluator id' =>
      simp only [number?_evaluator, Table.get?_put, Step.binds]
      split <;> rfl
  | @shares id c _ _ n _ hn =>
    have hc : s.number? (.context c) = some n := number?_eq_some_iff.2 hn
    cases target with
    | context id' => rfl
    | evaluator id' =>
      simp only [number?_evaluator, Table.get?_put, Step.binds, Option.elim_some, hc]
      split <;> rfl
  | @registers _ r n hr hn =>
    rw [(Step.nothing_else_of_enters files s (Step.enters_of_registration? hr)).2]
    rfl
  | @reads _ trees ht =>
    rw [(Step.nothing_of_reads files s ht).2.2]
    rfl
  | fails _ hb _ =>
    rw [hb target]
    rfl

/-- A step that registers nothing leaves all contexts as they are. -/
theorem mapIdx_updates_eq (h : ∀ r ∈ t.registration?, s.number? r.target = none) :
    s.contexts.mapIdx (fun i c => t.updates s i c) = s.contexts := by
  have hsame (i : Nat) (c : Context) : t.updates s i c = c :=
    Step.updates_eq fun r hr hi => by simp [h r hr] at hi
  refine List.ext_getElem? fun i => ?_
  simp only [List.getElem?_mapIdx, hsame, Option.map_id']

theorem Effect.contexts_eq {s' : Session} (h : Effect files s t s') :
    s'.contexts = s.contexts.mapIdx (fun i c => t.updates s i c) ++ (t.creates files).toList := by
  cases h with
  | creates hc =>
    rw [mapIdx_updates_eq (fun r hr => by cases hr), hc]
    rfl
  | opens =>
    rw [mapIdx_updates_eq (fun r hr => by cases hr)]
    rfl
  | shares _ =>
    rw [mapIdx_updates_eq (fun r hr => by cases hr)]
    exact (List.append_nil _).symm
  | @registers _ r n hr hn =>
    have hnumber : s.number? r.target = some n := number?_eq_some_iff.2 hn
    rw [(Step.nothing_else_of_enters files s (Step.enters_of_registration? hr)).1]
    refine List.ext_getElem? fun i => ?_
    simp only [replace, Option.toList_none, List.append_nil, List.getElem?_mapIdx, Step.updates, hr,
      Option.elim_some, hnumber, Option.some.injEq, contextAt, List.getElem?_set]
    by_cases hi : n = i
    · subst hi
      cases hcontext : s.contexts[n]? with
      | none => simp [List.getElem?_eq_none_iff.1 hcontext]
      | some c =>
        have hlt := (List.getElem?_eq_some_iff.1 hcontext).1
        simp [hlt]
    · simp [hi]
  | reads ht =>
    obtain ⟨hcreates, hregistration, -⟩ := Step.nothing_of_reads files s ht
    rw [mapIdx_updates_eq (by simp [hregistration]), hcreates]
    exact (List.append_nil _).symm
  | fails hc _ hr =>
    rw [mapIdx_updates_eq hr, hc]
    exact (List.append_nil _).symm

theorem Effect.length_eq {s' : Session} (h : Effect files s t s') :
    s'.contexts.length = s.contexts.length + (t.creates files).toList.length := by
  rw [h.contexts_eq, List.length_append, List.length_mapIdx]

end Session

end Reckoner
