import Reckoner.Calculator

/-!
# Emissions

What is shown of the emissions of an action on the output and on the error stream. Many actions emit
nothing but records of less weight than warnings, and so nothing of them is shown on either.
-/
namespace Reckoner

namespace Emission

variable {α : Type} (text : String) (r : Log.Record) (es : List Emission)

@[simp] theorem outputs_nil : outputs [] = "" := rfl

@[simp] theorem outputs_output : outputs (.output text :: es) = text ++ outputs es := by
  simp [outputs, output?]

@[simp] theorem outputs_complaint : outputs (.complaint text :: es) = outputs es := rfl

@[simp] theorem outputs_record : outputs (.record r :: es) = outputs es := rfl

@[simp] theorem complaints_nil : complaints [] = "" := rfl

@[simp] theorem complaints_output : complaints (.output text :: es) = complaints es := rfl

@[simp] theorem complaints_complaint :
    complaints (.complaint text :: es) = text ++ complaints es := by
  simp [complaints, complaint?]

@[simp] theorem complaints_record : complaints (.record r :: es) = complaints es := rfl

@[simp] theorem outputs_append (es fs : List Emission) :
    outputs (es ++ fs) = outputs es ++ outputs fs := by
  simp [outputs]

@[simp] theorem complaints_append (es fs : List Emission) :
    complaints (es ++ fs) = complaints es ++ complaints fs := by
  simp [complaints]

theorem outputs_flatMap (f : α → List Emission) (as : List α) :
    outputs (as.flatMap f) = String.join (as.map fun a => outputs (f a)) := by
  induction as with
  | nil => rfl
  | cons a as ih => simp [ih]

theorem complaints_flatMap (f : α → List Emission) (as : List α) :
    complaints (as.flatMap f) = String.join (as.map fun a => complaints (f a)) := by
  induction as with
  | nil => rfl
  | cons a as ih => simp [ih]

/-- A record of less weight than a warning. -/
def IsMinor : Emission → Prop
  | record r => r.level.rank < Log.Level.warning.rank
  | output _ | complaint _ => False

/-- What takes nothing from minor records takes nothing from a list of them. -/
theorem filterMap_of_isMinor {f : Emission → Option α} {es : List Emission}
    (hf : ∀ r, (record r).IsMinor → f (record r) = none) (h : ∀ x ∈ es, x.IsMinor) :
    es.filterMap f = [] := by
  refine List.filterMap_eq_nil_iff.2 fun x hx => ?_
  have hminor := h x hx
  cases x with
  | record r => exact hf r hminor
  | output _ | complaint _ => exact hminor.elim

theorem outputs_of_isMinor {es : List Emission} (h : ∀ x ∈ es, x.IsMinor) : outputs es = "" := by
  rw [outputs, filterMap_of_isMinor (fun _ _ => rfl) h]
  rfl

theorem complaints_of_isMinor {es : List Emission} (h : ∀ x ∈ es, x.IsMinor) :
    complaints es = "" := by
  rw [complaints, filterMap_of_isMinor (fun _ _ => rfl) h]
  rfl

end Emission

namespace Act

variable {α β : Type}

theorem bind_of_ok {m : Act β} {f : β → Act α} {b : β} (h : m.outcome = .ok b) :
    m >>= f = ⟨m.emitted ++ (f b).emitted, (f b).outcome⟩ := by
  obtain ⟨es, outcome⟩ := m
  cases h
  rfl

/-- All that an action emits is records of less weight than warnings. -/
def IsQuiet (m : Act α) : Prop := ∀ x ∈ m.emitted, x.IsMinor

theorem isQuiet_ofExcept (r : Except Failure α) : (ofExcept r).IsQuiet := fun _ h => by cases h

theorem isQuiet_pure (a : α) : (pure a : Act α).IsQuiet := fun _ h => by cases h

theorem isQuiet_log {r : Log.Record} (h : r.level = .debug ∨ r.level = .info) :
    (log r).IsQuiet := by
  refine List.forall_mem_singleton.2 ?_
  rcases h with h | h <;> simp [Emission.IsMinor, h, Log.Level.rank]

theorem isQuiet_bind {m : Act β} {f : β → Act α} (hm : m.IsQuiet)
    (hf : ∀ b, m.outcome = .ok b → (f b).IsQuiet) : (m >>= f).IsQuiet := by
  obtain ⟨es, outcome⟩ := m
  cases outcome with
  | error e => exact hm
  | ok b => exact List.forall_mem_append.2 ⟨hm, hf b rfl⟩

theorem isQuiet_foldlM {f : α → β → Act α} (hf : ∀ a b, (f a b).IsQuiet) (a : α) (bs : List β) :
    (bs.foldlM f a).IsQuiet := by
  induction bs generalizing a with
  | nil => exact isQuiet_pure a
  | cons b bs ih =>
    rw [List.foldlM_cons]
    exact isQuiet_bind (hf a b) fun a' _ => ih a'

end Act

namespace Calculator

open Act

theorem isQuiet_registerFunction (c : Context) (name : String) (f : Except Datum Callable) :
    (registerFunction c name f).IsQuiet :=
  isQuiet_bind (isQuiet_ofExcept _) fun _ _ =>
    isQuiet_bind (isQuiet_log (.inl rfl)) fun _ _ => isQuiet_pure _

theorem isQuiet_registerConstant (c : Context) (name : String) (value : Datum) :
    (registerConstant c name value).IsQuiet :=
  isQuiet_bind (isQuiet_ofExcept _) fun _ _ =>
    isQuiet_bind (isQuiet_log (.inl rfl)) fun _ _ => isQuiet_pure _

theorem isQuiet_standardContext : standardContext.IsQuiet := by
  have hrecords {α : Type} (as : List α) (r : α → Log.Record) (h : ∀ a, (r a).level = .debug) :
      (emit (as.map fun a => .record (r a))).IsQuiet := by
    refine List.forall_mem_map.2 fun a _ => ?_
    simp [Emission.IsMinor, h a, Log.Level.rank]
  exact isQuiet_bind (hrecords _ _ fun _ => rfl) fun _ _ =>
    isQuiet_bind (hrecords _ _ fun _ => rfl) fun _ _ => isQuiet_pure _

/-- What an evaluation emits is for the records. -/
theorem Evaluator.isQuiet_tryEvaluate (E : Elementary) (v : Evaluator) (text : String) :
    (v.tryEvaluate E text).IsQuiet := by
  have hrecord (x : Except Failure Float) : ∀ r ∈ evaluationRecord text x,
      r.level = .debug := by
    intro r hr
    cases x with
    | ok x =>
      cases hr
      rfl
    | error e =>
      simp only [evaluationRecord] at hr
      split at hr
      · cases hr
        rfl
      · cases hr
  refine Act.isQuiet_bind (List.forall_mem_map.2 fun r hr => ?_) fun result _ => ?_
  · simp [Emission.IsMinor, hrecord _ r (Option.mem_toList.1 hr), Log.Level.rank]
  · cases result with
    | ok x => exact Act.isQuiet_pure _
    | error e =>
      dsimp only
      split
      · exact Act.isQuiet_pure _
      · exact Act.isQuiet_ofExcept _

end Calculator
end Reckoner
