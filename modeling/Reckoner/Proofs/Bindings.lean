import Reckoner.Proofs.Names
import Reckoner.Proofs.OnePass
import Reckoner.Proofs.Outcomes
import Reckoner.Proofs.Session.History

/-!
# Bindings

Bindings of a tree do what registered constants do. Names with doubles that are registered one after
the other, in any order, hide the constants of a context just as bindings hide them, and leave its
functions as they are. So a tree has the value under bindings that its text has after they have been
registered.
-/
namespace Reckoner

/-- Doubles under names. -/
def Bindings.ofFloats (b : Table Float) : Bindings := b.map fun e => (e.1, .float e.2)

theorem Bindings.get?_ofFloats (b : Table Float) (name : String) :
    (ofFloats b).get? name = (b.get? name).map Datum.float := by
  induction b with
  | nil => rfl
  | cons e b ih =>
    obtain ⟨key, x⟩ := e
    by_cases hk : key = name
    · simp [ofFloats, Table.get?, hk]
    · simpa [ofFloats, Table.get?, hk] using ih

namespace Context

/-- Registers doubles under names one after the other. -/
def registerConstants (c : Context) (entries : List (String × Float)) : Except Failure Context :=
  entries.foldlM (fun c e => c.registerConstant e.1 (.float e.2)) c

/-- Under identifiers doubles are put in one after the other. -/
theorem registerConstants_eq {entries : List (String × Float)}
    (h : ∀ e ∈ entries, isIdentifier e.1 = true) (c : Context) : c.registerConstants entries =
      .ok { c with constants := entries.foldl (fun t e => t.put e.1 (id e.2)) c.constants } := by
  induction entries generalizing c with
  | nil => rfl
  | cons e entries ih =>
    obtain ⟨hname, hrest⟩ := List.forall_mem_cons.1 h
    have hfirst : c.registerConstant e.1 (.float e.2) =
        .ok { c with constants := c.constants.put e.1 e.2 } :=
      registerConstant_eq_ok_iff.2 ⟨hname, e.2, rfl, rfl⟩
    rw [registerConstants, List.foldlM_cons, hfirst]
    exact ih hrest _

/-- Registered in any order, doubles are found before what there was. -/
theorem constant?_registerConstants {c c' : Context} {b : Table Float}
    {entries : List (String × Float)} (hb : b.Keyed) (hp : entries.Perm b)
    (h : c.registerConstants entries = .ok c') (name : String) :
    c'.constant? name = (b.get? name).or (c.constant? name) := by
  have hkeys : (entries.map Prod.fst).Perm b.keys := hp.map Prod.fst
  have hidentifiers : ∀ e ∈ entries, isIdentifier e.1 = true := fun e he =>
    hb.identifiers e.1 (hkeys.mem_iff.1 (List.mem_map_of_mem he))
  rw [registerConstants_eq hidentifiers] at h
  cases h
  cases hx : b.get? name with
  | some x =>
    have hmem : (name, x) ∈ entries := hp.mem_iff.2 (Table.mem_of_get? hx)
    exact Table.get?_foldl_put_of_mem id _ (hkeys.nodup_iff.2 hb.nodup) hmem
  | none =>
    have hmem : name ∉ entries.map Prod.fst := fun hmem =>
      Table.get?_ne_none_iff.2 (hkeys.mem_iff.1 hmem) hx
    exact Table.get?_foldl_put_of_not_mem id _ hmem

end Context

/-- Bindings count as constants that have been registered. -/
theorem Expr.value_ofFloats (E : Elementary) {c c' : Context} {b : Table Float}
    {entries : List (String × Float)} (hb : b.Keyed) (hp : entries.Perm b)
    (h : c.registerConstants entries = .ok c') (hf : c'.functions = c.functions) (t : Expr) :
    t.value E c (.ofFloats b) = t.value E c' [] := by
  refine value_congr (fun name _ => ?_) fun name _ => ?_
  · rw [constantValue, constantValue, Bindings.get?_ofFloats,
      Context.constant?_registerConstants hb hp h]
    cases b.get? name <;> rfl
  · rw [Context.function?, Context.function?, hf]

namespace Reading

open Grammar

/-- A tree has the value under bindings that its text has where they are registered as constants, in
whatever order, or the text reports its failure, with the position of an unknown name on top. Only
where a function of the host uses up the stack does the report differ from the failure. Evaluating
the tree changes no context. -/
theorem evaluate_registerConstants (E : Elementary) {r : Reading} {text : String} {t : Expr}
    (h : r.parse text = .ok t) (c : Context) {b : Table Float} (hb : b.Keyed) :
    (∀ entries : List (String × Float), entries.Perm b →
      ∃ c', c.registerConstants entries = .ok c' ∧
        (∀ v, t.value E c (.ofFloats b) = .ok v ↔ r.evaluate E c' text = .ok v) ∧
        (∀ e, t.value E c (.ofFloats b) = .error e → ∃ e₀ e', r.evaluate E c' text = .error e' ∧
          r.Reports c' text e₀ e' ∧ e₀.Locates e ∧
            e₀.report.unlocated = e.report.unlocated) ∧
        (c.KeepsStack → ∀ e, t.value E c (.ofFloats b) = .error e →
          ∃ e', r.evaluate E c' text = .error e' ∧
            e'.Locates e ∧ e'.report.unlocated = e.report.unlocated)) ∧
    ∀ settings files (s : Session) tree context,
      (s.step E settings files (.evaluateTree tree context (.ofFloats b))).1.contexts =
        s.contexts := by
  refine ⟨fun entries hp => ?_, fun settings files s tree context =>
    Session.contexts_of_reads rfl⟩
  have hidentifiers : ∀ e ∈ entries, isIdentifier e.1 = true := fun e he =>
    hb.identifiers e.1 (List.mem_map_of_mem (hp.mem_iff.1 he))
  obtain ⟨c', hc, hf⟩ : ∃ c', c.registerConstants entries = .ok c' ∧ c'.functions = c.functions :=
    ⟨_, Context.registerConstants_eq hidentifiers c, rfl⟩
  have hvalue : t.value E c (.ofFloats b) = t.value E c' [] := Expr.value_ofFloats E hb hp hc hf t
  refine ⟨c', hc, ?_⟩
  rw [hvalue]
  obtain ⟨v, hv, hrun⟩ | ⟨e, e₀, e', he, hl, hreports, hrun⟩ :=
    evaluate_of_parse (E := E) (c := c') h
  · simp [hv, hrun]
  · refine ⟨fun v => by simp [he, hrun], fun err herr => ?_, fun hstack err herr => ?_⟩
    · obtain rfl : e = err := by simpa [he] using herr
      exact ⟨e₀, e', hrun, hreports, hl, hl.report_eq⟩
    · obtain rfl : e = err := by simpa [he] using herr
      have hstack' : c'.KeepsStack := fun hname => hstack (by
        rwa [Context.function?, hf] at hname)
      obtain rfl := hreports.eq_of_keepsStack hstack'
      exact ⟨e', hrun, hl, hl.report_eq⟩

/-- A binding is no function: a name that is bound and called is unknown in the call. -/
theorem evaluate_registerConstants_call :
    (⟨.unlimited, true⟩ : Reading).parse "e(e)" = .ok (.call "e" (.constant "e")) ∧
      ∃ c, Context.standard.registerConstants [("e", 0.0)] = .ok c ∧ ∃ e',
        (⟨.unlimited, true⟩ : Reading).evaluate .native c "e(e)" = .error e' ∧
          e'.Locates (.unknownFunction "e" none) := by
  have hargument : Parses Expr.productions .unlimited (.expression ⟨2, ['e', ')']⟩ ⟨1, 1⟩)
      (.constant "e") ⟨3, [')']⟩ :=
    .chain (.chain (.base rfl rfl rfl (.constant rfl rfl rfl) rfl) (.last rfl)) (.last rfl)
  have hcall : Parses Expr.productions .unlimited (call "e(e)") (.call "e" (.constant "e"))
      ⟨4, []⟩ :=
    .chain (.chain (.base rfl rfl rfl (.call rfl rfl hargument rfl rfl) rfl) (.last rfl))
      (.last rfl)
  have h : (⟨.unlimited, true⟩ : Reading).parse "e(e)" = .ok (.call "e" (.constant "e")) :=
    run_eq_ok_iff.2 ⟨_, hcall, fun _ => rfl⟩
  have hb : Table.Keyed [("e", (0.0 : Float))] := ⟨by decide, by decide⟩
  obtain ⟨c, hc, -, -, hfailure⟩ :=
    (evaluate_registerConstants .native h .standard hb).1 _ (.refl _)
  have hstack : Context.standard.KeepsStack := Context.isLibrary_standard.keepsStack
  obtain ⟨e', he', hl, -⟩ := hfailure hstack (.unknownFunction "e" none) rfl
  exact ⟨h, c, hc, e', he', hl⟩

/-- A tree fails under a binding as the function that it calls. Read with the constant in the place
of the binding, the call is reported as a text that is too deep. -/
theorem evaluate_registerConstants_exhausted :
    (⟨⟨100, none⟩, true⟩ : Reading).parse "f(x)" = .ok (.call "f" (.constant "x")) ∧
      (Expr.call "f" (.constant "x")).value .native .exhausting (.ofFloats [("x", 0.0)]) =
        .error (.host .recursion "maximum recursion depth exceeded") ∧
      ∃ c, Context.exhausting.registerConstants [("x", 0.0)] = .ok c ∧
        (⟨⟨100, none⟩, true⟩ : Reading).evaluate .native c "f(x)" =
          .error (.nestingTooDeep 4 100) ∧
        (Failure.nestingTooDeep 4 100).kind ≠
          (Failure.host .recursion "maximum recursion depth exceeded").kind := by
  have hname {α : Type} {P : Productions α} {x : α} (hx : P.constant "x" 2 = .ok x) :
      Parses P ⟨100, none⟩ (.expression ⟨2, ['x', ')']⟩ ⟨1, 1⟩) x ⟨3, [')']⟩ :=
    .chain (.chain (.base rfl rfl rfl (.constant rfl rfl hx) rfl) (.last rfl)) (.last rfl)
  have htree : Parses Expr.productions ⟨100, none⟩ (call "f(x)") (.call "f" (.constant "x"))
      ⟨4, []⟩ :=
    .chain (.chain (.base rfl rfl rfl (.call rfl rfl (hname rfl) rfl rfl) rfl) (.last rfl))
      (.last rfl)
  refine ⟨run_eq_ok_iff.2 ⟨_, htree, fun _ => rfl⟩, rfl, _, rfl, ?_, by decide⟩
  refine run_eq_error_iff.2 (.inl (.within .first (.within .first ?_)))
  exact .within (.base rfl rfl rfl) (.here (.call (g := ⟨4, []⟩) rfl rfl (hname rfl) rfl rfl))

end Reading
end Reckoner
