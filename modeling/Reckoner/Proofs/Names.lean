import Reckoner.Proofs.Contexts
import Reckoner.Proofs.Grammar.Cut
import Reckoner.Proofs.Grammar.Trace
import Reckoner.Proofs.Reading

/-!
# What a value depends on

The names of a tree stand for constants or for functions, and the same spelling may do both. The
value of a tree depends on what its names stand for, each in its own role, and on nothing else. In
one pass over a text this holds of failures with their positions too: productions that differ in
other names make the same calls at the same places.
-/
namespace Reckoner

namespace Expr

/-- The names that stand for constants. -/
def constantNames : Expr → List String
  | number _ => []
  | constant name => [name]
  | unary _ a | call _ a => constantNames a
  | binary a _ d => constantNames a ++ constantNames d

/-- The names that stand for functions. -/
def functionNames : Expr → List String
  | number _ | constant _ => []
  | unary _ a => functionNames a
  | binary a _ d => functionNames a ++ functionNames d
  | call name a => name :: functionNames a

/-- That all names of `s` are names of `t` in the same role. -/
structure NamesWithin (s t : Expr) : Prop where
  constants : s.constantNames ⊆ t.constantNames
  functions : s.functionNames ⊆ t.functionNames

namespace NamesWithin

variable {s t u : Expr}

theorem refl (t : Expr) : t.NamesWithin t := ⟨fun _ h => h, fun _ h => h⟩

theorem trans (h : s.NamesWithin t) (h' : t.NamesWithin u) : s.NamesWithin u :=
  ⟨List.Subset.trans h.constants h'.constants, List.Subset.trans h.functions h'.functions⟩

theorem operand (op : String) (a : Expr) : a.NamesWithin (.unary op a) :=
  ⟨fun _ h => h, fun _ h => h⟩

theorem left (a : Expr) (op : String) (d : Expr) : a.NamesWithin (.binary a op d) :=
  ⟨List.subset_append_left _ _, List.subset_append_left _ _⟩

theorem right (a : Expr) (op : String) (d : Expr) : d.NamesWithin (.binary a op d) :=
  ⟨List.subset_append_right _ _, List.subset_append_right _ _⟩

theorem argument (name : String) (a : Expr) : a.NamesWithin (.call name a) :=
  ⟨fun _ h => h, List.subset_cons_self _ _⟩

end NamesWithin

/-- The value of a tree depends on what its names stand for. -/
theorem value_congr {E : Elementary} {c c' : Context} {b b' : Bindings} {t : Expr}
    (hc : ∀ name ∈ t.constantNames, constantValue c b name = constantValue c' b' name)
    (hf : ∀ name ∈ t.functionNames, c.function? name = c'.function? name) :
    t.value E c b = t.value E c' b' := by
  induction t with
  | number x => rfl
  | constant name => exact hc name List.mem_cons_self
  | unary op a ih => simp only [value, ih hc hf]
  | binary a op d iha ihd =>
    have ha := iha (fun name h => hc name (List.mem_append_left _ h))
      fun name h => hf name (List.mem_append_left _ h)
    have hd := ihd (fun name h => hc name (List.mem_append_right _ h))
      fun name h => hf name (List.mem_append_right _ h)
    simp only [value, ha, hd]
  | call name a ih =>
    have ha := ih hc fun name h => hf name (List.mem_cons_of_mem _ h)
    simp only [value, ha, hf name List.mem_cons_self]

end Expr

/-- Productions that do the same with the names of a tree, and with all that is no name. -/
structure Productions.AgreeOn {α : Type} (P P' : Productions α) (t : Expr) : Prop where
  number : P.number = P'.number
  constant : ∀ name ∈ t.constantNames, P.constant name = P'.constant name
  call : ∀ name ∈ t.functionNames, P.call name = P'.call name
  unary : P.unary = P'.unary
  binary : P.binary = P'.binary

theorem Productions.AgreeOn.mono {α : Type} {P P' : Productions α} {s t : Expr}
    (h : P.AgreeOn P' t) (hs : s.NamesWithin t) : P.AgreeOn P' s where
  number := h.number
  constant name hname := h.constant name (hs.constants hname)
  call name hname := h.call name (hs.functions hname)
  unary := h.unary
  binary := h.binary

theorem Productions.AgreeOn.reporting {α : Type} {P P' : Productions α} {t : Expr}
    (h : P.AgreeOn P' t) (limit : Int) : (P.reporting limit).AgreeOn (P'.reporting limit) t where
  number := h.number
  constant := h.constant
  call name hname := by simp only [Productions.reporting, h.call name hname]
  unary := h.unary
  binary := h.binary

namespace Grammar

variable {α β : Type} {P P' : Productions α} {n : Nesting}

/-- What is before the rest of a chain is a part of its tree. -/
theorem Parses.namesWithin {l : Chain} {left a : Expr} {c d : Cursor} {k : Depth}
    (h : Parses Expr.productions n (.tail l left c k) a d) : left.NamesWithin a := by
  generalize hq : Call.tail l left c k = q at h
  induction h generalizing left c with
  | last _ =>
    cases hq
    exact .refl _
  | more _ _ hb _ _ ih =>
    cases hq
    cases hb
    exact (Expr.NamesWithin.left _ _ _).trans (ih rfl)
  | _ => cases hq

/-- What is computed from a text and its tree end at the same place. -/
theorem Parses.cursor_eq {q : Call α} {a : α} {t u : Expr} {d e : Cursor}
    (h : Parses P n q a d) (ht : Parses Expr.productions .unlimited (q.building u) t e) :
    d = e := by
  obtain ⟨v, hv⟩ := h.exists_tree u
  cases hv.run.symm.trans ht.run
  rfl

/-- A call that a limit lets through returns the same without one. -/
theorem Parses.unlimited {q : Call α} {a : α} {d : Cursor} (h : Parses P n q a d) :
    Parses P .unlimited q a d := by
  have hcurbed : Curbed P n q := curbed q
  rw [Curbed, h.run, Nesting.curb] at hcurbed
  split at hcurbed
  · cases hcurbed
  · exact run_eq_ok_iff.1 hcurbed.symm

/-- After a call that goes alike, what follows has to be compared at one place only. -/
theorem bind_run_congr {q : Call α} {t u : Expr} {d : Cursor} (hrun : q.run P n = q.run P' n)
    (ht : Parses Expr.productions .unlimited (q.building u) t d)
    {f g : α × Cursor → Except Failure β} (h : ∀ a, f (a, d) = g (a, d)) :
    (q.run P n).bind f = (q.run P' n).bind g :=
  bind_run_eq hrun fun a e hp => by
    obtain rfl : e = d := hp.cursor_eq ht
    exact h a

/-- Productions that agree on a tree do the same wherever that tree is built, under any limit. -/
theorem Parses.run_congr {q : Call α} {t u : Expr} {d : Cursor}
    (h : Parses Expr.productions .unlimited (q.building u) t d) (hP : P.AgreeOn P' t)
    (n : Nesting) : q.run P n = q.run P' n := by
  generalize hq : q.building u = q₀ at h
  induction h generalizing q u with
  | @chain l c k left d a e hl ha ih₁ ih₂ =>
    cases q <;> cases hq
    have hbuilding := building_operand (α := α) u l c k
    have hleft := ih₁ (hP.mono ha.namesWithin) hbuilding
    rw [Call.run_chain P, Call.run_chain P']
    exact bind_run_congr hleft (hbuilding ▸ hl) fun x => ih₂ (q := .tail l x d k) hP rfl
  | last h =>
    cases q <;> cases hq
    rw [Call.run_tail P, Call.run_tail P', h]
  | @more l left c k op right d result a e h hr hb ha ih₁ ih₂ =>
    cases q <;> cases hq
    cases hb
    have hbuilding := building_operand (α := α) left l (c.skipBlanks.drop 1) k
    have hright := ih₁ (hP.mono ((Expr.NamesWithin.right ..).trans ha.namesWithin)) hbuilding
    rw [Call.run_tail P, Call.run_tail P', h]
    refine bind_run_congr hright (hbuilding ▸ hr) fun y => ?_
    rw [hP.binary]
    cases P'.binary op _ y with
    | error e => rfl
    | ok z => exact ih₂ (q := .tail l z d k) hP rfl
  | @sign c k s operand d a h _ ho hu ih =>
    cases q <;> cases hq
    cases hu
    obtain ⟨ch, hp, hs⟩ := Option.bind_eq_some_iff.1 h
    have hoperand := ih (q := .factor (c.skipBlanks.drop 1) k.inFactor) (u := u)
      (hP.mono (.operand ..)) rfl
    rw [Call.run_factor P, Call.run_factor P']
    simp only [hp, hs, hP.unary]
    exact congrArg (ite _ _) (bind_run_congr (u := u) hoperand ho fun x => rfl)
  | @base c k ch a d e hp hs _ hb ha ih =>
    cases q <;> cases hq
    have hbase := ih (q := .primary c.skipBlanks k.inFactor) (u := u) hP rfl
    rw [Call.run_factor P, Call.run_factor P']
    simp only [hp, hs]
    exact congrArg (ite _ _) (bind_run_congr (u := u) hbase hb fun x => by simp only [ha])
  | @power c k ch base d e exponent f a hp hs _ hb ha he hop ih₁ ih₂ =>
    cases q <;> cases hq
    cases hop
    have hbase := ih₁ (q := .primary c.skipBlanks k.inFactor) (u := u)
      (hP.mono (.left ..)) rfl
    have hexponent := ih₂ (q := .factor e k.inFactor) (u := u) (hP.mono (.right ..)) rfl
    rw [Call.run_factor P, Call.run_factor P']
    simp only [hp, hs]
    exact congrArg (ite _ _) (bind_run_congr (u := u) hbase hb fun x => by
      simp only [ha, hexponent, hP.binary])
  | @group c k a d e hp hi ha ih =>
    cases q <;> cases hq
    have hinside := ih (q := .expression (c.drop 1) k.inGroup) (u := u) hP rfl
    rw [Call.run_primary P, Call.run_primary P', if_pos hp, if_pos hp]
    exact bind_run_congr (u := u) hinside hi fun x => rfl
  | @constant c k name d e a hi ha hc =>
    cases q <;> cases hq
    cases hc
    have hp := peek?_ne_group_of_scanIdentifier hi
    rw [Call.run_primary P, Call.run_primary P', if_neg hp, if_neg hp]
    simp only [hi, ha, hP.constant name List.mem_cons_self]
  | @call c k name d e argument f g a hi ha harg hb hc ih =>
    cases q <;> cases hq
    cases hc
    have hp := peek?_ne_group_of_scanIdentifier hi
    have hargument := ih (q := .expression e k.inGroup) (u := u) (hP.mono (.argument ..)) rfl
    rw [Call.run_primary P, Call.run_primary P', if_neg hp, if_neg hp]
    simp only [hi, ha]
    exact bind_run_congr (u := u) hargument harg fun x => by
      simp only [hb, hP.call name List.mem_cons_self]
  | @number c k x d hi hs =>
    cases q <;> cases hq
    have hp := peek?_ne_group_of_scanNumber hs
    rw [Call.run_primary P, Call.run_primary P', if_neg hp, if_neg hp]
    simp only [hi, hs, hP.number]

end Grammar

/-- Contexts that agree on the names of a tree. -/
theorem Context.agreeOn_productions (E : Elementary) {c c' : Context} {t : Expr}
    (hc : ∀ name ∈ t.constantNames, c.constant? name = c'.constant? name)
    (hf : ∀ name ∈ t.functionNames, c.function? name = c'.function? name) :
    (c.productions E).AgreeOn (c'.productions E) t where
  number := rfl
  constant name hname := by simp only [productions, hc name hname]
  call name hname := by simp only [productions, hf name hname]
  unary := rfl
  binary := rfl

namespace Reading

open Grammar

variable {r : Reading} {text : String} {t : Expr}

/-- A text with a tree is read alike by productions that agree on the tree, in whatever way. -/
theorem run_congr {α : Type} {P P' : Productions α} (h : r.parse text = .ok t)
    (hP : P.AgreeOn P' t) (r' : Reading) : r'.run P text = r'.run P' text := by
  obtain ⟨d, hp, -⟩ := run_eq_ok_iff.1 h
  have htree : Parses Expr.productions .unlimited ((call text : Call α).building t) t d :=
    hp.unlimited
  rw [run_eq, run_eq, htree.run_congr (hP.reporting _)]

/-- The value of a text, or its failure with the position, depends on what a context has for the
names of its tree in their own role. So a constant does not matter where its name is only called,
and a function does not where its name is not. -/
theorem evaluate_depends_on_names (E : Elementary) (h : r.parse text = .ok t) (r' : Reading)
    (c : Context) :
    (∀ c', (∀ name ∈ t.constantNames, c.constant? name = c'.constant? name) →
      (∀ name ∈ t.functionNames, c.function? name = c'.function? name) →
      r'.evaluate E c text = r'.evaluate E c' text) ∧
    (∀ c' name value, name ∉ t.constantNames → c.registerConstant name value = .ok c' →
      r'.evaluate E c text = r'.evaluate E c' text) ∧
    ∀ c' name f, name ∉ t.functionNames → c.registerFunction name f = .ok c' →
      r'.evaluate E c text = r'.evaluate E c' text := by
  have hagree : ∀ c', (∀ name ∈ t.constantNames, c.constant? name = c'.constant? name) →
      (∀ name ∈ t.functionNames, c.function? name = c'.function? name) →
      r'.evaluate E c text = r'.evaluate E c' text :=
    fun c' hc hf => run_congr h (Context.agreeOn_productions E hc hf) r'
  refine ⟨hagree, fun c' name value hname hc => ?_, fun c' name f hname hc => ?_⟩
  · obtain ⟨-, x, -, rfl⟩ := Context.registerConstant_eq_ok_iff.1 hc
    refine hagree _ (fun other hother => ?_) fun _ _ => rfl
    have hne : name ≠ other := fun heq => hname (heq ▸ hother)
    rw [Context.constant?, Context.constant?, Table.get?_put, if_neg hne]
  · obtain ⟨-, g, -, rfl⟩ := Context.registerFunction_eq_ok_iff.1 hc
    refine hagree _ (fun _ _ => rfl) fun other hother => ?_
    have hne : name ≠ other := fun heq => hname (heq ▸ hother)
    rw [Context.function?, Context.function?, Table.get?_put, if_neg hne]

/-- Where the name of a constant is called the constant does not matter, also with a blank before
the parenthesis. -/
theorem evaluate_depends_on_names_call :
    (⟨.unlimited, true⟩ : Reading).parse "e (0)" = .ok (.call "e" (.number 0.0)) ∧
      ∃ c, Context.standard.registerConstant "e" (.float 0.0) = .ok c ∧
        (⟨.unlimited, true⟩ : Reading).evaluate .native .standard "e (0)" =
          (⟨.unlimited, true⟩ : Reading).evaluate .native c "e (0)" := by
  have hzero : Parses Expr.productions .unlimited (.expression ⟨3, ['0', ')']⟩ ⟨1, 1⟩)
      (.number 0.0) ⟨4, [')']⟩ :=
    .chain (.chain (.base rfl rfl rfl (.number rfl rfl) rfl) (.last rfl)) (.last rfl)
  have hcall : Parses Expr.productions .unlimited (call "e (0)") (.call "e" (.number 0.0))
      ⟨5, []⟩ :=
    .chain (.chain (.base rfl rfl rfl (.call rfl rfl hzero rfl rfl) rfl) (.last rfl)) (.last rfl)
  have h : (⟨.unlimited, true⟩ : Reading).parse "e (0)" = .ok (.call "e" (.number 0.0)) :=
    run_eq_ok_iff.2 ⟨_, hcall, fun _ => rfl⟩
  have hname : "e" ∉ (Expr.call "e" (.number 0.0)).constantNames := List.not_mem_nil
  exact ⟨h, _, rfl, (evaluate_depends_on_names .native h _ .standard).2.1 _ _ (.float 0.0) hname rfl⟩

end Reading
end Reckoner
