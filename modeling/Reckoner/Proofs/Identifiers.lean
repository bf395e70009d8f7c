import Reckoner.Proofs.Acceptance
import Reckoner.Proofs.Grammar.Placement
import Reckoner.Proofs.Names
import Reckoner.Proofs.OnePass

/-!
# Identifiers

The texts that are checked when a name is registered, the texts that are scanned as a name and the
texts that stand alone as a name are the same. So what is registered is found where its name is
written, and nothing is ever looked up under a name that cannot be registered.
-/
namespace Reckoner

/-- Productions that do the same, except perhaps with one name. -/
structure Productions.AgreeExcept {α : Type} (P P' : Productions α) (name : String) : Prop where
  number : P.number = P'.number
  constant : ∀ other ≠ name, P.constant other = P'.constant other
  call : ∀ other ≠ name, P.call other = P'.call other
  unary : P.unary = P'.unary
  binary : P.binary = P'.binary

theorem Productions.AgreeExcept.reporting {α : Type} {P P' : Productions α} {name : String}
    (h : P.AgreeExcept P' name) (limit : Int) :
    (P.reporting limit).AgreeExcept (P'.reporting limit) name where
  number := h.number
  constant := h.constant
  call other hother := by simp only [Productions.reporting, h.call other hother]
  unary := h.unary
  binary := h.binary

/-- Productions that lack a constant, and are the same otherwise. -/
def Productions.lacking {α : Type} (P : Productions α) (name : String) : Productions α :=
  { P with
    constant := fun other position =>
      if other = name then .error (.unknownIdentifier name none) else P.constant other position }

theorem Productions.agreeExcept_lacking {α : Type} (P : Productions α) (name : String) :
    P.AgreeExcept (P.lacking name) name where
  number := rfl
  constant other hother := by simp [lacking, hother]
  call _ _ := rfl
  unary := rfl
  binary := rfl

/-- No text looks a name up: whatever productions do with it makes no difference. -/
def Unread (name : String) : Prop :=
  ∀ {α : Type} (P P' : Productions α), P.AgreeExcept P' name →
    ∀ (r : Reading) (text : String), r.run P text = r.run P' text

namespace Nesting

/-- What a limit has to be for a call, to let the arguments through that this one lets through: the
call is a factor and opens a group. -/
def aroundCall (n : Nesting) : Nesting where
  guard := if n.guard = 0 then 0 else n.guard + 1
  room := n.room.map (· + 5)

example : unlimited.aroundCall = unlimited := rfl

variable {n : Nesting}

theorem refuses_aroundCall {k : Depth} (h : n.refuses k = false) :
    n.aroundCall.refuses k.inFactor.inGroup = false := by
  simp only [refuses, Bool.or_eq_false_iff, Bool.and_eq_false_iff, decide_eq_false_iff_not] at h ⊢
  obtain ⟨hguard, hroom⟩ := h
  constructor
  · simp only [aroundCall, Depth.inFactor, Depth.inGroup]
    split <;> omega
  · cases hr : n.room with
    | none => simp [aroundCall, hr]
    | some room =>
      have hle : k.factors + 4 * k.groups ≤ room := by simpa [hr, Depth.room] using hroom
      have hmore : k.factors + 1 + 4 * (k.groups + 1) ≤ room + 5 := by omega
      simpa [aroundCall, hr, Depth.room, Depth.inFactor, Depth.inGroup] using hmore

end Nesting

namespace Grammar

variable {α : Type} {P P' : Productions α} {n : Nesting} {name : String}

namespace Call

/-- That a call returns or fails alike with both productions. -/
def Alike (P P' : Productions α) (n : Nesting) (q : Call α) : Prop := q.run P n = q.run P' n

theorem alike_tail {l : Chain} {left : α} {c : Cursor} {k : Depth} (h : P.AgreeExcept P' name)
    (ih : ∀ q', Calls P n (.tail l left c k) q' → Alike P P' n q') :
    Alike P P' n (.tail l left c k) := by
  rw [Alike, run_tail P, run_tail P']
  cases hop : next? l.read c with
  | none => rfl
  | some op =>
    refine bind_run_eq (ih _ (.operand hop)) fun right d hp => ?_
    rw [← h.binary]
    cases hb : P.binary op left right with
    | error e => rfl
    | ok result => exact ih _ (.more hop hp hb)

theorem alike_factor {c : Cursor} {k : Depth} (h : P.AgreeExcept P' name)
    (ih : ∀ q', Calls P n (.factor c k) q' → Alike P P' n q') : Alike P P' n (.factor c k) := by
  rw [Alike, run_factor P, run_factor P']
  cases hp : c.skipBlanks.peek? with
  | none => rfl
  | some ch =>
    cases hn : n.refuses k.inFactor with
    | true => rfl
    | false =>
      simp only [Bool.false_eq_true, if_false]
      cases hs : Sign.ofChar? ch with
      | some s =>
        have hnext : next? Sign.ofChar? c = some s := by simp [next?, hp, hs]
        exact bind_run_eq (ih _ (.sign hnext hn)) fun x d _ => by rw [h.unary]
      | none =>
        refine bind_run_eq (ih _ (.base hp hs hn)) fun base d hb => ?_
        rcases hd : d.accept (some '^') with ⟨_ | _, e⟩
        · rfl
        · exact bind_run_eq (ih _ (.exponent hp hs hn hb hd)) fun y f _ => by rw [h.binary]

/-- Only identifiers are handed to the productions as names. -/
theorem alike_primary {c : Cursor} {k : Depth} (h : P.AgreeExcept P' name)
    (hname : isIdentifier name = false) (ih : ∀ q', Calls P n (.primary c k) q' → Alike P P' n q') :
    Alike P P' n (.primary c k) := by
  rw [Alike, run_primary P, run_primary P']
  split
  · rename_i hp
    exact bind_run_eq (ih _ (.group hp)) fun _ _ _ => rfl
  · cases hi : c.scanIdentifier with
    | none => simp only [h.number]
    | some r =>
      obtain ⟨other, d⟩ := r
      have hother : other ≠ name := by
        rintro rfl
        simp [(Cursor.scanIdentifier_some hi).1] at hname
      rcases hd : d.accept (some '(') with ⟨_ | _, e⟩
      · simp only [hd, h.constant other hother]
      · simp only [hd]
        exact bind_run_eq (ih _ (.argument hi hd)) fun x f _ => by
          simp only [h.call other hother]

/-- Where productions differ in a name that cannot be scanned, every call goes alike. -/
theorem alike (h : P.AgreeExcept P' name) (hname : isIdentifier name = false) (q : Call α) :
    Alike P P' n q := by
  induction q using (wellFounded_calls P n).induction with
  | _ q ih =>
    cases q with
    | chain l c k =>
      rw [Alike, run_chain P, run_chain P']
      exact bind_run_eq (ih _ .first) fun left d hp => ih _ (.tail hp)
    | tail l left c k => exact alike_tail h ih
    | factor c k => exact alike_factor h ih
    | primary c k => exact alike_primary h hname ih

end Call

/-- An argument in the parentheses of a call is one factor and one group further in. -/
theorem Phrase.Admitted.aroundCall {l : Level} {p : Phrase l} {k : Depth} (h : p.Admitted n k) :
    p.Admitted n.aroundCall k.inFactor.inGroup := by
  refine h.transfer (R := fun j k => j = k.inFactor.inGroup) ?_ ?_ ?_ rfl
  · rintro _ k rfl
    rfl
  · rintro _ k rfl
    rfl
  · rintro _ k rfl hk
    exact Nesting.refuses_aroundCall hk

/-- The names of a tree are identifiers. -/
theorem Phrase.isIdentifier_of_mem {l : Level} (p : Phrase l)
    (h : name ∈ p.tree.constantNames ∨ name ∈ p.tree.functionNames) :
    isIdentifier name = true := by
  induction p with
  | operand _ ih => exact ih h
  | join _ _ _ ih₁ ih₂ =>
    simp only [tree, Expr.constantNames, Expr.functionNames, List.mem_append] at h
    tauto
  | sign _ _ ih => exact ih h
  | base _ ih => exact ih h
  | power _ _ ih₁ ih₂ =>
    simp only [tree, Expr.constantNames, Expr.functionNames, List.mem_append] at h
    tauto
  | group _ ih => exact ih h
  | call f _ ih =>
    simp only [tree, Expr.constantNames, Expr.functionNames, List.mem_cons] at h
    rcases h with h | rfl | h
    · exact ih (.inl h)
    · exact f.2
    · exact ih (.inr h)
  | constant s =>
    obtain rfl : name = s := by simpa [tree, Expr.constantNames, Expr.functionNames] using h
    exact s.2
  | number l => simp [tree, Expr.constantNames, Expr.functionNames] at h

end Grammar

/-- A name that is no identifier is never looked up. -/
theorem unread_of_not_isIdentifier {name : String} (h : isIdentifier name = false) :
    Unread name := by
  intro α P P' hP r text
  have halike : (Reading.call text).run (P.reporting r.nesting.guard) r.nesting =
      (Reading.call text).run (P'.reporting r.nesting.guard) r.nesting :=
    Grammar.Call.alike (hP.reporting _) h _
  rw [Reading.run_eq, Reading.run_eq, halike]

namespace Reading

open Grammar

variable {α : Type} {r : Reading} {P : Productions α} {text : String}

/-- A text that is one primary comes to what the primary does. -/
theorem run_of_primary {x : Except Failure α} {d : Cursor} {ch : Char}
    (hn : r.nesting.refuses { factors := 1 } = false)
    (hp : (Cursor.ofText text 0).skipBlanks.peek? = some ch) (hs : Sign.ofChar? ch = none)
    (hx : (Call.primary (Cursor.ofText text 0).skipBlanks (Depth.inFactor {})).run
      (P.reporting r.nesting.guard) r.nesting = x.map (·, d))
    (hd : d.skipBlanks.rest = []) : r.run P text = x := by
  have hpeek : d.skipBlanks.peek? = none := by rw [Cursor.peek?, hd]; rfl
  have hnext (read : Char → Option BinaryOperator) : next? read d.skipBlanks = none := by
    rw [next?, Cursor.skipBlanks_skipBlanks, hpeek]
    rfl
  cases x with
  | ok a =>
    have hpower : d.accept (some '^') = (false, d.skipBlanks) :=
      Cursor.accept_of_ne (by simp [hpeek])
    have hbase : Parses P r.nesting (.factor (Cursor.ofText text 0) {}) a d.skipBlanks :=
      .base hp hs hn (parses_reporting_iff.1 (Grammar.run_eq_ok_iff.1 hx)) hpower
    have hwhole : Parses P r.nesting (call text) a _ :=
      .chain (.chain hbase (.last (hnext _))) (.last (by simpa using hnext _))
    exact run_eq_ok_iff.2 ⟨_, hwhole, fun _ => by simp [hd]⟩
  | error e =>
    have hfactor : Fails (P.reporting r.nesting.guard) r.nesting
        (.factor (Cursor.ofText text 0) {}) e :=
      .within (.base hp hs hn) (Grammar.run_eq_error_iff.1 hx)
    exact run_eq_error_iff.2 (.inl (.within .first (.within .first hfactor)))

/-- A text that is a name is a constant. -/
theorem run_name (hn : r.nesting.refuses { factors := 1 } = false) (P : Productions α)
    (name : Identifier) : ∃ position, r.run P name = P.constant name position := by
  have hrest : (Cursor.ofText name 0).skipBlanks.rest = name.1.toList ++ [] :=
    (opens_name name).skipBlanks .nil (by simp [Cursor.ofText, Token.chars])
  obtain ⟨ch, hp, hs⟩ := (opens_name name).exists_peek? hrest
  obtain ⟨d, hd, hend⟩ := Cursor.scanIdentifier_of_rest name.2 hrest (by simp [Stops])
  have hskip : d.skipBlanks.rest = [] := by rw [Cursor.skipBlanks_rest, hend]; rfl
  have hopen : d.accept (some '(') = (false, d.skipBlanks) :=
    Cursor.accept_of_ne (by simp [Cursor.peek?, hskip])
  refine ⟨(Cursor.ofText name 0).skipBlanks.position,
    run_of_primary hn hp hs (d := d.skipBlanks) ?_ (by simpa using hskip)⟩
  rw [Call.run_primary, if_neg (peek?_ne_group_of_scanIdentifier hd)]
  simp only [hd, hopen]
  rfl

/-- Where only blanks are left of a text that does not end in one, nothing is left. -/
theorem position_eq_length {d : Cursor} {cs : List Char} {ch : Char}
    (h : (Cursor.ofText text 0).Ahead d) (hrest : d.skipBlanks.rest = [])
    (htext : text.toList = cs ++ [ch]) (hch : isBlank ch = false) : d.position = text.length := by
  obtain ⟨s, hs⟩ := h.exists_passes
  obtain ⟨bs, hb, hblanks⟩ := d.exists_blanks
  rw [hrest, List.append_nil] at hblanks
  rcases bs.eq_nil_or_concat with rfl | ⟨bs, b, rfl⟩
  · rw [← hs.length, ← String.length_toList, hs.toList, hblanks, List.append_nil]
  · obtain rfl : b = ch := by
      have hlast := hs.toList.symm.trans htext
      rw [hblanks, List.concat_eq_append, ← List.append_assoc] at hlast
      exact (List.append_inj' hlast rfl).2 |> List.singleton_inj.1
    have hblank : isBlank b = true := hb b (by simp)
    simp [hch] at hblank

/-- An argument that has a value has it in parentheses too. -/
theorem exists_parses_argument {E : Elementary} {c : Context} {n : Nesting} {argument : String}
    {x : Float} (h : (⟨n, true⟩ : Reading).evaluate E c argument = .ok x) {d : Cursor}
    (hd : d.rest = argument.toList ++ [')']) :
    ∃ e f : Cursor, Parses (c.productions E) n.aroundCall
        (.expression d (Depth.inFactor {}).inGroup) x e ∧
      e.accept (some ')') = (true, f) ∧ f.skipBlanks.rest = [] := by
  obtain ⟨t, ht, hx⟩ := exists_parse_of_evaluate h
  obtain ⟨p, hspells, rfl, hadmitted⟩ := parse_eq_ok_iff_phrase.1 ht
  have hgroup : Spells (p.tokens ++ [.symbol ')']) (argument.toList ++ [')']) :=
    hspells.append (.one .nil (.symbol ')'))
  obtain ⟨e, f, hparses, hclose, hend⟩ :=
    (complete p).closed (c := d) (r := []) hgroup (by simpa using hd) hadmitted.aroundCall
  obtain ⟨v, hv, hargument⟩ | ⟨_, hv, -⟩ := Follows.cases (E := E) (c := c) hparses.simulates
  · obtain rfl : v = x := by simpa [hv] using hx
    exact ⟨e, f, hargument, hclose, hend⟩
  · rw [hx] at hv
    cases hv

/-- A text that is a name and an argument in parentheses is a call. -/
theorem evaluate_call {E : Elementary} {c : Context} {n : Nesting} {argument : String} {x : Float}
    (h : (⟨n, true⟩ : Reading).evaluate E c argument = .ok x)
    (hn : n.refuses { factors := 1 } = false) (full : Bool) (name : Identifier)
    {bs : List Char} (hb : Blanks bs) :
    let text := name ++ String.ofList bs ++ "(" ++ argument ++ ")"
    ∃ start, (⟨n.aroundCall, full⟩ : Reading).evaluate E c text =
      ((c.productions E).call name x start text.length).mapError
        (·.reported text.length n.aroundCall.guard) := by
  intro text
  have htext : text.toList = name.1.toList ++ bs ++ ['('] ++ argument.toList ++ [')'] := by
    simp [text]
  have hrest : (Cursor.ofText text 0).skipBlanks.rest =
      name.1.toList ++ (bs ++ '(' :: (argument.toList ++ [')'])) :=
    (opens_name name).skipBlanks .nil (by simp [htext, Cursor.ofText, Token.chars])
  obtain ⟨ch, hp, hs⟩ := (opens_name name).exists_peek? hrest
  obtain ⟨d, e, hd, hopen, hinner⟩ := exists_accept_name hb hrest
  obtain ⟨f, g, hargument, hclose, hend⟩ := exists_parses_argument h hinner
  have hbehind : g.position = text.length := by
    have hahead := (Cursor.ahead_of_scanIdentifier hd).trans ((Cursor.ahead_of_accept hopen).trans
      (hargument.ahead.trans (Cursor.ahead_of_accept hclose)))
    exact position_eq_length ((Cursor.ahead_skipBlanks _).trans hahead) hend htext rfl
  have hcall : n.aroundCall.refuses { factors := 1 } = false :=
    Depth.refuses_mono ⟨Nat.le_succ _, Nat.zero_le _⟩ (Nesting.refuses_aroundCall hn)
  refine ⟨(Cursor.ofText text 0).skipBlanks.position,
    run_of_primary (r := ⟨n.aroundCall, full⟩) hcall hp hs (d := g) ?_ hend⟩
  rw [Call.run_primary, if_neg (peek?_ne_group_of_scanIdentifier hd)]
  simp only [hd, hopen, (parses_reporting_iff.2 hargument).run, Except.bind, hclose, hbehind]
  rfl

end Reading

/-- Names that can be registered, texts that are a constant alone, texts that can be scanned, and
the names in trees are the same. -/
theorem isIdentifier_tfae {n : Nesting} (hn : n.refuses { factors := 1 } = false) (name : String) :
    [isIdentifier name = true,
      (⟨n, true⟩ : Reading).parse name = .ok (.constant name),
      ∃ text position d, (Cursor.ofText text position).scanIdentifier = some (name, d),
      ∃ (r : Reading) (text : String) (t : Expr), r.parse text = .ok t ∧
        (name ∈ t.constantNames ∨ name ∈ t.functionNames)].TFAE := by
  tfae_have 1 → 2 := fun h => by
    obtain ⟨_, hrun⟩ := Reading.run_name (r := ⟨n, true⟩) hn Expr.productions ⟨name, h⟩
    exact hrun
  tfae_have 2 → 4 := fun h => ⟨_, _, _, h, .inl (List.mem_singleton_self name)⟩
  tfae_have 4 → 1 := by
    rintro ⟨r, text, t, h, hmem⟩
    obtain ⟨p, -, -, -, rfl, -⟩ := Reading.exists_phrase h
    exact p.isIdentifier_of_mem hmem
  tfae_have 1 → 3 := fun h => by
    obtain ⟨d, hd, -⟩ := Cursor.scanIdentifier_of_rest (c := .ofText name 0) (r := []) h
      (by simp [Cursor.ofText]) (by simp [Stops])
    exact ⟨name, 0, d, hd⟩
  tfae_have 3 → 1 := by
    rintro ⟨text, position, d, h⟩
    exact (Cursor.scanIdentifier_some h).1
  tfae_finish

/-- What cannot be registered is all that no text looks up. -/
theorem unread_iff {name : String} : Unread name ↔ isIdentifier name = false := by
  refine ⟨fun h => ?_, unread_of_not_isIdentifier⟩
  by_contra hname
  rw [Bool.not_eq_false] at hname
  have hrun := h _ _ (Expr.productions.agreeExcept_lacking name) ⟨.unlimited, true⟩ name
  obtain ⟨_, hok⟩ := Reading.run_name (r := ⟨.unlimited, true⟩) rfl Expr.productions ⟨name, hname⟩
  obtain ⟨_, herror⟩ := Reading.run_name (r := ⟨.unlimited, true⟩) rfl
    (Expr.productions.lacking name) ⟨name, hname⟩
  rw [hok, herror] at hrun
  simp [Productions.lacking, Expr.productions] at hrun

namespace Context

variable {n : Nesting} {name : String}

/-- A constant that is registered is found where its name stands alone. -/
theorem registerConstant_float (E : Elementary) (c : Context) (hname : isIdentifier name = true)
    (v : Float) (hn : n.refuses { factors := 1 } = false) :
    ∃ c', c.registerConstant name (.float v) = .ok c' ∧
      ∀ full, (⟨n, full⟩ : Reading).evaluate E c' name = .ok v := by
  refine ⟨_, registerConstant_eq_ok_iff.2 ⟨hname, v, rfl, rfl⟩, fun full => ?_⟩
  set c' : Context := { c with constants := c.constants.put name v } with hc'
  obtain ⟨position, h⟩ :=
    Reading.run_name (r := ⟨n, full⟩) hn (c'.productions E) ⟨name, hname⟩
  rw [Reading.evaluate, h]
  simp [productions, hc', constant?, Table.get?_put]

/-- A function that is registered is the one that is called by its name; that it uses up the stack
is reported. -/
theorem registerFunction_callable (E : Elementary) (c : Context)
    (hname : isIdentifier name = true) (f : Callable) (hn : n.refuses { factors := 1 } = false) :
    ∃ c', c.registerFunction name (.ok f) = .ok c' ∧
      ∀ full bs argument x, Blanks bs →
        (⟨n, true⟩ : Reading).evaluate E c' argument = .ok x →
        let text := name ++ String.ofList bs ++ "(" ++ argument ++ ")"
        (⟨n.aroundCall, full⟩ : Reading).evaluate E c' text =
          (f.apply E x).mapError (·.reported text.length n.aroundCall.guard) := by
  refine ⟨_, registerFunction_eq_ok_iff.2 ⟨hname, f, rfl, rfl⟩, fun full bs argument x hb h => ?_⟩
  obtain ⟨start, hcall⟩ := Reading.evaluate_call h hn full ⟨name, hname⟩ hb
  refine hcall.trans ?_
  simp [productions, function?, Table.get?_put]

end Context

/-- The names that can be registered, the texts that are a constant, the texts that are scanned and
the names in trees are the same. So a registration fails and no text ever looks the name up, or the
name as a text is the constant and a call by it applies the function, where only an exhausted stack
is reported by another failure. -/
theorem registered_names_are_read (E : Elementary) {n : Nesting}
    (hn : n.refuses { factors := 1 } = false) (name : String) :
    [isIdentifier name = true,
      (⟨n, true⟩ : Reading).parse name = .ok (.constant name),
      ∃ text position d, (Cursor.ofText text position).scanIdentifier = some (name, d),
      ∃ (r : Reading) (text : String) (t : Expr), r.parse text = .ok t ∧
        (name ∈ t.constantNames ∨ name ∈ t.functionNames)].TFAE ∧
    ∀ c : Context,
      (∀ v : Float,
        c.registerConstant name (.float v) = .error (.invalidName name) ∧ Unread name ∨
        ∃ c', c.registerConstant name (.float v) = .ok c' ∧
          ∀ full, (⟨n, full⟩ : Reading).evaluate E c' name = .ok v) ∧
      ∀ f : Callable,
        c.registerFunction name (.ok f) = .error (.invalidName name) ∧ Unread name ∨
        ∃ c', c.registerFunction name (.ok f) = .ok c' ∧
          ∀ full bs argument x, Blanks bs →
            (⟨n, true⟩ : Reading).evaluate E c' argument = .ok x →
            let text := name ++ String.ofList bs ++ "(" ++ argument ++ ")"
            (⟨n.aroundCall, full⟩ : Reading).evaluate E c' text =
              (f.apply E x).mapError (·.reported text.length n.aroundCall.guard) := by
  refine ⟨isIdentifier_tfae hn name, fun c => ?_⟩
  cases hname : isIdentifier name with
  | false =>
    have hunread : Unread name := unread_iff.2 hname
    exact ⟨fun v => .inl ⟨by simp [Context.registerConstant, hname], hunread⟩,
      fun f => .inl ⟨by simp [Context.registerFunction, hname], hunread⟩⟩
  | true =>
    exact ⟨fun v => .inr (c.registerConstant_float E hname v hn),
      fun f => .inr (c.registerFunction_callable E hname f hn)⟩

/-- A name with a digit under the least guard, with a blank before the parenthesis. -/
theorem registered_names_are_read_digit :
    (⟨1, none⟩ : Nesting).refuses { factors := 1 } = false ∧
    (∃ c, Context.standard.registerConstant "x1" (.float 2.5) = .ok c ∧
      (⟨⟨1, none⟩, true⟩ : Reading).evaluate .native c "x1" = .ok 2.5) ∧
    ∃ c, Context.standard.registerFunction "x1" (.ok (.host fun x => .ok (.float (-x)))) = .ok c ∧
      (⟨⟨2, none⟩, true⟩ : Reading).evaluate .native c "x1 (2)" = .ok (-2.0) := by
  have hn : (⟨1, none⟩ : Nesting).refuses { factors := 1 } = false := rfl
  have hnames := (registered_names_are_read .native hn "x1").2 .standard
  refine ⟨hn, ?_, ?_⟩
  · obtain ⟨h, -⟩ | ⟨c, hc, hvalue⟩ := hnames.1 2.5
    · cases h
    · exact ⟨c, hc, hvalue true⟩
  · obtain ⟨h, -⟩ | ⟨c, hc, hvalue⟩ := hnames.2 (.host fun x => .ok (.float (-x)))
    · cases h
    · have htwo : Grammar.Parses (c.productions .native) ⟨1, none⟩ (Reading.call "2") 2.0 ⟨1, []⟩ :=
        .chain (.chain (.base rfl rfl rfl (.number rfl rfl) rfl) (.last rfl)) (.last rfl)
      have hargument : (⟨⟨1, none⟩, true⟩ : Reading).evaluate .native c "2" = .ok 2.0 :=
        Reading.run_eq_ok_iff.2 ⟨_, htwo, fun _ => rfl⟩
      exact ⟨c, hc, hvalue true [' '] "2" 2.0 (by simp [Blanks, isBlank]) hargument⟩

end Reckoner
