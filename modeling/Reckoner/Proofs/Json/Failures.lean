import Reckoner.Proofs.Debug
import Reckoner.Proofs.Json.Values
import Reckoner.Proofs.Malformed
import Reckoner.Proofs.Outcomes

/-!
# Failures as values

The report of a failure holds no double, so it can always be written. Names and literals are printed
characters of ASCII, and a character left over stands between quotes, so what an evaluation fails by
comes back as it was. Functions of the host may fail by other texts.
-/
namespace Reckoner

open Log.Json

namespace Log.Json

/-! ## Fields -/

theorem isFinite_fields {fields : List (String × Datum)} :
    isFinite (Datum.fields fields) = true ↔ ∀ f ∈ fields, isFinite f.2 = true := by
  rw [Datum.fields, isFinite]
  induction fields with
  | nil => simp [haveFinite]
  | cons f fields ih =>
    rw [List.map_cons, haveFinite, Bool.and_eq_true, ih, List.forall_mem_cons]

theorem isWhole_fields {fields : List (String × Datum)} :
    IsWhole (Datum.fields fields) ↔ ∀ f ∈ fields, IsJoined f.1.toList ∧ IsWhole f.2 := by
  rw [Datum.fields, IsWhole]
  induction fields with
  | nil => simp [HaveWhole]
  | cons f fields ih =>
    rw [List.map_cons, HaveWhole, ih, List.forall_mem_cons, and_assoc]

/-! ## Pieces of texts -/

theorem isPrinted_of_isIdentifierChar {c : Char} (h : isIdentifierChar c = true) :
    isPrinted c = true := by
  simp only [isIdentifierChar, Char.isAlphanum, Char.isAlpha, Char.isUpper, Char.isLower,
    Char.isDigit, Bool.or_eq_true, Bool.and_eq_true, decide_eq_true_eq, ge_iff_le,
    UInt32.le_iff_toNat_le] at h
  have hcode : c.toNat = c.val.toNat := rfl
  have : 'A'.val.toNat = 65 := rfl
  have : 'Z'.val.toNat = 90 := rfl
  have : 'a'.val.toNat = 97 := rfl
  have : 'z'.val.toNat = 122 := rfl
  have : '0'.val.toNat = 48 := rfl
  have : '9'.val.toNat = 57 := rfl
  have : '_'.val.toNat = 95 := rfl
  simp only [isPrinted, Bool.and_eq_true, decide_eq_true_eq]
  rcases h with h | rfl
  · omega
  · exact ⟨by decide, by decide⟩

theorem isLine_of_isIdentifier {name : String} (h : isIdentifier name = true) : IsLine name := by
  obtain ⟨ch, cs, hchars, -, hall⟩ := Grammar.exists_name_chars ⟨name, h⟩
  intro c hc
  exact isPrinted_of_isIdentifierChar (hall c (hchars ▸ hc))

theorem isPart_of_isMantissaChar {c : Char} (h : isMantissaChar c = true) :
    Literal.isPart c = true := by
  simp only [isMantissaChar, Bool.or_eq_true, decide_eq_true_eq] at h
  rcases h with h | rfl
  · simp [Literal.isPart, h]
  · rfl

/-- Whether a fixed text is printed can be computed. -/
theorem isJoined_word {s : String} (h : s.toList.all isPrinted = true) : IsJoined s.toList :=
  isJoined_of_isLine (isLine_iff.2 h)

/-- Printed characters join with nothing that stands between them. -/
theorem IsJoined.between {cs : List Char} {s t : String} (h : IsJoined cs) (hs : IsLine s)
    (ht : IsLine t) : IsJoined (s.toList ++ (cs ++ t.toList)) := by
  have hplain {c : Char} (hc : isPrinted c = true) :
      isHigh (Text.code c) = false ∧ isLow (Text.code c) = false := by
    have hcode := code_le_toNat c
    simp only [isPrinted, isHigh, isLow, Bool.and_eq_true, Bool.and_eq_false_iff,
      decide_eq_true_eq, decide_eq_false_iff_not] at hc ⊢
    omega
  refine List.isChain_append.2 ⟨isJoined_of_isLine hs, List.isChain_append.2
    ⟨h, isJoined_of_isLine ht, ?_⟩, ?_⟩
  · rintro a - b hb ⟨-, hlow⟩
    rw [(hplain (ht b (List.mem_of_mem_head? hb))).2] at hlow
    cases hlow
  · rintro a ha b - ⟨hhigh, -⟩
    rw [(hplain (hs a (List.mem_of_mem_getLast? ha))).1] at hhigh
    cases hhigh

end Log.Json

/-! ## Reports -/

theorem Kind.isLine_label (k : Kind) : IsLine k.label := by
  cases k with
  | host fault => cases fault <;> exact isLine_iff.2 (by cbv)
  | _ => exact isLine_iff.2 (by cbv)

namespace Report

variable {kind : Kind} {message : String} {position : Option ℤ} {details : List (String × Datum)}

/-- The details of a report about a text: those given, and perhaps a position. -/
theorem forall_details_parse {p : String × Datum → Prop} (hp : ∀ n, p ("position", .int n))
    (h : ∀ d ∈ details, p d) : ∀ d ∈ (parse kind message position details).details, p d := by
  cases position with
  | none => exact h
  | some n =>
    simp only [parse]
    split
    · intro d hd
      obtain ⟨d', hd', rfl⟩ := List.mem_map.1 hd
      split
      · rename_i hname
        rw [beq_iff_eq.1 hname]
        exact hp n
      · exact h d' hd'
    · exact List.forall_mem_append.2 ⟨h, by simpa using hp n⟩

theorem isFinite_iff {r : Report} :
    isFinite (Datum.fields r.fields) = true ↔ ∀ d ∈ r.details, isFinite d.2 = true := by
  rw [isFinite_fields, fields]
  cases h : r.details with
  | nil => simp [isFinite]
  | cons d ds => simp [isFinite, isFinite_fields]

/-- A report comes back if its details do and its message does. -/
theorem isWhole {r : Report} (hm : IsJoined r.message.toList)
    (hd : ∀ d ∈ r.details, IsJoined d.1.toList ∧ IsWhole d.2) :
    IsWhole (Datum.fields r.fields) := by
  have htext : IsJoined r.text.toList := by
    rw [text]
    split
    · exact hm
    · rename_i n _
      have hend : IsLine (" at position " ++ toString n) :=
        IsLine.append (isLine_iff.2 (by cbv)) (isLine_value (.int n))
      simpa [toString] using hm.between isLine_empty hend
  rw [isWhole_fields, fields]
  refine List.forall_mem_append.2 ⟨?_, ?_⟩
  · simp only [List.forall_mem_cons]
    exact ⟨⟨isJoined_word (by cbv), isJoined_of_isLine r.kind.isLine_label⟩,
      ⟨isJoined_word (by cbv), htext⟩, by simp⟩
  · split
    · simp
    · exact List.forall_mem_singleton.2 ⟨isJoined_word (by cbv), isWhole_fields.2 hd⟩

theorem isWhole_parse (hm : IsJoined message.toList)
    (hd : ∀ d ∈ details, IsJoined d.1.toList ∧ IsWhole d.2) :
    IsWhole (Datum.fields (parse kind message position details).fields) := by
  exact isWhole hm (forall_details_parse (fun _ => ⟨isJoined_word (by cbv), trivial⟩) hd)

end Report

namespace Failure

/-- No detail of a failure is a double. -/
theorem isFinite_report (e : Failure) : isFinite (Datum.fields e.report.fields) = true := by
  rw [Report.isFinite_iff]
  cases e with
  | domain | invalidName | host => simp [report, isFinite]
  | badContext =>
    simp only [report]
    split <;> simp [isFinite]
  | _ => exact Report.forall_details_parse (fun _ => rfl) (by simp [isFinite])

/-- That the report of a failure comes back as it was. -/
def IsWhole (e : Failure) : Prop := Log.Json.IsWhole (Datum.fields e.report.fields)

/-- A failure that is about no text but a printed one. -/
def IsPlain : Failure → Prop
  | invalidNumber literal _ => IsLine literal
  | unknownFunction name _ | unknownIdentifier name _ => IsLine name
  | invalidName _ | badContext _ _ | host _ _ => False
  | _ => True

theorem IsPlain.isWhole {e : Failure} (h : e.IsPlain) : e.IsWhole := by
  cases e with
  | unexpectedEnd | expectedNumber => exact Report.isWhole_parse (isJoined_word (by cbv)) (by simp)
  | mismatchedParentheses p inCall =>
    refine Report.isWhole_parse (isJoined_word ?_) (by simp)
    cases inCall <;> cbv
  | invalidNumber literal p =>
    exact Report.isWhole_parse (isJoined_word (by cbv))
      (List.forall_mem_singleton.2 ⟨isJoined_word (by cbv), isJoined_of_isLine h⟩)
  | unknownFunction name p =>
    have hmessage : IsLine s!"Unknown function: {name}" := .append (isLine_iff.2 (by cbv)) h
    exact Report.isWhole_parse (isJoined_of_isLine hmessage)
      (List.forall_mem_singleton.2 ⟨isJoined_word (by cbv), isJoined_of_isLine h⟩)
  | unknownIdentifier name p =>
    have hmessage : IsLine s!"Unknown identifier: {name}" := .append (isLine_iff.2 (by cbv)) h
    exact Report.isWhole_parse (isJoined_of_isLine hmessage)
      (List.forall_mem_singleton.2 ⟨isJoined_word (by cbv), isJoined_of_isLine h⟩)
  | trailingInput c p =>
    have hsingle : IsJoined [c] := List.IsChain.singleton c
    have hmessage : IsJoined s!"Unexpected character '{c}'".toList := by
      have hbefore : IsLine "Unexpected character '" := isLine_iff.2 (by cbv)
      have hbehind : IsLine "'" := isLine_iff.2 (by cbv)
      simpa [toString] using hsingle.between hbefore hbehind
    exact Report.isWhole_parse hmessage (by simp)
  | nestingTooDeep p limit =>
    exact Report.isWhole_parse (isJoined_word (by cbv))
      (List.forall_mem_singleton.2 ⟨isJoined_word (by cbv), trivial⟩)
  | domain fault =>
    have hfault : IsLine fault.message ∧ IsLine fault.function := by
      cases fault <;> exact ⟨isLine_iff.2 (by cbv), isLine_iff.2 (by cbv)⟩
    exact Report.isWhole (isJoined_of_isLine hfault.1)
      (List.forall_mem_singleton.2 ⟨isJoined_word (by cbv), isJoined_of_isLine hfault.2⟩)
  | invalidName | badContext | host => exact h.elim

end Failure

/-! ## Failures of evaluations -/

/-- The functions of the host fail by texts that come back. -/
def Context.FailsWhole (c : Context) : Prop :=
  ∀ {name run x e}, c.function? name = some (.host run) → run x = .error e → e.IsWhole

theorem Context.IsLibrary.failsWhole {c : Context} (h : c.IsLibrary) : c.FailsWhole := by
  intro name run x e hf _
  obtain ⟨g, hg⟩ := h hf
  cases hg

section

variable {E : Elementary} {c : Context} {n : Nesting} {e : Failure}

/-- What is refused as a number is printed. -/
theorem Cursor.Malformed.isPlain {c : Cursor} (h : Malformed c e) : e.IsPlain := by
  cases h with
  | missing => trivial
  | @points whole fraction more rest _ hw hf hm _ =>
    have hdigits : ∀ ds : List Char, (∀ ch ∈ ds, ch.isDigit = true) →
        ∀ ch ∈ ds, isMantissaChar ch = true := fun ds hds ch hch => by
      simp [isMantissaChar, hds ch hch]
    have hrun : ∀ ch ∈ whole ++ '.' :: (fraction ++ '.' :: more), isMantissaChar ch = true :=
      List.forall_mem_append.2 ⟨hdigits whole hw, List.forall_mem_cons.2 ⟨rfl,
        List.forall_mem_append.2 ⟨hdigits fraction hf, List.forall_mem_cons.2 ⟨rfl, hm⟩⟩⟩⟩
    rw [Failure.IsPlain, IsLine, String.toList_ofList]
    exact fun ch hch => isPrinted_of_isPart (isPart_of_isMantissaChar (hrun ch hch))
  | @point rest _ _ =>
    -- a digit in front makes the point and the exponent a literal
    obtain ⟨x, hx⟩ := Cursor.exists_exponent rest
    let l : Literal := ⟨['0'], some [], x, by simp, by simp, by simp⟩
    have hl : l.chars = '0' :: '.' :: rest.take (Cursor.exponentLength rest) := by
      rw [hx]
      rfl
    rw [Failure.IsPlain, IsLine, String.toList_ofList]
    exact fun ch hch => isPrinted_of_isPart (l.isPart_of_mem ch (hl ▸ List.mem_cons_of_mem _ hch))

/-- A call fails by printed texts, by a fault of the host, or as a function of the host does. -/
theorem Grammar.Refuses.isWhole {q : Grammar.Call Float} (h : Refuses (c.productions E) n q e)
    (hc : c.FailsWhole) (he : e.kind.isCalculator = true) : e.IsWhole := by
  cases h with
  | binary _ _ hb =>
    obtain ⟨fault, rfl⟩ := BinaryOperator.exists_fault hb
    exact Failure.IsPlain.isWhole trivial
  | atEnd | tooDeep | group | argument => exact Failure.IsPlain.isWhole trivial
  | unary _ _ _ hu => cases hu
  | power _ _ _ _ _ _ hb => cases hb
  | constant hi _ hconstant =>
    simp only [Context.productions] at hconstant
    split at hconstant <;> cases hconstant
    exact Failure.IsPlain.isWhole (isLine_of_isIdentifier (Cursor.scanIdentifier_some hi).1)
  | call hi _ _ _ hcall =>
    simp only [Context.productions] at hcall
    split at hcall
    · rename_i fn hfn
      obtain hnumeric | ⟨run, rfl, hrun⟩ := Callable.apply_error hcall
      · cases e with
        | domain fault => exact Failure.IsPlain.isWhole trivial
        | host => cases he
        | _ => cases hnumeric
      · exact hc hfn hrun
    · cases hcall
      exact Failure.IsPlain.isWhole (isLine_of_isIdentifier (Cursor.scanIdentifier_some hi).1)
  | number _ _ hn => exact (Cursor.scanNumber_malformed hn).isPlain.isWhole

theorem Grammar.Fails.isWhole {q : Grammar.Call Float} (h : Fails (c.productions E) n q e)
    (hc : c.FailsWhole) (he : e.kind.isCalculator = true) : e.IsWhole := by
  induction h with
  | here h => exact h.isWhole hc he
  | within _ _ ih => exact ih he

/-- What is recorded of a failure comes back. -/
theorem Reading.isWhole_of_evaluate {r : Reading} {text : String} (hc : c.FailsWhole)
    (h : r.evaluate E c text = .error e) (he : e.kind.isCalculator = true) : e.IsWhole := by
  obtain ⟨e₀, hf, hreports⟩ | ⟨a, d, -, hd⟩ := evaluate_error_cases h
  · obtain ⟨-, rfl⟩ | ⟨p, -, rfl⟩ := hreports
    · exact hf.isWhole hc he
    · exact Failure.IsPlain.isWhole trivial
  · obtain ⟨-, rfl⟩ | ⟨ch, -, -, rfl⟩ := finish_error_cases hd <;>
      exact Failure.IsPlain.isWhole trivial

end

end Reckoner
