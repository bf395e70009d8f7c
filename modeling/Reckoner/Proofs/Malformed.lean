import Reckoner.Proofs.Scanning

/-!
# Malformed literals

The three ways in which scanning a number fails: no literal starts, the run of digits and points has
a second point, or it is a point alone. In each case the text up to the reported position can still
be the beginning of a literal.
-/
namespace Reckoner

theorem exists_run_point {cs : List Char} (h : '.' ∈ cs) :
    ∃ ds es, cs = ds ++ '.' :: es ∧ '.' ∉ ds ∧ cs.takeWhile (· != '.') = ds := by
  have hsplit := List.takeWhile_append_dropWhile (p := (· != '.')) (l := cs)
  have hstops := stops_dropWhile (· != '.') cs
  have hds : '.' ∉ cs.takeWhile (· != '.') := fun hm => by simpa using List.mem_takeWhile_imp hm
  cases hd : cs.dropWhile (· != '.') with
  | nil =>
    rw [hd, List.append_nil] at hsplit
    rw [hsplit] at hds
    exact absurd h hds
  | cons ch es =>
    obtain rfl : ch = '.' := by simpa [Stops, hd] using hstops
    exact ⟨_, es, by rw [← hd, hsplit], hds, rfl⟩

namespace Cursor

/-- What stands before the second point of a run. -/
theorem exists_secondPoint {run : List Char} (h : 1 < run.count '.') :
    ∃ whole fraction more, run = whole ++ '.' :: (fraction ++ '.' :: more) ∧ '.' ∉ whole ∧
      '.' ∉ fraction ∧ secondPoint run = (whole ++ '.' :: fraction).length := by
  obtain ⟨whole, more, hrun, hwhole, htake⟩ :=
    exists_run_point (List.count_pos_iff.1 (Nat.lt_trans Nat.zero_lt_one h))
  have hmore : '.' ∈ more := by
    rw [hrun, List.count_append, List.count_eq_zero.2 hwhole, List.count_cons_self] at h
    exact List.count_pos_iff.1 (by omega)
  obtain ⟨fraction, rest, hrest, hfraction, htake'⟩ := exists_run_point hmore
  refine ⟨whole, fraction, rest, by rw [hrun, hrest], hwhole, hfraction, ?_⟩
  have hdrop : run.drop (whole.length + 1) = more := by rw [hrun]; simp
  simp only [secondPoint, htake, hdrop, htake', List.length_append, List.length_cons]
  omega

theorem exists_exponent (cs : List Char) :
    ∃ x : Option Exponent, cs.take (exponentLength cs) = (x.map Exponent.chars).getD [] := by
  cases hx : Number.exponent? cs with
  | none => exact ⟨none, by simp [exponentLength, hx]⟩
  | some r =>
    obtain ⟨x, rfl, -, -⟩ := Number.exponent?_eq_some_iff.1 hx
    exact ⟨some x, by simp [exponentLength, hx]⟩

/-- A run with one point at most is a mantissa, though perhaps one without digits. -/
theorem exists_mantissa {run : List Char} (h : ∀ c ∈ run, isMantissaChar c = true)
    (hcount : run.count '.' ≤ 1) : ∃ whole fraction, run = whole ++ Literal.point fraction ∧
      (∀ c ∈ whole, c.isDigit = true) ∧ ∀ ds ∈ fraction, ∀ c ∈ ds, c.isDigit = true := by
  obtain ⟨whole, fraction, rest, hrun, hw, hf, hr, hp⟩ := Number.exists_mantissa run
  cases rest with
  | nil => exact ⟨whole, fraction, by simpa using hrun, hw, hf⟩
  | cons ch rest =>
    have hch : ch = '.' := by
      have hdigit : ch.isDigit = false := hr ch rfl
      simpa [isMantissaChar, hdigit] using h ch (by simp [hrun])
    cases fraction with
    | none => exact absurd (hp rfl ch rfl) (by simp [hch])
    | some ds =>
      rw [hrun, hch] at hcount
      simp only [Literal.point, List.count_append, List.count_cons_self] at hcount
      omega

/-- Why no number is scanned at a place where blanks have been skipped. -/
inductive Malformed (c : Cursor) : Failure → Prop
  | missing : Stops isMantissaChar c.rest → Malformed c (.expectedNumber c.position)
  | points {whole fraction more rest : List Char} :
    c.rest = whole ++ '.' :: (fraction ++ '.' :: more) ++ rest →
    (∀ ch ∈ whole, ch.isDigit = true) → (∀ ch ∈ fraction, ch.isDigit = true) →
    (∀ ch ∈ more, isMantissaChar ch = true) → Stops isMantissaChar rest →
    Malformed c (.invalidNumber (String.ofList (whole ++ '.' :: (fraction ++ '.' :: more)))
      (c.position + (whole ++ '.' :: fraction).length))
  | point {rest : List Char} : c.rest = '.' :: rest → Stops isMantissaChar rest →
    Malformed c (.invalidNumber (String.ofList ('.' :: rest.take (exponentLength rest))) c.position)

/-- A run that is no literal, with the exponent behind it, has no digits. -/
theorem eq_point_of_literal? {run rest : List Char} (h : ∀ c ∈ run, isMantissaChar c = true)
    (hne : run ≠ []) (hcount : run.count '.' ≤ 1)
    (hl : Number.literal? (run ++ rest.take (exponentLength rest)) = none) : run = ['.'] := by
  obtain ⟨x, hx⟩ := exists_exponent rest
  obtain ⟨whole, fraction, rfl, hw, hf⟩ := exists_mantissa h hcount
  by_cases hdigits : whole ++ fraction.getD [] = []
  · obtain ⟨rfl, hfraction⟩ := List.append_eq_nil_iff.1 hdigits
    cases fraction with
    | none => exact absurd rfl hne
    | some ds =>
      obtain rfl : ds = [] := hfraction
      rfl
  · have hliteral : Number.literal? (whole ++ Literal.point fraction ++ _) = some _ :=
      Number.literal?_eq_some_iff.2 ⟨⟨whole, fraction, x, hw, hf, hdigits⟩, rfl, rfl⟩
    rw [hx, hliteral] at hl
    cases hl

theorem scanNumber_malformed {c d : Cursor} {e : Failure} (h : c.scanNumber = (.error e, d)) :
    Malformed c.skipBlanks e := by
  have hrun : ∀ ch ∈ c.skipBlanks.rest.takeWhile isMantissaChar, isMantissaChar ch = true :=
    fun _ hm => List.mem_takeWhile_imp hm
  have hsplit :=
    List.takeWhile_append_dropWhile (p := isMantissaChar) (l := c.skipBlanks.rest)
  have hstops := stops_dropWhile isMantissaChar c.skipBlanks.rest
  unfold scanNumber at h
  dsimp only at h
  split at h
  · rename_i hempty
    cases h
    refine .missing ?_
    rw [List.isEmpty_iff.1 hempty, List.nil_append] at hsplit
    rwa [hsplit] at hstops
  · rename_i hne
    split at h
    · rename_i hcount
      cases h
      obtain ⟨whole, fraction, more, heq, hw, hf, hsecond⟩ := exists_secondPoint hcount
      rw [hsecond, heq]
      rw [heq] at hrun hsplit
      have hdigits : ∀ ds : List Char, (∀ ch ∈ ds, isMantissaChar ch = true) → '.' ∉ ds →
          ∀ ch ∈ ds, ch.isDigit = true := by
        intro ds hds hpoint ch hch
        have hne : ch ≠ '.' := fun heq => hpoint (heq ▸ hch)
        simpa [isMantissaChar, hne] using hds ch hch
      exact .points hsplit.symm (hdigits whole (fun ch hch => hrun ch (by simp [hch])) hw)
        (hdigits fraction (fun ch hch => hrun ch (by simp [hch])) hf)
        (fun ch hch => hrun ch (by simp [hch])) hstops
    · rename_i hcount
      split at h
      · cases h
      · rename_i hliteral
        cases h
        generalize hr : c.skipBlanks.rest.takeWhile isMantissaChar = run at *
        generalize ht : c.skipBlanks.rest.dropWhile isMantissaChar = rest at *
        have hdrop : c.skipBlanks.rest.drop run.length = rest := by rw [← hsplit, List.drop_left]
        have htake : c.skipBlanks.rest.take (run.length + exponentLength rest) =
            run ++ rest.take (exponentLength rest) := by
          rw [← hsplit, List.take_length_add_append]
        rw [hdrop, htake] at hliteral ⊢
        obtain rfl : run = ['.'] :=
          eq_point_of_literal? hrun (by simpa using hne) (Nat.not_lt.1 hcount) hliteral
        exact .point hsplit.symm hstops

end Cursor
end Reckoner
