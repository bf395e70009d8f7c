import Reckoner.Yaml.Value

/-!
# The order of sets

A set of numbers shows its members by their places in a table. A member takes the place that its
residue names or, where that is taken, the next one that its residue leads to. Only numbers have
residues: a set with a member of another kind keeps the order in which it is written.
-/
namespace Reckoner.Yaml.Placement

/-- Residues are taken modulo this prime. -/
def modulus : Nat := Nat.pow 2 61 - 1

/-- A residue with its sign as a word of 64 bits; minus one is left out. -/
def word (n : Int) : Nat := ((if n = -1 then -2 else n) % Nat.pow 2 64).toNat

/-- The residue of a number, the same for equal numbers of all kinds. -/
def residue? : Value → Option Nat
  | .scalar d => match d.dyadic?, d with
    | some (isNegative, m, q), _ =>
      let r : Int := m * Nat.pow 2 (q % 61).toNat % modulus
      some (word (if isNegative then -r else r))
    | none, .float x => some (word (if x < 0 then -314159 else 314159))
    | none, _ => none
  | _ => none

/-- The number of places for some members, a power of two. -/
def size (count : Nat) : Nat := if count ≤ 4 then 8 else Nat.pow 2 (Nat.log2 (2 * count) + 1)

/-- The first free place from place `i` on: ten places in a row where there are as many, else one,
then the place that five times `i` and the rest of the residue name. -/
def free (size : Nat) (isTaken : Nat → Bool) : Nat → Nat → Nat → Nat
  | 0, i, _ => i
  | fuel + 1, i, rest =>
    let row := if i + 9 < size then 10 else 1
    match (List.range row).find? fun k => !isTaken (i + k) with
    | some k => i + k
    | none => free size isTaken fuel ((5 * i + 1 + rest / 32) % size) (rest / 32)

/-- Members with their places, added in turn. -/
def places (size : Nat) : List (Nat × Value) → List (Nat × Value) :=
  List.foldl (fun placed (residue, v) =>
    let isTaken (i : Nat) : Bool := (placed.lookup i).isSome
    (free size isTaken (size + 13) (residue % size) residue, v) :: placed) []

/-- The members of a set in the order in which they are shown. -/
def order (items : List Value) : List Value :=
  match items.mapM residue? with
  | none => items
  | some residues =>
    let size := size items.length
    let placed := places size (residues.zip items)
    (List.range size).filterMap fun i => placed.lookup i

end Reckoner.Yaml.Placement
