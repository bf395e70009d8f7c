/-!
# Tables

Tables from names to values in the order in which the names were first put in. A later entry under
the same name takes the place of the earlier one.
-/
namespace Reckoner

abbrev Table (α : Type) := List (String × α)

namespace Table

variable {α : Type}

def get? (name : String) : Table α → Option α
  | [] => none
  | (key, value) :: t => if key = name then some value else get? name t

def put (name : String) (value : α) : Table α → Table α
  | [] => [(name, value)]
  | (key, old) :: t => if key = name then (key, value) :: t else (key, old) :: put name value t

def keys (t : Table α) : List String := t.map Prod.fst

/-- The entries in the order of their names. -/
def sorted (t : Table α) : Table α := t.mergeSort fun a b => a.1 ≤ b.1

theorem get?_put (name other : String) (value : α) (t : Table α) :
    (t.put name value).get? other = if name = other then some value else t.get? other := by
  induction t with
  | nil => rfl
  | cons e t ih =>
    obtain ⟨key, old⟩ := e
    by_cases h : key = name
    · subst h; by_cases ho : key = other <;> simp [put, get?, ho]
    · by_cases ho : key = other
      · subst ho; simp [put, get?, h, Ne.symm h]
      · simp [put, get?, h, ho, ih]

theorem keys_put (name : String) (value : α) (t : Table α) :
    (t.put name value).keys = if name ∈ t.keys then t.keys else t.keys ++ [name] := by
  induction t with
  | nil => rfl
  | cons e t ih =>
    obtain ⟨key, old⟩ := e
    by_cases h : key = name
    · simp [put, keys, h]
    · simp only [put, h, keys, List.map_cons, List.mem_cons, Ne.symm h, false_or, if_false] at ih ⊢
      rw [ih]
      split <;> simp [*]

end Table
end Reckoner
