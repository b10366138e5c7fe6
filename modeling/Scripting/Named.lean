/-!
Lists of named things, each name at most once, in the order in which the names first came up. A
later value takes the place of an earlier one.
-/

namespace Scripting.Named

variable {κ α : Type} [BEq κ]

/-- Gives a name its value, in the place that it has or at the end. -/
def put (name : κ) (value : α) : List (κ × α) → List (κ × α)
  | [] => [(name, value)]
  | (n, v) :: rest => if n == name then (n, value) :: rest else (n, v) :: put name value rest

def names (xs : List (κ × α)) : List κ := xs.map Prod.fst

def has (name : κ) (xs : List (κ × α)) : Bool := (xs.lookup name).isSome

theorem lookup_put_self [LawfulBEq κ] (name : κ) (value : α) (xs : List (κ × α)) :
    (put name value xs).lookup name = some value := by
  induction xs with
  | nil => simp [put]
  | cons x rest ih =>
    obtain ⟨n, v⟩ := x
    by_cases h : n = name
    · simp [put, h]
    · have h' : (name == n) = false := by simp [Ne.symm h]
      simp [put, h, List.lookup_cons, h', ih]

theorem lookup_put_of_ne [LawfulBEq κ] {name other : κ} (h : other ≠ name) (value : α)
    (xs : List (κ × α)) : (put name value xs).lookup other = xs.lookup other := by
  induction xs with
  | nil =>
    have h' : (other == name) = false := by simp [h]
    simp [put, List.lookup_cons, h']
  | cons x rest ih =>
    obtain ⟨n, v⟩ := x
    by_cases hn : n = name
    · have h' : (other == n) = false := by simp [hn, h]
      simp [put, hn, List.lookup_cons, hn ▸ h']
    · simp [put, hn, List.lookup_cons, ih]

end Scripting.Named
