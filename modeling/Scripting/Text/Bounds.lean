/-!
Sets of code points as sorted boundary lists: the set starts at the first boundary, stops before
the second, starts again at the third, and so on. `Bounds.mem` decides membership.
-/

namespace Scripting.Text.Bounds

/-- Whether `n` lies between an odd boundary and the next even one. -/
def mem : List Nat → Nat → Bool
  | [], _ => false
  | [first], n => first ≤ n
  | first :: stop :: rest, n =>
    if n < first then false else if n < stop then true else mem rest n

theorem mem_of_lt_head {first stop n : Nat} {rest : List Nat} (h : n < first) :
    mem (first :: stop :: rest) n = false := by
  simp [mem, h]

theorem mem_head {first stop n : Nat} {rest : List Nat} (hf : first ≤ n) (hs : n < stop) :
    mem (first :: stop :: rest) n = true := by
  simp [mem, Nat.not_lt.mpr hf, hs]

end Scripting.Text.Bounds
