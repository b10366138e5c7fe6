import Scripting.Proofs.Number.Comparison
import Scripting.Value.Equality

/-!
Equality of trees. Two trees agree just if they are the same when the signs of zeros are left out. So
agreement is an equality in disguise, of trees, of programs and of functions.
-/

namespace Scripting

namespace Number

/-- A number, a zero without its sign. -/
def unsignedZero (x : Float) : Float := if x == 0 then 0 else x

theorem eq_undefined_of_isNaN {x : Float} (h : x.isNaN = true) : x = undefined := by
  have hnone : Parts.of? x = none := by
    by_contra hne
    rw [Rounding.isNaN_of_parts hne] at h
    cases h
  have hinfinite : infinity.isNaN = false ∧ (-infinity).isNaN = false := by decide
  rcases Rounding.eq_of_no_parts hnone with rfl | rfl | rfl
  · rfl
  · rw [hinfinite.1] at h
    cases h
  · rw [hinfinite.2] at h
    cases h

/-- Number literals agree if they are the same number up to the sign of a zero. -/
theorem sameFloat_iff {x y : Float} :
    Tree.sameFloat x y = true ↔ unsignedZero x = unsignedZero y := by
  unfold Tree.sameFloat unsignedZero
  rw [Bool.or_eq_true, Bool.and_eq_true]
  constructor
  · rintro (h | ⟨hx, hy⟩)
    · rcases Rounding.eq_or_zeros_of_beq h with rfl | ⟨hx, hy⟩
      · rfl
      · rw [if_pos hx, if_pos hy]
    · rw [eq_undefined_of_isNaN hx, eq_undefined_of_isNaN hy]
  · intro h
    by_cases hx : (x == 0) = true
    · by_cases hy : (y == 0) = true
      · exact .inl (Rounding.beq_trans hx (Rounding.beq_comm y 0 ▸ hy))
      · rw [if_pos hx, if_neg hy] at h
        exact .inl (h ▸ hx)
    · by_cases hy : (y == 0) = true
      · rw [if_neg hx, if_pos hy] at h
        exact absurd (h ▸ (by decide : ((0 : Float) == 0) = true)) hx
      · rw [if_neg hx, if_neg hy] at h
        subst h
        cases hnan : x.isNaN with
        | false => exact .inl (Rounding.beq_self_iff.mpr hnan)
        | true => exact .inr ⟨rfl, rfl⟩

end Number

namespace Tree

mutual

def unsignedZeros : Tree → Tree
  | float x => .float (Number.unsignedZero x)
  | list items => .list (unsignedZerosAll items)
  | pair a b => .pair a.unsignedZeros b.unsignedZeros
  | node kind members => .node kind (unsignedZerosAll members)
  | t => t

def unsignedZerosAll : List Tree → List Tree
  | [] => []
  | t :: rest => t.unsignedZeros :: unsignedZerosAll rest

end

mutual

theorem same_iff : (s t : Tree) → (s.same t = true ↔ s.unsignedZeros = t.unsignedZeros)
  | .null, t => by cases t <;> simp [same, unsignedZeros]
  | .bool a, t => by cases t <;> simp [same, unsignedZeros]
  | .int a, t => by cases t <;> simp [same, unsignedZeros]
  | .float x, t => by cases t <;> simp [same, unsignedZeros, Number.sameFloat_iff]
  | .text a, t => by cases t <;> simp [same, unsignedZeros]
  | .binaryOp a, t => by cases t <;> simp [same, unsignedZeros]
  | .unaryOp a, t => by cases t <;> simp [same, unsignedZeros]
  | .list as, t => by cases t <;> simp [same, unsignedZeros, sameAll_iff as]
  | .pair a b, t => by cases t <;> simp [same, unsignedZeros, same_iff a, same_iff b]
  | .node k as, t => by cases t <;> simp [same, unsignedZeros, sameAll_iff as]

theorem sameAll_iff : (ss ts : List Tree) →
    (sameAll ss ts = true ↔ unsignedZerosAll ss = unsignedZerosAll ts)
  | [], ts => by cases ts <;> simp [sameAll, unsignedZerosAll]
  | s :: ss, ts => by cases ts <;> simp [sameAll, unsignedZerosAll, same_iff s, sameAll_iff ss]

end

end Tree

namespace Function

/-- What equality sees of a function. -/
def outline (f : Function) : List Name × List Tree × Name × Bool :=
  (f.params, Tree.unsignedZerosAll (stmtTrees f.body), f.name, f.native)

theorem same_iff {f g : Function} : f.same g = true ↔ f.outline = g.outline := by
  simp [Function.same, Program.same, Tree.sameAll_iff, outline, and_assoc]

end Function

end Scripting
