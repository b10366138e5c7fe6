import Scripting.Number.Reader
import Scripting.Proofs.Number.Scientific
import Scripting.Proofs.Number.Signs
import Scripting.Proofs.Printer.WellFormed

/-!
Numerals have no sign. Reading a decimal multiplies or divides a number without a minus sign by a
power of ten, so that its value is zero, finite without a sign, or infinite.
-/

namespace Scripting

open Float.Model Float.Model.UnpackedFloat

namespace Rounding

def isPositive : UnpackedFloat → Bool
  | .zero .positive | .finite .positive _ _ _ | .infinity .positive => true
  | _ => false

theorem isPositive_cases {f : UnpackedFloat} (h : isPositive f = true) :
    f = .zero .positive ∨ f = .infinity .positive ∨ ∃ m e hm, f = .finite .positive m e hm := by
  unfold isPositive at h
  split at h
  · exact .inl rfl
  · exact .inr (.inr ⟨_, _, _, rfl⟩)
  · exact .inr (.inl rfl)
  · cases h

theorem isPositive_round (m : Nat) (e : Int) (a : Accuracy) :
    isPositive (roundWithAccuracy .binary64 .positive m e a) = true := by
  unfold roundWithAccuracy
  dsimp only
  split <;> rfl

/-- Only infinity has all the bits of the exponent. -/
theorem isPositive_components {e : BitVec 11} {m : BitVec 52} (h : e = -1#11 → m = 0#52) :
    isPositive (UnpackedFloat.unpack .binary64 (packComponents .binary64 .positive e m)) =
      true := by
  unfold UnpackedFloat.unpack
  simp only [unpackMantissa_packComponents, unpackExponent_packComponents,
    unpackSign_packComponents, Sign.ofBitVec_toBitVec]
  split
  · rename_i hmax
    rw [if_pos (h hmax)]
    rfl
  · split
    · split <;> rfl
    · rfl

/-- Packing keeps the sign. -/
theorem isPositive_pack {f : UnpackedFloat} (h : isPositive f = true) :
    isPositive (UnpackedFloat.unpack .binary64 (UnpackedFloat.pack .binary64 f)) = true := by
  rcases isPositive_cases h with rfl | rfl | ⟨m, e, hm, rfl⟩
  · exact isPositive_components fun _ => rfl
  · exact isPositive_components fun _ => rfl
  · unfold UnpackedFloat.pack
    dsimp only
    split
    · exact isPositive_components fun _ => rfl
    · rename_i hfinite
      split
      · refine isPositive_components fun hmax => ?_
        have hbits := congrArg BitVec.toNat hmax
        norm_num at hbits hfinite
        omega
      · exact isPositive_components nofun

section Operands

variable {f : UnpackedFloat} (hf : isPositive f = true) {P : Nat} {e : Int} (hP : 0 < P)
include hf

theorem isPositive_mul :
    isPositive (UnpackedFloat.mul .binary64 f (.finite .positive P e hP)) = true := by
  rcases isPositive_cases hf with rfl | rfl | ⟨m, e', hm, rfl⟩
  · rfl
  · rfl
  · exact isPositive_round _ _ _

theorem isPositive_div :
    isPositive (UnpackedFloat.div .binary64 f (.finite .positive P e hP)) = true := by
  rcases isPositive_cases hf with rfl | rfl | ⟨m, e', hm, rfl⟩
  · rfl
  · rfl
  · exact isPositive_round _ _ _

end Operands

theorem isPositive_toFloat (n : UInt64) : isPositive n.toFloat.toModel.unpack = true := by
  apply isPositive_pack (f := UnpackedFloat.ofUInt64 .binary64 n)
  simp only [UnpackedFloat.ofUInt64, UnpackedFloat.ofNat, UnpackedFloat.ofInt,
    UnpackedFloat.normalize]
  split
  · rename_i hnegative
    rw [Int.compare_eq_lt] at hnegative
    omega
  · rfl
  · exact isPositive_round _ _ _

theorem isPositive_ofScientific_model (m : Nat) (e : Int) :
    isPositive (UnpackedFloat.ofScientific .binary64 m e) = true := by
  unfold UnpackedFloat.ofScientific
  split
  · rfl
  split
  · rfl
  split
  · rfl
  split
  · exact isPositive_mul rfl _
  · exact isPositive_div rfl _

/-- A decimal is read as a number without a minus sign. -/
theorem isPositive_ofScientific (m : Nat) (s : Bool) (k : Nat) :
    isPositive (Float.ofScientific m s k).toModel.unpack = true := by
  unfold Float.ofScientific
  split
  · rename_i hshort
    have hm := isPositive_toFloat m.toUInt64
    have hsize : k < Float.exactlyRepresentablePowersOfTen.size := Nat.lt_succ_of_le hshort.2
    obtain ⟨P, e, hP, hpower, -⟩ :=
      unpack_power (Nat.lt_succ_of_le hshort.2) (getElem?_pos _ k hsize)
    dsimp only
    split
    · apply isPositive_pack (f := UnpackedFloat.div .binary64 m.toUInt64.toFloat.toModel.unpack _)
      rw [hpower]
      exact isPositive_div hm hP
    · apply isPositive_pack (f := UnpackedFloat.mul .binary64 m.toUInt64.toFloat.toModel.unpack _)
      rw [hpower]
      exact isPositive_mul hm hP
  · exact isPositive_pack (isPositive_ofScientific_model m _)

/-- The sign bit is that of the unpacked number. -/
theorem negative_of_isPositive {x : Float} {p : Parts} (h : isPositive x.toModel.unpack = true)
    (hp : Parts.of? x = some p) : p.negative = false := by
  have hne : Parts.of? x ≠ none := by
    rw [hp]
    exact Option.some_ne_none p
  have hsign : Sign.ofBitVec (@unpackSign .binary64 x.toModel.toBits.toBitVec) = .positive := by
    change isPositive (UnpackedFloat.unpack .binary64 x.toModel.toBits.toBitVec) = true at h
    rcases unpack_cases (exponent_ne_max hne) with ⟨hunpack, -⟩ | ⟨M, E, hc, -, hunpack, -⟩
    all_goals
      rw [hunpack] at h
      cases hs : Sign.ofBitVec _ with
      | negative =>
        rw [hs] at h
        cases h
      | positive => rfl
  have hbits : x.toBits.toNat / 2 ^ 63 * 2 ^ 63 = 0 := by
    have htoNat := (sign_toNat x.toModel.toBits.toBitVec).1
    rw [hsign] at htoNat
    exact htoNat.symm
  have h63 : twoTo 63 = 2 ^ 63 := rfl
  simp only [Parts.of?, h63] at hp
  split at hp
  · cases hp
  · split at hp
    all_goals
      cases hp
      rw [beq_eq_false_iff_ne]
      omega

/-- A number whose unpacked form has no minus sign is infinite, or finite without a sign. -/
theorem isUnsigned_of_isPositive {x : Float} (h : isPositive x.toModel.unpack = true)
    (hfinite : x.isInf = false) : Number.isUnsigned x = true := by
  cases hp : Parts.of? x with
  | none =>
    -- the numbers without parts are undefined or infinite
    have hundefined : isPositive Number.undefined.toModel.unpack = false := by decide
    have hinfinite : Number.infinity.isInf = true ∧ (-Number.infinity).isInf = true := by
      decide
    rcases eq_of_no_parts hp with rfl | rfl | rfl
    · rw [hundefined] at h
      cases h
    · rw [hinfinite.1] at hfinite
      cases hfinite
    · rw [hinfinite.2] at hfinite
      cases hfinite
  | some p => simp [Number.isUnsigned, hp, negative_of_isPositive h hp]

end Rounding

namespace Number

open Rounding

theorem isPositive_ofDecimal (digits : Nat) (power : Int) :
    isPositive (ofDecimal digits power).toModel.unpack = true := by
  have hzero : isPositive (0 : Float).toModel.unpack = true := by decide
  have hinfinity : isPositive infinity.toModel.unpack = true := by decide
  unfold ofDecimal
  dsimp only
  split
  · exact hzero
  split
  · exact hinfinity
  split
  · exact hzero
  · exact isPositive_ofScientific _ _ _

/-- The value of a numeral is infinite, or finite without a sign. -/
theorem isUnsigned_numeral {cs : List Char} {x : Float} (h : numeral? cs = some x)
    (hfinite : x.isInf = false) : isUnsigned x = true := by
  refine isUnsigned_of_isPositive ?_ hfinite
  unfold numeral? at h
  dsimp only at h
  split at h
  · split at h
    · cases h
    · cases h
      exact isPositive_ofDecimal _ _
  · split at h
    · cases h
      exact isPositive_ofDecimal _ _
    · cases h
  · cases h

end Number

end Scripting
