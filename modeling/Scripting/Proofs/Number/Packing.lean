import Scripting.Number.Parts
import Scripting.Proofs.Number.Rounding

/-!
The bits of numbers. A finite number without sign is the packed form of its parts, and unpacking
gives the parts back.
-/

namespace Scripting

open Float.Model Float.Model.UnpackedFloat Rounding

theorem eq_of_toBits {x y : Float} (h : x.toBits.toNat = y.toBits.toNat) : x = y := by
  rw [← Float.toBits_inj, ← UInt64.toNat_inj]
  exact h

namespace Rounding

theorem packComponents_toNat (e : BitVec 11) (m : BitVec 52) :
    (packComponents .binary64 .positive e m).toNat = e.toNat * 2 ^ 52 + m.toNat := by
  have hzero : (Sign.positive.toBitVec ++ e).toNat = e.toNat := by
    rw [BitVec.toNat_append]
    simp [Sign.toBitVec]
  change (Sign.positive.toBitVec ++ e ++ m).toNat = _
  rw [BitVec.toNat_append, hzero, ← Nat.shiftLeft_add_eq_or_of_lt m.isLt, Nat.shiftLeft_eq]

variable {M : Nat} {E : Int}

/-- The packed bits of a canonical number. -/
def bitsOf (M : Nat) (E : Int) : Nat :=
  if 2 ^ 52 ≤ M then (E + 1075).toNat * 2 ^ 52 + (M - 2 ^ 52) else M

theorem log2_eq_iff (hc : Canonical M E) : M.log2 + 1 = 53 ↔ 2 ^ 52 ≤ M := by
  have hpos : M ≠ 0 := Nat.ne_of_gt hc.pos
  have hlt : M.log2 < 53 := (Nat.log2_lt hpos).mpr hc.lt
  rw [← Nat.le_log2 hpos]
  omega

/-- The components of a canonical number. -/
theorem pack_eq {sign : Sign} (hc : Canonical M E) (hE : E ≤ 971) :
    UnpackedFloat.pack .binary64 (.finite sign M E hc.pos) =
      packComponents .binary64 sign (.ofNat 11 (if 2 ^ 52 ≤ M then (E + 1075).toNat else 0))
        (.ofNat 52 M) := by
  have hmin := hc.min
  have hbias : (E + (Format.binary64.exponentBias : Int) +
      (Format.binary64.mantissaBitsWithoutImplicit : Int)).toNat = (E + 1075).toNat := by
    have hbias : Format.binary64.exponentBias = 1023 := rfl
    have hbits : Format.binary64.mantissaBitsWithoutImplicit = 52 := rfl
    omega
  have hfinite : ¬ 2 ^ 11 ≤ (E + 1075).toNat + 1 := by omega
  unfold UnpackedFloat.pack
  simp only [hbias, hfinite, if_false]
  by_cases hfull : 2 ^ 52 ≤ M
  · have hlog : M.log2 + 1 = Format.binary64.mantissaBits := (log2_eq_iff hc).mpr hfull
    rw [if_pos hlog, if_pos hfull]
  · have hlog : ¬ M.log2 + 1 = Format.binary64.mantissaBits := mt (log2_eq_iff hc).mp hfull
    rw [if_neg hlog, if_neg hfull]

theorem pack_toNat (hc : Canonical M E) (hE : E ≤ 971) :
    (UnpackedFloat.pack .binary64 (.finite .positive M E hc.pos)).toNat = bitsOf M E := by
  have hmin := hc.min
  have hlt := hc.lt
  rw [pack_eq hc hE, packComponents_toNat, BitVec.toNat_ofNat, BitVec.toNat_ofNat, bitsOf]
  by_cases hfull : 2 ^ 52 ≤ M
  · rw [if_pos hfull, if_pos hfull]
    omega
  · rw [if_neg hfull, if_neg hfull]
    omega

def number (hc : Canonical M E) : Float := .ofModel (.pack (.finite .positive M E hc.pos))

theorem number_toBits (hc : Canonical M E) (hE : E ≤ 971) :
    (number hc).toBits.toNat = bitsOf M E := pack_toNat hc hE

/-- What the parts of a number without sign say about its bits. -/
theorem of?_cases {x : Float} {M : Nat} {E : Int} (h : Parts.of? x = some ⟨false, M, E⟩) :
    x.toBits.toNat = M ∧ M < 2 ^ 52 ∧ E = -1074 ∨
      ∃ b f : Nat, x.toBits.toNat = b * 2 ^ 52 + f ∧ f < 2 ^ 52 ∧ 0 < b ∧ b < 2047 ∧
        M = f + 2 ^ 52 ∧ E = (b : Int) - 1075 := by
  have hlt : x.toBits.toNat < 2 ^ 64 := x.toBits.toNat_lt
  have h63 : twoTo 63 = 2 ^ 63 := rfl
  have h52 : twoTo 52 = 2 ^ 52 := rfl
  have h11 : twoTo 11 = 2 ^ 11 := rfl
  simp only [Parts.of?] at h
  generalize x.toBits.toNat = bits at h hlt
  split at h
  · cases h
  · rename_i hfinite
    split at h
    · rename_i hzero
      simp only [Option.some.injEq, Parts.mk.injEq, beq_eq_false_iff_ne, h52, h63] at h
      simp only [beq_iff_eq, h11, h52] at hzero hfinite
      left
      omega
    · rename_i hzero
      simp only [Option.some.injEq, Parts.mk.injEq, beq_eq_false_iff_ne, h11, h52, h63] at h
      simp only [beq_iff_eq, h11, h52] at hzero hfinite
      right
      refine ⟨bits / 2 ^ 52 % 2 ^ 11, bits % 2 ^ 52, ?_, ?_, ?_, ?_, ?_, ?_⟩ <;> omega

/-- A finite number without sign is zero or the packed form of its parts. -/
theorem eq_number {x : Float} {M : Nat} {E : Int} (h : Parts.of? x = some ⟨false, M, E⟩)
    (hM : M ≠ 0) : ∃ hc : Canonical M E, E ≤ 971 ∧ x = number hc := by
  rcases of?_cases h with ⟨hbits, hlt, rfl⟩ | ⟨b, f, hbits, hf, hpos, hb, rfl, rfl⟩
  · have hc : Canonical M (-1074) := ⟨Nat.pos_of_ne_zero hM, by omega, le_refl _, .inr rfl⟩
    refine ⟨hc, by omega, eq_of_toBits ?_⟩
    rw [hbits, number_toBits hc (by omega), bitsOf, if_neg (by omega)]
  · have hc : Canonical (f + 2 ^ 52) ((b : Int) - 1075) :=
      ⟨by omega, by omega, by omega, .inl (by omega)⟩
    refine ⟨hc, by omega, eq_of_toBits ?_⟩
    rw [hbits, number_toBits hc (by omega), bitsOf, if_pos (by omega)]
    have hexp : ((b : Int) - 1075 + 1075).toNat = b := by omega
    rw [hexp]
    omega

theorem eq_zero {x : Float} {E : Int} (h : Parts.of? x = some ⟨false, 0, E⟩) : x = 0 := by
  have hzero : (0 : Float).toBits.toNat = 0 := by decide
  rcases of?_cases h with ⟨hbits, -, -⟩ | ⟨b, f, hbits, hf, hpos, hb, hM, -⟩
  · exact eq_of_toBits (hbits.trans hzero.symm)
  · omega

/-- A number with parts is not infinite. -/
theorem isInf_of_parts {x : Float} {p : Parts} (h : Parts.of? x = some p) : x.isInf = false := by
  have hfinite : x.toBits.toNat / twoTo 52 % twoTo 11 ≠ twoTo 11 - 1 := by
    intro hmax
    simp [Parts.of?, hmax] at h
  have hexp : @unpackExponent .binary64 x.toModel.toBits.toBitVec ≠ -1#11 := by
    intro hmax
    have hnat := congrArg BitVec.toNat hmax
    simp only [unpackExponent, BitVec.toNat_cast, BitVec.extractLsb_toNat,
      Nat.shiftRight_eq_div_pow] at hnat
    exact hfinite hnat
  change (UnpackedFloat.unpack .binary64 x.toModel.toBits.toBitVec).isInf = false
  unfold UnpackedFloat.unpack
  simp only [hexp, if_false]
  split
  · split <;> rfl
  · rfl

theorem finite_congr {s s' : Sign} {m m' : Nat} {e e' : Int} {hm : 0 < m} {hm' : 0 < m'}
    (hs : s = s') (hmm : m = m') (he : e = e') :
    UnpackedFloat.finite s m e hm = .finite s' m' e' hm' := by
  subst hs hmm he
  rfl

/-- A number with a full mantissa is unpacked to its parts. -/
theorem unpack_number (hc : Canonical M E) (hE : E ≤ 971) (hfull : 2 ^ 52 ≤ M) :
    (number hc).toModel.unpack = .finite .positive M E hc.pos := by
  have hmin := hc.min
  have hlt := hc.lt
  change UnpackedFloat.unpack .binary64 (UnpackedFloat.pack .binary64 _) = _
  rw [pack_eq hc hE, if_pos hfull]
  unfold UnpackedFloat.unpack
  simp only [unpackMantissa_packComponents, unpackExponent_packComponents]
  have hexp : (BitVec.ofNat 11 (E + 1075).toNat).toNat = (E + 1075).toNat := by
    rw [BitVec.toNat_ofNat]
    omega
  have hnotMax : BitVec.ofNat 11 (E + 1075).toNat ≠ -1#11 := by
    intro h
    have := congrArg BitVec.toNat h
    rw [hexp] at this
    norm_num at this
    omega
  have hnotZero : BitVec.ofNat 11 (E + 1075).toNat ≠ 0#11 := by
    intro h
    have := congrArg BitVec.toNat h
    rw [hexp] at this
    norm_num at this
    omega
  rw [if_neg hnotMax, if_neg hnotZero]
  refine finite_congr (by rw [unpackSign_packComponents, Sign.ofBitVec_toBitVec]) ?_ ?_
  · rw [BitVec.toNat_append, ← Nat.shiftLeft_add_eq_or_of_lt (BitVec.isLt _), BitVec.toNat_ofNat]
    simp [Nat.shiftLeft_eq]
    omega
  · rw [hexp]
    have hbias : Format.binary64.exponentBias = 1023 := rfl
    omega

end Rounding

end Scripting
