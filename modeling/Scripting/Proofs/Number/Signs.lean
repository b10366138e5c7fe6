import Scripting.Proofs.Number.Packing

/-!
The other numbers: those with a minus sign, the infinities and the undefined number. Negating turns
the sign bit and nothing else, and a number without parts is one of three.
-/

namespace Scripting

open Float.Model Float.Model.UnpackedFloat Rounding

namespace Rounding

def signBits : Sign → Nat
  | .negative => 2 ^ 63
  | .positive => 0

theorem components_toNat (s : Sign) (e : BitVec 11) (m : BitVec 52) :
    (packComponents .binary64 s e m).toNat = signBits s + e.toNat * 2 ^ 52 + m.toNat := by
  change (s.toBitVec ++ e ++ m).toNat = _
  rw [BitVec.toNat_append, BitVec.toNat_append, ← Nat.shiftLeft_add_eq_or_of_lt m.isLt,
    ← Nat.shiftLeft_add_eq_or_of_lt e.isLt, Nat.shiftLeft_eq, Nat.shiftLeft_eq]
  cases s with
  | negative =>
    simp only [signBits, Sign.toBitVec, BitVec.toNat_ofNat]
    omega
  | positive => simp [signBits, Sign.toBitVec]

theorem sign_toNat (b : BitVec 64) :
    signBits (Sign.ofBitVec (@unpackSign .binary64 b)) = b.toNat / 2 ^ 63 * 2 ^ 63 ∧
      signBits (-Sign.ofBitVec (@unpackSign .binary64 b)) = (1 - b.toNat / 2 ^ 63) * 2 ^ 63 := by
  have hlt := b.isLt
  have hsign : (@unpackSign .binary64 b).toNat = b.toNat / 2 ^ 63 := by
    simp only [unpackSign, BitVec.toNat_cast, BitVec.extractLsb_toNat, Nat.shiftRight_eq_div_pow]
    change b.toNat / 2 ^ 63 % 2 ^ 1 = _
    omega
  rw [← hsign]
  generalize @unpackSign .binary64 b = s
  revert s
  decide

theorem exponent_toNat (b : BitVec 64) :
    (@unpackExponent .binary64 b).toNat = b.toNat / 2 ^ 52 % 2 ^ 11 := by
  simp only [unpackExponent, BitVec.toNat_cast, BitVec.extractLsb_toNat,
    Nat.shiftRight_eq_div_pow]

theorem mantissa_toNat (b : BitVec 64) :
    (@unpackMantissa .binary64 b).toNat = b.toNat % 2 ^ 52 := by
  simp only [unpackMantissa, BitVec.toNat_cast, BitVec.extractLsb_toNat,
    Nat.shiftRight_eq_div_pow]
  change b.toNat / 2 ^ 0 % 2 ^ 52 = _
  omega

section Fields

variable {b : BitVec 64}

/-- A finite number is zero or has a canonical mantissa and exponent. -/
theorem unpack_cases (hfinite : @unpackExponent .binary64 b ≠ -1#11) :
    UnpackedFloat.unpack .binary64 b = .zero (Sign.ofBitVec (@unpackSign .binary64 b)) ∧
        @unpackExponent .binary64 b = 0#11 ∧ @unpackMantissa .binary64 b = 0#52 ∨
      ∃ M E, ∃ hc : Canonical M E, E ≤ 971 ∧ UnpackedFloat.unpack .binary64 b =
          .finite (Sign.ofBitVec (@unpackSign .binary64 b)) M E hc.pos ∧
        BitVec.ofNat 11 (if 2 ^ 52 ≤ M then (E + 1075).toNat else 0) = @unpackExponent .binary64 b ∧
        BitVec.ofNat 52 M = @unpackMantissa .binary64 b := by
  have he : (@unpackExponent .binary64 b).toNat < 2047 := by
    have hlt : (@unpackExponent .binary64 b).toNat < 2 ^ 11 := (@unpackExponent .binary64 b).isLt
    have hne : (@unpackExponent .binary64 b).toNat ≠ 2047 :=
      fun h => hfinite (BitVec.eq_of_toNat_eq h)
    omega
  have hm : (@unpackMantissa .binary64 b).toNat < 2 ^ 52 := (@unpackMantissa .binary64 b).isLt
  unfold UnpackedFloat.unpack
  simp only [hfinite, if_false]
  split
  · rename_i hzero
    split
    · rename_i hnone
      exact .inl ⟨rfl, hzero, hnone⟩
    · rename_i hsome
      have hpos : 0 < (@unpackMantissa .binary64 b).toNat :=
        Nat.pos_of_ne_zero fun h => hsome (BitVec.eq_of_toNat_eq h)
      have hexp : ((@unpackExponent .binary64 b).toNat : Int) - (1023 + 52) + 1 = -1074 := by
        rw [hzero]
        rfl
      refine .inr ⟨_, -1074, ⟨hpos, by omega, le_refl _, .inr rfl⟩, by omega,
        finite_congr rfl rfl hexp, ?_, ?_⟩
      · rw [if_neg (by omega)]
        exact hzero.symm
      · rw [BitVec.ofNat_toNat]
        exact BitVec.setWidth_eq _
  · rename_i hnormal
    have hpos : 0 < (@unpackExponent .binary64 b).toNat :=
      Nat.pos_of_ne_zero fun h => hnormal (BitVec.eq_of_toNat_eq h)
    have hfull : (1#1 ++ @unpackMantissa .binary64 b).toNat =
        2 ^ 52 + (@unpackMantissa .binary64 b).toNat := by
      rw [BitVec.toNat_append, ← Nat.shiftLeft_add_eq_or_of_lt (BitVec.isLt _), Nat.shiftLeft_eq]
      rfl
    refine .inr ⟨_, ((@unpackExponent .binary64 b).toNat : Int) - 1075,
      ⟨by omega, by omega, by omega, .inl (by omega)⟩, by omega, finite_congr rfl rfl rfl, ?_, ?_⟩
    · rw [if_pos (by omega)]
      apply BitVec.eq_of_toNat_eq
      rw [BitVec.toNat_ofNat]
      omega
    · apply BitVec.eq_of_toNat_eq
      rw [BitVec.toNat_ofNat, hfull]
      omega

/-- Negating a finite number turns the sign and leaves the other fields. -/
theorem pack_neg_unpack (hfinite : @unpackExponent .binary64 b ≠ -1#11) :
    UnpackedFloat.pack .binary64 (UnpackedFloat.unpack .binary64 b).neg =
      packComponents .binary64 (-Sign.ofBitVec (@unpackSign .binary64 b))
        (@unpackExponent .binary64 b) (@unpackMantissa .binary64 b) := by
  rcases unpack_cases hfinite with ⟨hunpack, he, hm⟩ | ⟨M, E, hc, hE, hunpack, he, hm⟩
  · rw [hunpack, he, hm]
    rfl
  · rw [hunpack, ← he, ← hm]
    exact pack_eq hc hE

end Fields

theorem exponent_ne_max {x : Float} (h : Parts.of? x ≠ none) :
    @unpackExponent .binary64 x.toModel.toBits.toBitVec ≠ -1#11 := by
  intro hmax
  have hnat := congrArg BitVec.toNat hmax
  rw [exponent_toNat] at hnat
  have hbits : x.toBits.toNat / twoTo 52 % twoTo 11 = twoTo 11 - 1 := hnat
  exact h (by simp [Parts.of?, hbits])

theorem isNaN_of_parts {x : Float} (h : Parts.of? x ≠ none) : x.isNaN = false := by
  change (UnpackedFloat.unpack .binary64 x.toModel.toBits.toBitVec).isNaN = false
  rcases unpack_cases (exponent_ne_max h) with ⟨hunpack, -⟩ | ⟨M, E, hc, -, hunpack, -⟩
  · rw [hunpack]
    rfl
  · rw [hunpack]
    rfl

/-- Finite numbers are equal to themselves. -/
theorem beq_self_of_parts {x : Float} (h : Parts.of? x ≠ none) : (x == x) = true := by
  change (UnpackedFloat.unpack .binary64 x.toModel.toBits.toBitVec).beq
    (UnpackedFloat.unpack .binary64 x.toModel.toBits.toBitVec) = true
  rcases unpack_cases (exponent_ne_max h) with ⟨hunpack, -⟩ | ⟨M, E, hc, -, hunpack, -⟩
  · rw [hunpack]
    rfl
  · rw [hunpack]
    unfold UnpackedFloat.beq UnpackedFloat.compare
    cases Sign.ofBitVec _ <;> simp

theorem neg_toBits {x : Float} (h : Parts.of? x ≠ none) : (-x).toBits.toNat =
    (1 - x.toBits.toNat / 2 ^ 63) * 2 ^ 63 + x.toBits.toNat % 2 ^ 63 := by
  change (UnpackedFloat.pack .binary64 (UnpackedFloat.unpack .binary64
    x.toModel.toBits.toBitVec).neg).toNat = _
  rw [pack_neg_unpack (exponent_ne_max h), components_toNat, (sign_toNat _).2, exponent_toNat,
    mantissa_toNat]
  change _ = (1 - x.toModel.toBits.toBitVec.toNat / 2 ^ 63) * 2 ^ 63 +
    x.toModel.toBits.toBitVec.toNat % 2 ^ 63
  omega

/-- A number with a minus sign is the negative of one with the same parts and no sign. -/
theorem neg_of_parts {x : Float} {M : Nat} {E : Int} (h : Parts.of? x = some ⟨true, M, E⟩) :
    Parts.of? (-x) = some ⟨false, M, E⟩ ∧ -(-x) = x := by
  have hlt : x.toBits.toNat < 2 ^ 64 := x.toBits.toNat_lt
  have h63 : twoTo 63 = 2 ^ 63 := rfl
  have h52 : twoTo 52 = 2 ^ 52 := rfl
  have h11 : twoTo 11 = 2 ^ 11 := rfl
  have hbits := neg_toBits (x := x) (by rw [h]; exact Option.some_ne_none _)
  have hsign : x.toBits.toNat / 2 ^ 63 = 1 := by
    simp only [Parts.of?] at h
    split at h
    · cases h
    · split at h <;> simp only [Option.some.injEq, Parts.mk.injEq, beq_iff_eq, h63] at h <;>
        exact h.1
  have hparts : Parts.of? (-x) = some ⟨false, M, E⟩ := by
    simp only [Parts.of?, h52, h63, h11, hbits] at h ⊢
    generalize x.toBits.toNat = n at hlt hsign h
    have hn : (1 - n / 2 ^ 63) * 2 ^ 63 + n % 2 ^ 63 = n - 2 ^ 63 := by omega
    have hexp : (n - 2 ^ 63) / 2 ^ 52 % 2 ^ 11 = n / 2 ^ 52 % 2 ^ 11 := by omega
    have hman : (n - 2 ^ 63) % 2 ^ 52 = n % 2 ^ 52 := by omega
    have hpos : ((n - 2 ^ 63) / 2 ^ 63 == 1) = false := by
      rw [beq_eq_false_iff_ne]
      omega
    rw [hn, hexp, hman, hpos]
    rw [hsign] at h
    split at h
    · cases h
    · rename_i hfinite
      rw [if_neg hfinite]
      split at h
      · rename_i hzero
        obtain ⟨-, hM, hE⟩ := Parts.mk.inj (Option.some.inj h)
        rw [if_pos hzero, hM, hE]
      · rename_i hzero
        obtain ⟨-, hM, hE⟩ := Parts.mk.inj (Option.some.inj h)
        rw [if_neg hzero, hM, hE]
  refine ⟨hparts, eq_of_toBits ?_⟩
  rw [neg_toBits (by rw [hparts]; exact Option.some_ne_none _), hbits]
  omega

/-- A number without parts is infinite or undefined. -/
theorem eq_of_no_parts {x : Float} (h : Parts.of? x = none) :
    x = Number.undefined ∨ x = Number.infinity ∨ x = -Number.infinity := by
  have hlt : x.toBits.toNat < 2 ^ 64 := x.toBits.toNat_lt
  have hmax : x.toBits.toNat / 2 ^ 52 % 2 ^ 11 = 2047 := by
    simp only [Parts.of?] at h
    split at h
    · rename_i hmax
      exact beq_iff_eq.mp hmax
    · split at h <;> cases h
  by_cases hfraction : x.toBits.toNat % 2 ^ 52 = 0
  · right
    have hpos : Number.infinity.toBits.toNat = 2047 * 2 ^ 52 := by decide
    have hneg : (-Number.infinity).toBits.toNat = 2 ^ 63 + 2047 * 2 ^ 52 := by decide
    by_cases hsign : x.toBits.toNat < 2 ^ 63
    · exact .inl (eq_of_toBits (by omega))
    · exact .inr (eq_of_toBits (by omega))
  · left
    have hexp : @unpackExponent .binary64 x.toModel.toBits.toBitVec = -1#11 :=
      BitVec.eq_of_toNat_eq ((exponent_toNat _).trans hmax)
    have hman : @unpackMantissa .binary64 x.toModel.toBits.toBitVec ≠ 0#52 := by
      intro hzero
      exact hfraction ((mantissa_toNat _).symm.trans (congrArg BitVec.toNat hzero))
    -- all undefined numbers have the same bits
    have hbits : x.toBits.toNat = (packedNaN .binary64).toNat :=
      congrArg BitVec.toNat (x.toModel.valid.eq_packedNaN hexp hman)
    have hundefined : Number.undefined.toBits.toNat = (packedNaN .binary64).toNat := by
      decide
    exact eq_of_toBits (hbits.trans hundefined.symm)

end Rounding

end Scripting
