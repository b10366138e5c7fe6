import Scripting.Proofs.Number.Shown

/-!
Equality of numbers. Two numbers are equal if they are the same number or zeros of either sign; only
the undefined number is not equal to itself. Equal numbers have the same text.
-/

namespace Scripting

open Float.Model Float.Model.UnpackedFloat

namespace Rounding

/-- Unpacked numbers compare as equal if they are the same number, or zeros of either sign. -/
theorem compare_eq_iff {f g : UnpackedFloat} : UnpackedFloat.compare f g = some .eq ↔
    (∃ s s', f = .zero s ∧ g = .zero s') ∨ f = g ∧ f ≠ .notANumber := by
  cases f with
  | infinity s =>
    cases g with
    | infinity s' => cases s <;> cases s' <;> simp [UnpackedFloat.compare] <;> decide
    | _ => cases s <;> simp [UnpackedFloat.compare]
  | notANumber => cases g <;> simp [UnpackedFloat.compare]
  | zero s =>
    cases g with
    | infinity s' => cases s' <;> simp [UnpackedFloat.compare]
    | notANumber => simp [UnpackedFloat.compare]
    | zero s' => simp [UnpackedFloat.compare]
    | finite s' m e hm => cases s' <;> simp [UnpackedFloat.compare]
  | finite s m e hm =>
    cases g with
    | infinity s' => cases s' <;> simp [UnpackedFloat.compare]
    | notANumber => simp [UnpackedFloat.compare]
    | zero s' => cases s <;> simp [UnpackedFloat.compare]
    | finite s' m' e' hm' => cases s <;> cases s' <;> simp [UnpackedFloat.compare, and_comm]

variable {x y z : Float}

theorem beq_iff : (x == y) = true ↔
    (∃ s s', x.toModel.unpack = .zero s ∧ y.toModel.unpack = .zero s') ∨
      x.toModel.unpack = y.toModel.unpack ∧ x.toModel.unpack ≠ .notANumber := by
  rw [← compare_eq_iff]
  change (UnpackedFloat.compare x.toModel.unpack y.toModel.unpack == some .eq) = true ↔ _
  rw [beq_iff_eq]

theorem isNaN_iff : x.isNaN = true ↔ x.toModel.unpack = .notANumber := by
  change x.toModel.unpack.isNaN = true ↔ _
  cases x.toModel.unpack <;> simp [UnpackedFloat.isNaN]

theorem beq_self_iff : (x == x) = true ↔ x.isNaN = false := by
  rw [beq_iff, ← Bool.not_eq_true, isNaN_iff]
  constructor
  · rintro (⟨s, s', h, -⟩ | ⟨-, h⟩)
    · rw [h]
      exact nofun
    · exact h
  · exact fun h => .inr ⟨rfl, h⟩

theorem beq_comm (x y : Float) : (x == y) = (y == x) := by
  have hsymm : ∀ {x y : Float}, (x == y) = true → (y == x) = true := by
    intro x y h
    rw [beq_iff] at h ⊢
    rcases h with ⟨s, s', hx, hy⟩ | ⟨heq, hne⟩
    · exact .inl ⟨s', s, hy, hx⟩
    · exact .inr ⟨heq.symm, heq ▸ hne⟩
  exact Bool.eq_iff_iff.mpr ⟨hsymm, hsymm⟩

theorem beq_trans (h : (x == y) = true) (h' : (y == z) = true) : (x == z) = true := by
  rw [beq_iff] at h h' ⊢
  rcases h with ⟨s, s', hx, hy⟩ | ⟨heq, hne⟩
  · rcases h' with ⟨t, t', -, hz⟩ | ⟨heq', -⟩
    · exact .inl ⟨s, t', hx, hz⟩
    · exact .inl ⟨s, s', hx, heq' ▸ hy⟩
  · rw [heq]
    exact h'.imp_right fun h' => ⟨h'.1, h'.2⟩

/-- Equal numbers are equal to the same numbers. -/
theorem beq_congr (h : (x == y) = true) (z : Float) : (x == z) = (y == z) :=
  Bool.eq_iff_iff.mpr ⟨beq_trans (beq_comm x y ▸ h), beq_trans h⟩

/-- The three fields decide a number. -/
theorem eq_of_fields
    (hsign : Sign.ofBitVec (@unpackSign .binary64 x.toModel.toBits.toBitVec) =
      Sign.ofBitVec (@unpackSign .binary64 y.toModel.toBits.toBitVec))
    (hexponent : @unpackExponent .binary64 x.toModel.toBits.toBitVec =
      @unpackExponent .binary64 y.toModel.toBits.toBitVec)
    (hmantissa : @unpackMantissa .binary64 x.toModel.toBits.toBitVec =
      @unpackMantissa .binary64 y.toModel.toBits.toBitVec) : x = y := by
  have hs := congrArg signBits hsign
  have he := congrArg BitVec.toNat hexponent
  have hm := congrArg BitVec.toNat hmantissa
  rw [(sign_toNat _).1, (sign_toNat _).1] at hs
  rw [exponent_toNat, exponent_toNat] at he
  rw [mantissa_toNat, mantissa_toNat] at hm
  have hx := x.toModel.toBits.toBitVec.isLt
  have hy := y.toModel.toBits.toBitVec.isLt
  apply eq_of_toBits
  change x.toModel.toBits.toBitVec.toNat = y.toModel.toBits.toBitVec.toNat
  omega

/-- With all the bits of the exponent, a number is infinite or undefined. -/
theorem unpack_max {b : BitVec 64} (h : @unpackExponent .binary64 b = -1#11) :
    UnpackedFloat.unpack .binary64 b = .infinity (Sign.ofBitVec (@unpackSign .binary64 b)) ∧
        @unpackMantissa .binary64 b = 0#52 ∨
      UnpackedFloat.unpack .binary64 b = .notANumber := by
  unfold UnpackedFloat.unpack
  simp only [h, if_true]
  by_cases hm : @unpackMantissa .binary64 b = 0#52
  · exact .inl ⟨if_pos hm, hm⟩
  · exact .inr (if_neg hm)

def fields : UnpackedFloat → Sign × BitVec 11 × BitVec 52
  | .infinity s => (s, -1#11, 0#52)
  | .zero s => (s, 0#11, 0#52)
  | .finite s M E _ => (s, .ofNat 11 (if 2 ^ 52 ≤ M then (E + 1075).toNat else 0), .ofNat 52 M)
  | .notANumber => (.positive, -1#11, -1#52)

theorem fields_unpack {b : BitVec 64} (h : UnpackedFloat.unpack .binary64 b ≠ .notANumber) :
    fields (UnpackedFloat.unpack .binary64 b) = (Sign.ofBitVec (@unpackSign .binary64 b),
      @unpackExponent .binary64 b, @unpackMantissa .binary64 b) := by
  by_cases hmax : @unpackExponent .binary64 b = -1#11
  · obtain ⟨hunpack, hm⟩ := (unpack_max hmax).resolve_right h
    rw [hunpack, hmax, hm]
    rfl
  · rcases unpack_cases hmax with ⟨hunpack, he, hm⟩ | ⟨M, E, hc, -, hunpack, he, hm⟩
    · rw [hunpack, he, hm]
      rfl
    · rw [hunpack, ← he, ← hm]
      rfl

/-- Numbers that are unpacked alike are the same, apart from the undefined ones. -/
theorem eq_of_unpack (h : x.toModel.unpack = y.toModel.unpack)
    (hne : x.toModel.unpack ≠ .notANumber) : x = y := by
  have hx := fields_unpack (b := x.toModel.toBits.toBitVec) hne
  have hy := fields_unpack (b := y.toModel.toBits.toBitVec) fun heq => hne (h.trans heq)
  have hsame : fields x.toModel.unpack = fields y.toModel.unpack := congrArg fields h
  have hfields := hx.symm.trans (hsame.trans hy)
  obtain ⟨hsign, hrest⟩ := Prod.mk.inj hfields
  obtain ⟨hexponent, hmantissa⟩ := Prod.mk.inj hrest
  exact eq_of_fields hsign hexponent hmantissa

/-- A zero is a number that is unpacked to a zero of either sign. -/
theorem beq_zero_iff : (x == 0) = true ↔ ∃ s, x.toModel.unpack = .zero s := by
  have hzero : (0 : Float).toModel.unpack = .zero .positive := rfl
  rw [beq_iff, hzero]
  constructor
  · rintro (⟨s, s', hx, -⟩ | ⟨hx, -⟩)
    · exact ⟨s, hx⟩
    · exact ⟨_, hx⟩
  · rintro ⟨s, hx⟩
    exact .inl ⟨s, _, hx, rfl⟩

/-- Equal numbers are the same, or zeros. -/
theorem eq_or_zeros_of_beq (h : (x == y) = true) :
    x = y ∨ (x == 0) = true ∧ (y == 0) = true := by
  rcases beq_iff.mp h with ⟨s, s', hx, hy⟩ | ⟨heq, hne⟩
  · exact .inr ⟨beq_zero_iff.mpr ⟨s, hx⟩, beq_zero_iff.mpr ⟨s', hy⟩⟩
  · exact .inl (eq_of_unpack heq hne)

/-- A zero has no mantissa. -/
theorem parts_of_zero (hzero : (x == 0) = true) :
    ∃ negative, Parts.of? x = some ⟨negative, 0, -1074⟩ := by
  obtain ⟨s, h⟩ := beq_zero_iff.mp hzero
  change UnpackedFloat.unpack .binary64 x.toModel.toBits.toBitVec = _ at h
  have hne : UnpackedFloat.unpack .binary64 x.toModel.toBits.toBitVec ≠ .notANumber := by
    rw [h]
    exact nofun
  have hfields := fields_unpack hne
  rw [h] at hfields
  have he := congrArg (fun t => t.2.1.toNat) hfields
  have hm := congrArg (fun t => t.2.2.toNat) hfields
  dsimp only at he hm
  rw [exponent_toNat] at he
  rw [mantissa_toNat] at hm
  have hexponent : x.toBits.toNat / twoTo 52 % twoTo 11 = 0 := he.symm
  have hfraction : x.toBits.toNat % twoTo 52 = 0 := hm.symm
  have hmax : (0 == twoTo 11 - 1) = false := rfl
  refine ⟨x.toBits.toNat / twoTo 63 == 1, ?_⟩
  simp only [Parts.of?, hexponent, hfraction, hmax]
  rfl

end Rounding

namespace Number

theorem plain_zero {x : Float} (hzero : (x == 0) = true) : plain x = "0" := by
  obtain ⟨negative, hx⟩ := Rounding.parts_of_zero hzero
  have hintegral : (⟨negative, 0, -1074⟩ : Parts).isIntegral = true := by
    simp [Parts.isIntegral]
  have hfloor : (⟨negative, 0, -1074⟩ : Parts).floor = 0 := by simp [Parts.floor]
  have htruncate : (⟨negative, 0, -1074⟩ : Parts).truncate = 0 := by simp [Parts.truncate, hfloor]
  simp only [plain, hx, hintegral, htruncate, if_true]
  rfl

/-- Equal numbers are printed alike. -/
theorem plain_congr {x y : Float} (h : (x == y) = true) : plain x = plain y := by
  rcases Rounding.eq_or_zeros_of_beq h with rfl | ⟨hx, hy⟩
  · rfl
  · rw [plain_zero hx, plain_zero hy]

end Number

end Scripting
