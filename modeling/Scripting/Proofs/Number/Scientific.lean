import Scripting.Proofs.Number.Packing

/-!
Decimals are rounded to the nearest number. Short decimals are computed by one multiplication or
division of exact numbers, all others by the general algorithm; both give the number in whose
interval the decimal lies.
-/

namespace Scripting.Rounding

open Float.Model Float.Model.UnpackedFloat

/-- The mantissa and the exponent of an integer below `2 ^ 53`. -/
theorem canonical_integer {m : Nat} (hm : 0 < m) (hlt : m < 2 ^ 53) :
    2 ^ 52 ≤ m * 2 ^ (52 - m.log2) ∧ Canonical (m * 2 ^ (52 - m.log2)) (m.log2 - 52) := by
  have hlog : m.log2 < 53 := (Nat.log2_lt (Nat.ne_of_gt hm)).mpr hlt
  have hlow : 2 ^ 52 ≤ m * 2 ^ (52 - m.log2) := by
    calc 2 ^ 52 = 2 ^ m.log2 * 2 ^ (52 - m.log2) := by rw [← Nat.pow_add]; congr 1; omega
      _ ≤ m * 2 ^ (52 - m.log2) := Nat.mul_le_mul_right _ (Nat.log2_self_le (Nat.ne_of_gt hm))
  have hhigh : m * 2 ^ (52 - m.log2) < 2 ^ 53 := by
    calc m * 2 ^ (52 - m.log2) < 2 ^ (m.log2 + 1) * 2 ^ (52 - m.log2) :=
          Nat.mul_lt_mul_of_pos_right Nat.lt_log2_self (Nat.two_pow_pos _)
      _ = 2 ^ 53 := by rw [← Nat.pow_add]; congr 1; omega
  exact ⟨hlow, Nat.lt_of_lt_of_le (by norm_num) hlow, hhigh, by omega, .inl hlow⟩

theorem integer_value {m : Nat} (hlog : m.log2 ≤ 52) :
    ((m * 2 ^ (52 - m.log2) : ℕ) : ℚ) * 2 ^ ((m.log2 : Int) - 52) = m := by
  have hexp : (m.log2 : Int) - 52 = -((52 - m.log2 : ℕ) : Int) := by omega
  rw [hexp, zpow_neg, zpow_natCast]
  push_cast
  field_simp

theorem round_integer {m : Nat} (hm : 0 < m) (hlt : m < 2 ^ 53) :
    UnpackedFloat.round .binary64 .positive m 0 =
      .finite .positive (m * 2 ^ (52 - m.log2)) (m.log2 - 52) (canonical_integer hm hlt).2.pos := by
  obtain ⟨hlow, hc⟩ := canonical_integer hm hlt
  have hlog : m.log2 < 53 := (Nat.log2_lt (Nat.ne_of_gt hm)).mpr hlt
  have hshift : (0 - Format.binary64.targetExponent (totalExponent m 0)).toNat = 52 - m.log2 := by
    rw [targetExponent_eq, totalExponent]
    omega
  have hexp : (0 : Int) - ((52 - m.log2 : ℕ) : Int) = m.log2 - 52 := by omega
  unfold UnpackedFloat.round
  simp only [decreaseExponent, hshift, hexp, Nat.shiftLeft_eq]
  exact roundWithAccuracy_eq _ (.of_exact _) (le_targetExponent hlow _) hc .refl

/-- Integers below `2 ^ 53` are numbers. -/
theorem toFloat_eq {m : Nat} (hm : 0 < m) (hlt : m < 2 ^ 53) :
    m.toUInt64.toFloat = number (canonical_integer hm hlt).2 := by
  have hnat : m.toUInt64.toNat = m := by
    rw [Nat.toUInt64_eq, UInt64.toNat_ofNat']
    omega
  have hofNat : UnpackedFloat.ofUInt64 .binary64 m.toUInt64 =
      UnpackedFloat.round .binary64 .positive m 0 := by
    have hcompare : compare (m : Int) 0 = .gt := by
      rw [Int.compare_eq_gt]
      omega
    simp only [UnpackedFloat.ofUInt64, UnpackedFloat.ofNat, UnpackedFloat.ofInt,
      UnpackedFloat.normalize, hnat, hcompare, Int.toNat_natCast]
  rw [number, ← round_integer hm hlt, ← hofNat]
  rfl

def isPowerOfTen (k : Nat) : UnpackedFloat → Bool
  | .finite .positive P e _ => 2 ^ 52 ≤ P && -52 ≤ e && P * 2 ^ (e + 52).toNat == 10 ^ k * 2 ^ 52
  | _ => false

theorem powers_exact : ∀ k < 23, (Float.exactlyRepresentablePowersOfTen[k]?).any
    (fun x => isPowerOfTen k x.toModel.unpack) = true := by
  decide

/-- The powers of ten in the table. -/
theorem unpack_power {k : Nat} {x : Float} (hk : k < 23)
    (hx : Float.exactlyRepresentablePowersOfTen[k]? = some x) :
    ∃ P e, ∃ hP : 0 < P, x.toModel.unpack = .finite .positive P e hP ∧ 2 ^ 52 ≤ P ∧
      (P : ℚ) * 2 ^ e = 10 ^ k := by
  have h := powers_exact k hk
  rw [hx, Option.any_some] at h
  unfold isPowerOfTen at h
  split at h
  · rename_i P e hP hunpack
    simp only [Bool.and_eq_true, decide_eq_true_eq, beq_iff_eq] at h
    obtain ⟨⟨hfull, hexp⟩, hvalue⟩ := h
    refine ⟨P, e, hP, hunpack, hfull, ?_⟩
    have hq : (P : ℚ) * 2 ^ ((e + 52).toNat) = 10 ^ k * 2 ^ 52 := by exact_mod_cast hvalue
    have hsplit : (2 : ℚ) ^ ((e + 52).toNat) = 2 ^ e * 2 ^ 52 := by
      rw [← zpow_natCast, Int.toNat_of_nonneg (by omega), zpow_add₀ (by norm_num)]
      norm_num
    rw [hsplit, ← mul_assoc] at hq
    exact mul_right_cancel₀ (by norm_num) hq
  · cases h

variable {M : Nat} {E : Int} {m k : Nat}

/-- One multiplication of exact numbers. -/
theorem ofScientific_times_short (hm : 0 < m) (hlt : m < 2 ^ 53) (hk : k ≤ 22)
    (hc : Canonical M E) (hr : RoundsTo (m * 10 ^ k) M E) :
    Float.ofScientific m false k = number hc := by
  have hlog : m.log2 < 53 := (Nat.log2_lt (Nat.ne_of_gt hm)).mpr hlt
  obtain ⟨hfull, hcm⟩ := canonical_integer hm hlt
  have hunpack := unpack_number hcm (by omega) hfull
  have hsize : k < Float.exactlyRepresentablePowersOfTen.size := Nat.lt_succ_of_le hk
  obtain ⟨P, e, hP, hpower, hPfull, hvalue⟩ :=
    unpack_power (Nat.lt_succ_of_le hk) (getElem?_pos _ k hsize)
  have hmvalue := integer_value (m := m) (by omega)
  have hshort : m < 2 ^ 53 ∧ k ≤ 22 := ⟨hlt, hk⟩
  unfold Float.ofScientific
  rw [dif_pos hshort, if_neg (by simp)]
  change Float.ofModel (Float.Model.pack (UnpackedFloat.mul .binary64
    m.toUInt64.toFloat.toModel.unpack _)) = _
  rw [toFloat_eq hm hlt, hunpack, hpower,
    mul_eq _ _ (Nat.le_trans hfull (Nat.le_mul_of_pos_right _ hP)) hc
      (by rw [hmvalue, hvalue]; exact hr)]
  rfl

/-- The decimal is not so large that it is taken for infinity. -/
theorem power_bound (hm : 0 < m) (hc : Canonical M E) (hE : E ≤ 971)
    (hr : RoundsTo (m * 10 ^ k) M E) : k ≤ 2 ^ 11 := by
  have hten : (2 : ℚ) ^ ((3 * k : ℕ) : Int) ≤ 10 ^ k := by
    rw [zpow_natCast, pow_mul]
    gcongr
    norm_num
  have hone : (1 : ℚ) ≤ m := by exact_mod_cast hm
  have hlt : (2 : ℚ) ^ ((3 * k : ℕ) : Int) < 2 ^ (53 + E) := by
    calc (2 : ℚ) ^ ((3 * k : ℕ) : Int) ≤ 10 ^ k := hten
      _ = 1 * 10 ^ k := (one_mul _).symm
      _ ≤ m * 10 ^ k := mul_le_mul_of_nonneg_right hone (by positivity)
      _ < 2 ^ (53 + E) := hr.upper hc
  have := lt_of_two_zpow_lt hlt
  omega

/-- The general algorithm. -/
theorem ofScientific_times_long (hm : 0 < m) (hlong : ¬ (m < 2 ^ 53 ∧ k ≤ 22))
    (hc : Canonical M E) (hE : E ≤ 971) (hr : RoundsTo (m * 10 ^ k) M E) :
    Float.ofScientific m false k = number hc := by
  have hbound := power_bound hm hc hE hr
  have hbits : Format.binary64.mantissaBits = 53 := rfl
  have hmodel : UnpackedFloat.ofScientific .binary64 m (k : Int) =
      .finite .positive M E hc.pos := by
    unfold UnpackedFloat.ofScientific
    rw [dif_neg (Nat.ne_of_gt hm), if_neg (by norm_num at hbound ⊢; omega),
      if_neg (by norm_num; omega), if_pos (by simp)]
    have hfull : 2 ^ 52 ≤ m <<< Format.binary64.mantissaBits * 10 ^ (k : Int).toNat := by
      rw [Nat.shiftLeft_eq, hbits]
      have hpow : 0 < 10 ^ (k : Int).toNat := by positivity
      calc 2 ^ 52 ≤ m * 2 ^ 53 := by omega
        _ ≤ m * 2 ^ 53 * 10 ^ (k : Int).toNat := Nat.le_mul_of_pos_right _ hpow
    refine mul_eq _ _ hfull hc ?_
    have hvalue : ((m <<< Format.binary64.mantissaBits : ℕ) : ℚ) *
        2 ^ (-(Format.binary64.mantissaBits : Int)) = m := by
      rw [Nat.shiftLeft_eq, hbits]
      push_cast
      norm_num
      ring
    rw [hvalue]
    simpa using hr
  unfold Float.ofScientific
  rw [dif_neg hlong, number, ← hmodel]
  rfl

/-- A decimal with zeros at its end is read as the number in whose interval it lies. -/
theorem ofScientific_times (hm : 0 < m) (hc : Canonical M E) (hE : E ≤ 971)
    (hr : RoundsTo (m * 10 ^ k) M E) : Float.ofScientific m false k = number hc := by
  by_cases hshort : m < 2 ^ 53 ∧ k ≤ 22
  · exact ofScientific_times_short hm hshort.1 hshort.2 hc hr
  · exact ofScientific_times_long hm hshort hc hE hr

/-- One division of exact numbers. -/
theorem ofScientific_short (hm : 0 < m) (hlt : m < 2 ^ 53) (hk : k ≤ 22) (hc : Canonical M E)
    (hr : RoundsTo (m / 10 ^ k) M E) : Float.ofScientific m true k = number hc := by
  have hlog : m.log2 < 53 := (Nat.log2_lt (Nat.ne_of_gt hm)).mpr hlt
  obtain ⟨hfull, hcm⟩ := canonical_integer hm hlt
  have hunpack := unpack_number hcm (by omega) hfull
  have hsize : k < Float.exactlyRepresentablePowersOfTen.size := Nat.lt_succ_of_le hk
  obtain ⟨P, e, hP, hpower, hPfull, hvalue⟩ :=
    unpack_power (Nat.lt_succ_of_le hk) (getElem?_pos _ k hsize)
  have hmvalue := integer_value (m := m) (by omega)
  have hshort : m < 2 ^ 53 ∧ k ≤ 22 := ⟨hlt, hk⟩
  unfold Float.ofScientific
  rw [dif_pos hshort, if_pos rfl]
  change Float.ofModel (Float.Model.pack (UnpackedFloat.div .binary64
    m.toUInt64.toFloat.toModel.unpack _)) = _
  rw [toFloat_eq hm hlt, hunpack, hpower, div_eq _ _ hc (by rw [hmvalue, hvalue]; exact hr)]
  rfl

/-- The decimal is not so small that it is taken for zero. -/
theorem exponent_bound (hc : Canonical M E) (hr : RoundsTo (m / 10 ^ k) M E) :
    k ≤ 2 ^ 11 + m.log2 := by
  have hlow := hr.lower hc
  have hten : (2 : ℚ) ^ ((3 * k : ℕ) : Int) ≤ 10 ^ k := by
    rw [zpow_natCast, pow_mul]
    gcongr
    norm_num
  have hm : (m : ℚ) < 2 ^ ((m.log2 + 1 : ℕ) : Int) := by
    rw [zpow_natCast]
    exact_mod_cast Nat.lt_log2_self
  have hlt : (2 : ℚ) ^ ((-1075 : Int) + (3 * k : ℕ)) < 2 ^ ((m.log2 + 1 : ℕ) : Int) := by
    rw [zpow_add₀ (by norm_num)]
    have h10 : (0 : ℚ) < 10 ^ k := by positivity
    calc (2 : ℚ) ^ (-1075 : Int) * 2 ^ ((3 * k : ℕ) : Int)
        ≤ 2 ^ (-1075 : Int) * 10 ^ k := mul_le_mul_of_nonneg_left hten (le_of_lt (two_zpow_pos _))
      _ ≤ m / 10 ^ k * 10 ^ k := mul_le_mul_of_nonneg_right hlow (le_of_lt h10)
      _ = m := div_mul_cancel₀ _ (ne_of_gt h10)
      _ < _ := hm
  have := lt_of_two_zpow_lt hlt
  omega

/-- The general algorithm. -/
theorem ofScientific_long (hm : 0 < m) (hpos : 0 < k) (hlong : ¬ (m < 2 ^ 53 ∧ k ≤ 22))
    (hc : Canonical M E) (hr : RoundsTo (m / 10 ^ k) M E) :
    Float.ofScientific m true k = number hc := by
  have hbound := exponent_bound hc hr
  have hexp : (if true = true then Int.negOfNat k else Int.ofNat k) = -(k : Int) := by
    rw [if_pos rfl, Int.negOfNat_eq]
    rfl
  have hmodel : UnpackedFloat.ofScientific .binary64 m (-(k : Int)) =
      .finite .positive M E hc.pos := by
    unfold UnpackedFloat.ofScientific
    rw [dif_neg (Nat.ne_of_gt hm), if_neg (by norm_num),
      if_neg (by norm_num at hbound ⊢; omega), if_neg (by omega)]
    refine div_eq _ _ hc ?_
    simpa using hr
  unfold Float.ofScientific
  rw [dif_neg hlong, hexp, number, ← hmodel]
  rfl

/-- A decimal is read as the number in whose interval it lies. -/
theorem ofScientific_eq (hm : 0 < m) (hc : Canonical M E) (hE : E ≤ 971)
    (hr : RoundsTo (m / 10 ^ k) M E) : Float.ofScientific m (decide (0 < k)) k = number hc := by
  by_cases hpos : 0 < k
  · rw [decide_eq_true hpos]
    by_cases hshort : m < 2 ^ 53 ∧ k ≤ 22
    · exact ofScientific_short hm hshort.1 hshort.2 hc hr
    · exact ofScientific_long hm hpos hshort hc hr
  · obtain rfl : k = 0 := by omega
    exact ofScientific_times hm hc hE (by simpa using hr)

end Scripting.Rounding
