import Mathlib

/-!
Rounding to the nearest number of 53 bits. `Describes` says which rational an extended mantissa
stands for; shifting halves it. A rational that lies in the interval of the canonical number
`M · 2 ^ E` is rounded to that number.
-/

namespace Scripting.Rounding

open Float.Model Float.Model.UnpackedFloat

/-- An extended mantissa for the rational `v`: the bits behind the mantissa tell where `v` lies
between the mantissa and its successor. -/
structure Describes (em : ExtendedMantissa) (v : ℚ) : Prop where
  lower : (em.mantissa : ℚ) ≤ v
  upper : v < em.mantissa + 1
  round : em.roundBit = true ↔ (em.mantissa : ℚ) + 1 / 2 ≤ v
  sticky : em.stickyBit = true ↔ v ≠ em.mantissa ∧ v ≠ em.mantissa + 1 / 2

/-- Where a fraction lies between zero and one. -/
def Locates : Accuracy → ℚ → Prop
  | .exact, f => f = 0
  | .inexact .lt, f => 0 < f ∧ f < 1 / 2
  | .inexact .eq, f => f = 1 / 2
  | .inexact .gt, f => 1 / 2 < f ∧ f < 1

/-- The accuracy that is computed for a fraction tells where it lies. -/
theorem locates_fraction {num den : Nat} (hlt : num < den) :
    Locates (accuracyOfFraction num den) ((num : ℚ) / den) := by
  have hd : (0 : ℚ) < den := by exact_mod_cast Nat.zero_lt_of_lt hlt
  have hone : (num : ℚ) / den < 1 := (div_lt_one₀ hd).mpr (by exact_mod_cast hlt)
  unfold accuracyOfFraction
  split
  · rename_i hzero
    simp [Locates, hzero]
  · rename_i hne
    have hpos : (0 : ℚ) < num / den := div_pos (by exact_mod_cast Nat.pos_of_ne_zero hne) hd
    cases hcmp : compare (2 * num) den with
    | lt =>
      rw [Nat.compare_eq_lt] at hcmp
      have h : (2 : ℚ) * num < den := by exact_mod_cast hcmp
      refine ⟨hpos, (div_lt_iff₀ hd).mpr ?_⟩
      linarith
    | eq =>
      rw [Nat.compare_eq_eq] at hcmp
      have h : (2 : ℚ) * num = den := by exact_mod_cast hcmp
      refine (div_eq_iff (ne_of_gt hd)).mpr ?_
      linarith
    | gt =>
      rw [Nat.compare_eq_gt] at hcmp
      have h : (den : ℚ) < 2 * num := by exact_mod_cast hcmp
      refine ⟨(lt_div_iff₀ hd).mpr ?_, hone⟩
      linarith

namespace Describes

variable {em : ExtendedMantissa} {v : ℚ}

theorem inexact (h : Describes em v) : (em.roundBit || em.stickyBit) = true ↔ v ≠ em.mantissa := by
  rw [Bool.or_eq_true, h.round, h.sticky]
  constructor
  · rintro (hle | hne) heq
    · linarith
    · exact hne.1 heq
  · intro hne
    by_cases hhalf : v = em.mantissa + 1 / 2
    · exact .inl (le_of_eq hhalf.symm)
    · exact .inr ⟨hne, hhalf⟩

/-- A shift by one bit halves what an extended mantissa describes. -/
theorem shiftRightOne (h : Describes em v) : Describes em.shiftRightOne (v / 2) := by
  have hsplit : (em.mantissa : ℚ) = 2 * (em.mantissa / 2 : ℕ) + (em.mantissa % 2 : ℕ) := by
    exact_mod_cast (Nat.div_add_mod em.mantissa 2).symm
  have hlower := h.lower
  have hupper := h.upper
  have hbit : em.mantissa % 2 = 0 ∨ em.mantissa % 2 = 1 := Nat.mod_two_eq_zero_or_one _
  rcases hbit with hbit | hbit
  · rw [hbit, Nat.cast_zero, add_zero] at hsplit
    refine ⟨?_, ?_, ?_, ?_⟩
    · simp only [ExtendedMantissa.shiftRightOne]
      linarith
    · simp only [ExtendedMantissa.shiftRightOne]
      linarith
    · simp only [ExtendedMantissa.shiftRightOne, hbit, bne_self_eq_false, Bool.false_eq_true,
        false_iff, not_le]
      linarith
    · simp only [ExtendedMantissa.shiftRightOne]
      rw [h.inexact]
      constructor
      · intro hne
        refine ⟨fun heq => hne (by linarith), fun heq => ?_⟩
        linarith
      · rintro ⟨hne, -⟩ heq
        exact hne (by linarith)
  · rw [hbit, Nat.cast_one] at hsplit
    refine ⟨?_, ?_, ?_, ?_⟩
    · simp only [ExtendedMantissa.shiftRightOne]
      linarith
    · simp only [ExtendedMantissa.shiftRightOne]
      linarith
    · simp only [ExtendedMantissa.shiftRightOne, hbit]
      refine ⟨fun _ => by linarith, fun _ => rfl⟩
    · simp only [ExtendedMantissa.shiftRightOne]
      rw [h.inexact]
      constructor
      · intro hne
        refine ⟨fun heq => ?_, fun heq => hne (by linarith)⟩
        linarith
      · rintro ⟨-, hne⟩ heq
        exact hne (by linarith)

theorem shiftRight (h : Describes em v) (k : Nat) : Describes (em >>> k) (v / 2 ^ k) := by
  induction k with
  | zero => simpa [HShiftRight.hShiftRight, Nat.repeat] using h
  | succ k ih =>
    have hstep : em >>> (k + 1) = (em >>> k).shiftRightOne := rfl
    rw [hstep, pow_succ, ← div_div]
    exact ih.shiftRightOne

/-- The nearest integer, the even one of two. -/
theorem roundedMantissa (h : Describes em v) {M : Nat} (hlow : (M : ℚ) - 1 / 2 ≤ v)
    (hhigh : v ≤ M + 1 / 2) (hopen : M % 2 = 1 → (M : ℚ) - 1 / 2 < v ∧ v < M + 1 / 2) :
    em.roundedMantissa = M := by
  obtain ⟨m, round, sticky⟩ := em
  obtain ⟨hlower, hupper, hround, hsticky⟩ := h
  dsimp only at hlower hupper hround hsticky
  have hle : m ≤ M := by
    have : (m : ℚ) < M + 1 := by linarith
    exact Nat.lt_succ_iff.mp (by exact_mod_cast this)
  have hge : M ≤ m + 1 := by
    have : (M : ℚ) < m + 1 + 1 := by linarith
    exact Nat.lt_succ_iff.mp (by exact_mod_cast this)
  have hcases : M = m ∨ M = m + 1 := by omega
  -- At a tie the even one of the two integers is `M`.
  have htie : v = m + 1 / 2 → M % 2 = 0 := by
    intro hv
    by_contra hodd
    obtain ⟨hlt, hgt⟩ := hopen (by omega)
    rcases hcases with rfl | rfl
    · linarith
    · push_cast at hlt
      linarith
  rcases hcases with rfl | rfl
  · cases round with
    | false => cases sticky <;> rfl
    | true =>
      have hv : v = M + 1 / 2 := le_antisymm hhigh (hround.mp rfl)
      have heven := htie hv
      cases sticky with
      | true => exact absurd hv (hsticky.mp rfl).2
      | false =>
        change M + M % 2 = M
        omega
  · have hbit : round = true := hround.mpr (by push_cast at hlow; linarith)
    subst hbit
    cases sticky with
    | true => rfl
    | false =>
      have hv : v = m + 1 / 2 := by
        by_contra hne
        have hbit := hsticky.mpr ⟨fun heq => by push_cast at hlow; linarith, hne⟩
        cases hbit
      have heven := htie hv
      change m + m % 2 = m + 1
      omega

theorem of_locates {q : Nat} {f : ℚ} {a : Accuracy} (h : Locates a f) :
    Describes (.ofMantissaAndAccuracy q a) (q + f) := by
  cases a with
  | exact =>
    obtain rfl : f = 0 := h
    refine ⟨?_, ?_, ?_, ?_⟩ <;> simp [ExtendedMantissa.ofMantissaAndAccuracy]
  | inexact o =>
    cases o with
    | lt =>
      obtain ⟨hpos, hlt⟩ : 0 < f ∧ f < 1 / 2 := h
      refine ⟨?_, ?_, ?_, ?_⟩ <;> simp only [ExtendedMantissa.ofMantissaAndAccuracy]
      · linarith
      · linarith
      · exact iff_of_false Bool.false_ne_true (by linarith)
      · exact iff_of_true trivial ⟨fun heq => by linarith, fun heq => by linarith⟩
    | eq =>
      obtain rfl : f = 1 / 2 := h
      refine ⟨?_, ?_, ?_, ?_⟩ <;> simp only [ExtendedMantissa.ofMantissaAndAccuracy]
      · linarith
      · linarith
      · exact iff_of_true trivial le_rfl
      · exact iff_of_false Bool.false_ne_true fun hne => hne.2 rfl
    | gt =>
      obtain ⟨hgt, hlt⟩ : 1 / 2 < f ∧ f < 1 := h
      refine ⟨?_, ?_, ?_, ?_⟩ <;> simp only [ExtendedMantissa.ofMantissaAndAccuracy]
      · linarith
      · linarith
      · exact iff_of_true trivial (by linarith)
      · exact iff_of_true trivial ⟨fun heq => by linarith, fun heq => by linarith⟩

theorem of_exact (m : Nat) : Describes (.ofMantissaAndAccuracy m .exact) m := by
  have h : Locates .exact 0 := rfl
  simpa using of_locates (q := m) h

/-- The quotient of two integers with the accuracy that its remainder gives. -/
theorem of_fraction {num den : Nat} (hden : 0 < den) :
    Describes (.ofMantissaAndAccuracy (num / den) (accuracyOfFraction (num % den) den))
      ((num : ℚ) / den) := by
  have hsplit : (num : ℚ) / den = (num / den : ℕ) + ((num % den : ℕ) : ℚ) / den := by
    have hd : (den : ℚ) ≠ 0 := by exact_mod_cast Nat.ne_of_gt hden
    have h : (num : ℚ) = den * (num / den : ℕ) + (num % den : ℕ) := by
      exact_mod_cast (Nat.div_add_mod num den).symm
    rw [eq_comm, ← mul_right_inj' hd, mul_add, mul_div_cancel₀ _ hd, mul_div_cancel₀ _ hd, h]
  rw [hsplit]
  exact of_locates (locates_fraction (Nat.mod_lt num hden))

end Describes

/-- The numbers `M · 2 ^ E` with 53 bits, or with fewer at the least exponent. -/
structure Canonical (M : Nat) (E : Int) : Prop where
  pos : 0 < M
  lt : M < 2 ^ 53
  min : -1074 ≤ E
  full : 2 ^ 52 ≤ M ∨ E = -1074

/-- A rational in the interval of `M · 2 ^ E`. Below a power of two the next number is only half as
far away, unless it is the least power. -/
structure RoundsTo (V : ℚ) (M : Nat) (E : Int) : Prop where
  low : (M : ℚ) - 1 / 2 ≤ V / 2 ^ E
  high : V / 2 ^ E ≤ M + 1 / 2
  tight : M = 2 ^ 52 → E ≠ -1074 → (M : ℚ) - 1 / 4 ≤ V / 2 ^ E
  odd : M % 2 = 1 → (M : ℚ) - 1 / 2 < V / 2 ^ E ∧ V / 2 ^ E < M + 1 / 2

theorem two_zpow_pos (k : Int) : (0 : ℚ) < 2 ^ k := zpow_pos (by norm_num) k

theorem lt_of_two_zpow_lt {a b : Int} (h : (2 : ℚ) ^ a < 2 ^ b) : a < b :=
  (zpow_lt_zpow_iff_right₀ (by norm_num)).mp h

/-- What rounds to a positive number is not too small, -/
theorem RoundsTo.lower {V : ℚ} {M : Nat} {E : Int} (h : RoundsTo V M E) (hc : Canonical M E) :
    (2 : ℚ) ^ (-1075 : Int) ≤ V := by
  have hM : (1 : ℚ) ≤ M := by exact_mod_cast hc.pos
  have hhalf : (1 : ℚ) / 2 ≤ V / 2 ^ E := by linarith [h.low]
  have hle : (2 : ℚ) ^ (-1075 : Int) ≤ 1 / 2 * 2 ^ E := by
    have hpred : (1 / 2 : ℚ) * 2 ^ E = 2 ^ (E - 1) := by
      rw [zpow_sub_one₀ (by norm_num)]
      ring
    rw [hpred]
    have hmin := hc.min
    exact zpow_le_zpow_right₀ (by norm_num) (by omega)
  exact hle.trans ((le_div_iff₀ (two_zpow_pos E)).mp hhalf)

/-- and not too large. -/
theorem RoundsTo.upper {V : ℚ} {M : Nat} {E : Int} (h : RoundsTo V M E) (hc : Canonical M E) :
    V < 2 ^ (53 + E) := by
  have hM : (M : ℚ) + 1 ≤ 2 ^ 53 := by exact_mod_cast hc.lt
  have hhigh := h.high
  rw [zpow_add₀ (by norm_num), ← div_lt_iff₀ (two_zpow_pos E)]
  norm_num at hM ⊢
  linarith

theorem RoundsTo.pos {V : ℚ} {M : Nat} {E : Int} (h : RoundsTo V M E) (hc : Canonical M E) :
    0 < V :=
  (two_zpow_pos _).trans_le (h.lower hc)

theorem targetExponent_eq (T : Int) : Format.binary64.targetExponent T = max (T - 53) (-1074) := by
  simp only [Format.targetExponent, Format.mantissaBits, Format.minExponent]
  norm_num

theorem mantissa_ofMantissaAndAccuracy (m : Nat) (a : Accuracy) :
    (ExtendedMantissa.ofMantissaAndAccuracy m a).mantissa = m := by
  cases a with
  | exact => rfl
  | inexact o => cases o <;> rfl

section Round

variable {m : Nat} {e : Int} {a : Accuracy} {v : ℚ}
  (hd : Describes (.ofMantissaAndAccuracy m a) v)
include hd

/-- The leading bit bounds the value from above, -/
theorem lt_totalExponent : v * 2 ^ e < 2 ^ totalExponent m e := by
  have hupper := hd.upper
  rw [mantissa_ofMantissaAndAccuracy] at hupper
  have hlog : ((m + 1 : ℕ) : ℚ) ≤ 2 ^ (m.log2 + 1) := by exact_mod_cast Nat.lt_log2_self
  have hv : v < 2 ^ (m.log2 + 1) := by
    push_cast at hlog
    linarith
  have htotal : totalExponent m e = ((m.log2 + 1 : ℕ) : Int) + e := by
    simp [totalExponent]
  rw [htotal, zpow_add₀ (by norm_num), zpow_natCast]
  exact mul_lt_mul_of_pos_right hv (two_zpow_pos e)

/-- and from below. -/
theorem totalExponent_le (hm : m ≠ 0) : (2 : ℚ) ^ (totalExponent m e - 1) ≤ v * 2 ^ e := by
  have hlower := hd.lower
  rw [mantissa_ofMantissaAndAccuracy] at hlower
  have hlog : (2 : ℚ) ^ m.log2 ≤ m := by exact_mod_cast Nat.log2_self_le hm
  have htotal : totalExponent m e - 1 = (m.log2 : Int) + e := by
    simp only [totalExponent]
    omega
  rw [htotal, zpow_add₀ (by norm_num), zpow_natCast]
  exact mul_le_mul_of_nonneg_right (le_trans hlog hlower) (le_of_lt (two_zpow_pos e))

/-- The shift to the target exponent loses nothing that rounding asks for. -/
theorem shiftToTargetExponent_describes
    (he : e ≤ Format.binary64.targetExponent (totalExponent m e)) :
    (shiftToTargetExponent .binary64 m e a).2 =
        Format.binary64.targetExponent (totalExponent m e) ∧
      Describes (shiftToTargetExponent .binary64 m e a).1
        (v * 2 ^ e / 2 ^ Format.binary64.targetExponent (totalExponent m e)) := by
  obtain ⟨t, ht⟩ : ∃ t, t = Format.binary64.targetExponent (totalExponent m e) := ⟨_, rfl⟩
  rw [← ht] at he ⊢
  have hshift := hd.shiftRight (t - e).toNat
  have hk : ((t - e).toNat : Int) = t - e := Int.toNat_of_nonneg (by omega)
  have hscale : v * 2 ^ e / 2 ^ t = v / 2 ^ (t - e).toNat := by
    rw [← zpow_natCast, hk, zpow_sub₀ (by norm_num)]
    field_simp
  rw [hscale]
  simp only [shiftToTargetExponent, shiftToExponent, ← ht]
  exact ⟨by omega, hshift⟩

/-- A power of two above the value bounds the exponent as well, if it is above the least one. -/
theorem totalExponent_le_of_lt {b : Int}
    (he : e ≤ Format.binary64.targetExponent (totalExponent m e)) (hb : v * 2 ^ e < 2 ^ b)
    (hmin : -1074 < b) : totalExponent m e ≤ b := by
  by_cases hm : m = 0
  · subst hm
    rw [targetExponent_eq] at he
    simp only [totalExponent, Nat.log2_zero] at he ⊢
    omega
  · have hlt := lt_of_two_zpow_lt (lt_of_le_of_lt (totalExponent_le hd hm) hb)
    omega

omit hd in
/-- A value that rounds up to a full mantissa from below the power of two rounds to that power, and
it lies in the half of the interval that is narrower. -/
theorem RoundsTo.below_full {V : ℚ} {M : Nat} {E : Int} (hr : RoundsTo V M E) (hfull : 2 ^ 52 ≤ M)
    (hE : E ≠ -1074) (hV : V < 2 ^ (52 + E)) :
    M = 2 ^ 52 ∧ V / 2 ^ E < 2 ^ 52 ∧ 2 ^ (51 + E) ≤ V := by
  have hw : V / 2 ^ E < 2 ^ 52 := by
    rw [div_lt_iff₀ (two_zpow_pos E)]
    rw [zpow_add₀ (by norm_num)] at hV
    exact_mod_cast hV
  have hM : M = 2 ^ 52 := by
    have hlow := hr.low
    have hlt : (M : ℚ) < 2 ^ 52 + 1 := by linarith
    have : M < 2 ^ 52 + 1 := by exact_mod_cast hlt
    omega
  refine ⟨hM, hw, ?_⟩
  have htight := hr.tight hM hE
  rw [hM] at htight
  rw [zpow_add₀ (by norm_num), ← le_div_iff₀ (two_zpow_pos E)]
  norm_num at htight ⊢
  linarith

/-- The exponent of a rounded value is that of the number in whose interval it lies, or the one
below for a value just below a power of two. -/
theorem targetExponent_cases {M : Nat} {E : Int}
    (he : e ≤ Format.binary64.targetExponent (totalExponent m e)) (hc : Canonical M E)
    (hr : RoundsTo (v * 2 ^ e) M E) :
    Format.binary64.targetExponent (totalExponent m e) = E ∨
      M = 2 ^ 52 ∧ E ≠ -1074 ∧ v * 2 ^ e / 2 ^ E < 2 ^ 52 ∧
        Format.binary64.targetExponent (totalExponent m e) = E - 1 := by
  have hlt := lt_totalExponent hd (e := e)
  have hmin := hc.min
  have hT53 := totalExponent_le_of_lt hd he (hr.upper hc) (by omega)
  by_cases hE : E = -1074
  · left
    rw [targetExponent_eq]
    omega
  by_cases hpower : 2 ^ (52 + E) ≤ v * 2 ^ e
  · left
    have hT52 := lt_of_two_zpow_lt (lt_of_le_of_lt hpower hlt)
    rw [targetExponent_eq]
    omega
  · right
    rw [not_le] at hpower
    have hT52 := totalExponent_le_of_lt hd he hpower (by omega)
    obtain ⟨hM52, hw, hlow⟩ := hr.below_full (hc.full.resolve_right hE) hE hpower
    have hT51 := lt_of_two_zpow_lt (lt_of_le_of_lt hlow hlt)
    refine ⟨hM52, hE, hw, ?_⟩
    rw [targetExponent_eq]
    omega

end Round

/-- A canonical number needs no shift. -/
theorem shiftToTargetExponent_canonical {M : Nat} {E : Int} (hc : Canonical M E) :
    shiftToTargetExponent .binary64 M E .exact = (⟨M, false, false⟩, E) := by
  have hlog : M.log2 < 53 := (Nat.log2_lt (Nat.ne_of_gt hc.pos)).mpr hc.lt
  have hmin := hc.min
  have hshift : (Format.binary64.targetExponent (totalExponent M E) - E).toNat = 0 := by
    rw [targetExponent_eq, totalExponent]
    omega
  simp only [shiftToTargetExponent, shiftToExponent, hshift]
  simp [HShiftRight.hShiftRight, Nat.repeat, ExtendedMantissa.ofMantissaAndAccuracy]

/-- A mantissa that was rounded up to the next power of two is shifted once more. -/
theorem shiftToTargetExponent_carry {E : Int} (hE : -1074 < E) :
    shiftToTargetExponent .binary64 (2 ^ 53) (E - 1) .exact = (⟨2 ^ 52, false, false⟩, E) := by
  have hshift : (Format.binary64.targetExponent (totalExponent (2 ^ 53) (E - 1)) - (E - 1)).toNat =
      1 := by
    rw [targetExponent_eq, totalExponent, Nat.log2_two_pow]
    omega
  simp only [shiftToTargetExponent, shiftToExponent, hshift]
  simp [HShiftRight.hShiftRight, Nat.repeat, ExtendedMantissa.ofMantissaAndAccuracy,
    ExtendedMantissa.shiftRightOne]

/-- Rounding gives the number in whose interval the value lies. -/
theorem roundWithAccuracy_eq {m : Nat} {e : Int} {a : Accuracy} {v : ℚ} {M : Nat} {E : Int}
    (sign : Sign) (hd : Describes (.ofMantissaAndAccuracy m a) v)
    (he : e ≤ Format.binary64.targetExponent (totalExponent m e)) (hc : Canonical M E)
    (hr : RoundsTo (v * 2 ^ e) M E) :
    roundWithAccuracy .binary64 sign m e a = .finite sign M E hc.pos := by
  obtain ⟨hexp, hdesc⟩ := shiftToTargetExponent_describes hd he
  have hcases := targetExponent_cases hd he hc hr
  obtain ⟨t, ht⟩ : ∃ t, t = Format.binary64.targetExponent (totalExponent m e) := ⟨_, rfl⟩
  rw [← ht] at hexp hdesc hcases
  unfold roundWithAccuracy
  generalize shiftToTargetExponent .binary64 m e a = first at hexp hdesc
  obtain ⟨em, e₁⟩ := first
  dsimp only at hexp hdesc ⊢
  subst hexp
  rcases hcases with rfl | ⟨rfl, hE, hw, rfl⟩
  · have hrounded := hdesc.roundedMantissa hr.low hr.high hr.odd
    rw [hrounded, shiftToTargetExponent_canonical hc]
    exact dif_neg (Nat.ne_of_gt hc.pos)
  · have hmin := hc.min
    have hlow := hr.tight rfl hE
    have hhalf : v * 2 ^ e / 2 ^ (E - 1) = 2 * (v * 2 ^ e / 2 ^ E) := by
      rw [zpow_sub_one₀ (by norm_num)]
      field_simp
    have hrounded : em.roundedMantissa = 2 ^ 53 := by
      rw [hhalf] at hdesc
      push_cast at hlow
      refine hdesc.roundedMantissa ?_ ?_ fun hodd => ?_
      · push_cast
        linarith
      · push_cast
        linarith
      · norm_num at hodd
    rw [hrounded, shiftToTargetExponent_carry (by omega)]
    exact dif_neg (by norm_num)

theorem RoundsTo.refl {M : Nat} {E : Int} : RoundsTo (M * 2 ^ E) M E := by
  have h : (M : ℚ) * 2 ^ E / 2 ^ E = M := mul_div_cancel_right₀ _ (ne_of_gt (two_zpow_pos E))
  refine ⟨?_, ?_, fun _ _ => ?_, fun _ => ⟨?_, ?_⟩⟩ <;> rw [h] <;> linarith

/-- The exponent of a product with enough bits is not too large. -/
theorem le_targetExponent {m : Nat} (hm : 2 ^ 52 ≤ m) (e : Int) :
    e ≤ Format.binary64.targetExponent (totalExponent m e) := by
  have hlog : 52 ≤ m.log2 := (Nat.le_log2 (by omega)).mpr hm
  rw [targetExponent_eq, totalExponent]
  omega

theorem mul_eq {s₁ s₂ : Sign} {m₁ m₂ : Nat} {e₁ e₂ : Int} (h₁ : 0 < m₁) (h₂ : 0 < m₂) {M : Nat}
    {E : Int} (hm : 2 ^ 52 ≤ m₁ * m₂) (hc : Canonical M E)
    (hr : RoundsTo ((m₁ * 2 ^ e₁) * (m₂ * 2 ^ e₂)) M E) :
    mul .binary64 (.finite s₁ m₁ e₁ h₁) (.finite s₂ m₂ e₂ h₂) = .finite (s₁ * s₂) M E hc.pos := by
  have hvalue : ((m₁ * m₂ : ℕ) : ℚ) * 2 ^ (e₁ + e₂) = m₁ * 2 ^ e₁ * (m₂ * 2 ^ e₂) := by
    rw [zpow_add₀ (by norm_num)]
    push_cast
    ring
  rw [← hvalue] at hr
  exact roundWithAccuracy_eq _ (.of_exact _) (le_targetExponent hm _) hc hr

/-- The quotient of two numbers is the number that the exact quotient rounds to. -/
theorem div_eq {s₁ s₂ : Sign} {m₁ m₂ : Nat} {e₁ e₂ : Int} (h₁ : 0 < m₁) (h₂ : 0 < m₂) {M : Nat}
    {E : Int} (hc : Canonical M E) (hr : RoundsTo (m₁ * 2 ^ e₁ / (m₂ * 2 ^ e₂)) M E) :
    div .binary64 (.finite s₁ m₁ e₁ h₁) (.finite s₂ m₂ e₂ h₂) = .finite (s₁ / s₂) M E hc.pos := by
  obtain ⟨t, ht⟩ : ∃ t, t = min (e₁ - e₂)
    (Format.binary64.targetExponent (totalExponent m₁ e₁ - totalExponent m₂ e₂)) := ⟨_, rfl⟩
  have hd : Describes (.ofMantissaAndAccuracy ((m₁ <<< (e₁ - e₂ - t).toNat) / m₂)
      (accuracyOfFraction ((m₁ <<< (e₁ - e₂ - t).toNat) % m₂) m₂)) _ := Describes.of_fraction h₂
  have hk : ((e₁ - e₂ - t).toNat : Int) = e₁ - e₂ - t := Int.toNat_of_nonneg (by omega)
  have hvalue : ((m₁ <<< (e₁ - e₂ - t).toNat : ℕ) : ℚ) / m₂ * 2 ^ t =
      m₁ * 2 ^ e₁ / (m₂ * 2 ^ e₂) := by
    rw [Nat.shiftLeft_eq, Nat.cast_mul, Nat.cast_pow, ← zpow_natCast, hk, Nat.cast_ofNat,
      zpow_sub₀ (by norm_num), zpow_sub₀ (by norm_num)]
    field_simp
  -- The quotient has at least as many bits as the difference of the exponents says.
  have hle : t ≤ Format.binary64.targetExponent
      (totalExponent ((m₁ <<< (e₁ - e₂ - t).toNat) / m₂) t) := by
    have hlt := lt_totalExponent hd (e := t)
    rw [hvalue] at hlt
    have hlow := totalExponent_le (.of_exact m₁) (e := e₁) (Nat.ne_of_gt h₁)
    have hhigh := lt_totalExponent (.of_exact m₂) (e := e₂)
    have hpos : (0 : ℚ) < m₂ * 2 ^ e₂ :=
      mul_pos (by exact_mod_cast h₂) (two_zpow_pos e₂)
    have hquotient : (2 : ℚ) ^ (totalExponent m₁ e₁ - 1 - totalExponent m₂ e₂) <
        m₁ * 2 ^ e₁ / (m₂ * 2 ^ e₂) := by
      rw [zpow_sub₀ (by norm_num)]
      exact div_lt_div₀' hlow hhigh (lt_of_lt_of_le (two_zpow_pos _) hlow) hpos
    have hexp := lt_of_two_zpow_lt (hquotient.trans hlt)
    rw [targetExponent_eq] at ht ⊢
    omega
  rw [← hvalue] at hr
  simp only [UnpackedFloat.div, divCore, ← ht]
  exact roundWithAccuracy_eq _ hd hle hc hr

end Scripting.Rounding
