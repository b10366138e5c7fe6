import Scripting.Number.Shortest
import Scripting.Proofs.Number.Rounding

/-!
The shortest decimal of a number lies in the interval of the number. The search ends with a point of
the interval, since a grid of decimals with seventeen digits is finer than the numbers are dense.
-/

namespace Scripting.Shortest

open Rounding

theorem ten_zpow_pos (k : Int) : (0 : ℚ) < 10 ^ k := zpow_pos (by norm_num) k

theorem zpow_toNat {b : ℚ} (hb : b ≠ 0) (k : Int) :
    b ^ k.toNat = b ^ k * b ^ (-k).toNat := by
  rw [← zpow_natCast, ← zpow_natCast, ← zpow_add₀ hb]
  congr 1
  omega

/-- The factor of the scale that decimals and binaries share. -/
def scale (exponent power : Int) : ℚ := 10 ^ (-power).toNat * 2 ^ (2 - exponent).toNat

theorem scale_pos (exponent power : Int) : 0 < scale exponent power := by
  unfold scale
  positivity

theorem scaleDecimal_eq (exponent power : Int) (d : Nat) :
    (scaleDecimal exponent power d : ℚ) = d * 10 ^ power * scale exponent power := by
  have h := zpow_toNat (b := 10) (by norm_num) power
  simp only [scaleDecimal, tenTo, twoTo, Nat.pow_eq, scale]
  push_cast
  rw [h]
  ring

theorem scaleBinary_eq (exponent power : Int) (b : Nat) :
    (scaleBinary exponent power b : ℚ) = b * 2 ^ (exponent - 2) * scale exponent power := by
  have h := zpow_toNat (b := 2) (by norm_num) (exponent - 2)
  rw [neg_sub] at h
  simp only [scaleBinary, tenTo, twoTo, Nat.pow_eq, scale]
  push_cast
  rw [h]
  ring

/-- Comparing in the shared scale is comparing the quarter units of the number. -/
theorem binary_lt_decimal {exponent power : Int} {b d : Nat} :
    scaleBinary exponent power b < scaleDecimal exponent power d ↔
      (b : ℚ) / 4 < d * 10 ^ power / 2 ^ exponent := by
  have hquarter : (b : ℚ) * 2 ^ (exponent - 2) = b / 4 * 2 ^ exponent := by
    rw [zpow_sub₀ (by norm_num)]
    norm_num
    ring
  have hcast : scaleBinary exponent power b < scaleDecimal exponent power d ↔
      (scaleBinary exponent power b : ℚ) < scaleDecimal exponent power d := Nat.cast_lt.symm
  rw [hcast, scaleDecimal_eq, scaleBinary_eq, mul_lt_mul_iff_left₀ (scale_pos _ _), hquarter,
    lt_div_iff₀ (two_zpow_pos exponent)]

theorem decimal_lt_binary {exponent power : Int} {b d : Nat} :
    scaleDecimal exponent power d < scaleBinary exponent power b ↔
      (d : ℚ) * 10 ^ power / 2 ^ exponent < b / 4 := by
  have hquarter : (b : ℚ) * 2 ^ (exponent - 2) = b / 4 * 2 ^ exponent := by
    rw [zpow_sub₀ (by norm_num)]
    norm_num
    ring
  have hcast : scaleDecimal exponent power d < scaleBinary exponent power b ↔
      (scaleDecimal exponent power d : ℚ) < scaleBinary exponent power b := Nat.cast_lt.symm
  rw [hcast, scaleDecimal_eq, scaleBinary_eq, mul_lt_mul_iff_left₀ (scale_pos _ _), hquarter,
    div_lt_iff₀ (two_zpow_pos exponent)]

variable {M : Nat} {E : Int} {power : Int} {d : Nat}

/-- What it means for a decimal to lie in the interval, in rationals. -/
theorem contains_iff (i : Interval) : i.contains power d = true ↔
    if i.closed then
      (i.low : ℚ) / 4 ≤ d * 10 ^ power / 2 ^ i.exponent ∧
        (d : ℚ) * 10 ^ power / 2 ^ i.exponent ≤ i.high / 4
    else
      (i.low : ℚ) / 4 < d * 10 ^ power / 2 ^ i.exponent ∧
        (d : ℚ) * 10 ^ power / 2 ^ i.exponent < i.high / 4 := by
  unfold Interval.contains
  cases i.closed with
  | true =>
    simp only [if_true, Bool.and_eq_true, decide_eq_true_eq]
    rw [← not_lt, ← not_lt, decimal_lt_binary, binary_lt_decimal, not_lt, not_lt]
  | false =>
    simp only [Bool.false_eq_true, if_false, Bool.and_eq_true, decide_eq_true_eq]
    rw [decimal_lt_binary, binary_lt_decimal]

theorem contains_of_iff : (Interval.of ⟨false, M, E⟩).contains power d = true ↔
    if M % 2 = 0 then
      ((Interval.of ⟨false, M, E⟩).low : ℚ) / 4 ≤ d * 10 ^ power / 2 ^ E ∧
        (d : ℚ) * 10 ^ power / 2 ^ E ≤ ((4 * M + 2 : ℕ) : ℚ) / 4
    else
      ((Interval.of ⟨false, M, E⟩).low : ℚ) / 4 < d * 10 ^ power / 2 ^ E ∧
        (d : ℚ) * 10 ^ power / 2 ^ E < ((4 * M + 2 : ℕ) : ℚ) / 4 := by
  have hclosed : (Interval.of ⟨false, M, E⟩).closed = (M % 2 == 0) := rfl
  rw [contains_iff, hclosed]
  simp only [beq_iff_eq]
  rfl

theorem low_eq (hM : 0 < M) : ((Interval.of ⟨false, M, E⟩).low : ℚ) / 4 =
    M - if M = 2 ^ 52 ∧ E ≠ -1074 then 1 / 4 else 1 / 2 := by
  have h52 : twoTo 52 = 2 ^ 52 := rfl
  simp only [Interval.of, h52, Bool.and_eq_true, beq_iff_eq, bne_iff_ne]
  split
  · rw [Nat.cast_sub (by omega)]
    push_cast
    ring
  · rw [Nat.cast_sub (by omega)]
    push_cast
    ring

/-- A point of the interval of a number rounds to it. -/
theorem roundsTo_of_contains (hM : 0 < M)
    (h : (Interval.of ⟨false, M, E⟩).contains power d = true) :
    RoundsTo (d * 10 ^ power) M E := by
  rw [contains_of_iff, low_eq hM] at h
  push_cast at h
  have hweak : (M : ℚ) - (if M = 2 ^ 52 ∧ E ≠ -1074 then 1 / 4 else 1 / 2) ≤
      d * 10 ^ power / 2 ^ E ∧ (d : ℚ) * 10 ^ power / 2 ^ E ≤ (4 * M + 2) / 4 := by
    split at h
    · exact h
    · exact ⟨le_of_lt h.1, le_of_lt h.2⟩
  have hhalf : (if M = 2 ^ 52 ∧ E ≠ -1074 then (1 : ℚ) / 4 else 1 / 2) ≤ 1 / 2 := by
    split <;> norm_num
  refine ⟨by linarith [hweak.1], by linarith [hweak.2], fun h52 hE => ?_, fun hodd => ?_⟩
  · rw [if_pos ⟨h52, hE⟩] at hweak
    exact hweak.1
  · rw [if_neg (by omega)] at h
    exact ⟨by linarith [h.1], by linarith [h.2]⟩

/-- A decimal that is near enough is a point of the interval. -/
theorem contains_of_near (hM : 0 < M)
    (hlow : (M : ℚ) - (if M = 2 ^ 52 then 1 / 4 else 1 / 2) < d * 10 ^ power / 2 ^ E)
    (hhigh : (d : ℚ) * 10 ^ power / 2 ^ E < M + 1 / 2) :
    (Interval.of ⟨false, M, E⟩).contains power d = true := by
  rw [contains_of_iff, low_eq hM]
  push_cast
  have hend : (if M = 2 ^ 52 then (1 : ℚ) / 4 else 1 / 2) ≤
      if M = 2 ^ 52 ∧ E ≠ -1074 then 1 / 4 else 1 / 2 := by
    by_cases h52 : M = 2 ^ 52
    · rw [if_pos h52]
      split <;> norm_num
    · rw [if_neg h52, if_neg fun h => h52 h.1]
  split
  · exact ⟨by linarith, by linarith⟩
  · exact ⟨by linarith, by linarith⟩

/-- The estimate of the decimal logarithm, for numbers from one on, -/
theorem log_estimate : ∀ n < 1024, 10 ^ (n * 30103 / 100000) ≤ 10 * 2 ^ n := by
  decide +kernel

/-- and for numbers below one. -/
theorem log_estimate_neg : ∀ n < 1075, 2 ^ n ≤ 10 ^ ((n * 30103 + 99999) / 100000 + 1) := by
  decide +kernel

/-- The estimate of the decimal exponent is at most one too small. -/
theorem estimate_le {L : Int} (hlow : -1074 ≤ L) (hhigh : L < 1024) :
    (10 : ℚ) ^ ((L * 30103).fdiv 100000 - 1) ≤ 2 ^ L := by
  by_cases hL : 0 ≤ L
  · obtain ⟨n, rfl⟩ := Int.eq_ofNat_of_zero_le hL
    have hn := log_estimate n (by omega)
    have hdiv : ((n : Int) * 30103).fdiv 100000 = (n * 30103 / 100000 : ℕ) := by
      rw [Int.fdiv_eq_ediv_of_nonneg _ (by norm_num)]
      omega
    have hq : (10 : ℚ) ^ (n * 30103 / 100000) ≤ 10 * 2 ^ n := by exact_mod_cast hn
    rw [hdiv, zpow_sub_one₀ (by norm_num), zpow_natCast, zpow_natCast]
    linarith
  · obtain ⟨n, hn⟩ : ∃ n : ℕ, L = -n := ⟨(-L).toNat, by omega⟩
    subst hn
    have hbound := log_estimate_neg n (by omega)
    have hdiv : (-(n : Int) * 30103).fdiv 100000 - 1 =
        -(((n * 30103 + 99999) / 100000 + 1 : ℕ) : Int) := by
      rw [Int.fdiv_eq_ediv_of_nonneg _ (by norm_num)]
      push_cast
      omega
    have hq : (2 : ℚ) ^ n ≤ 10 ^ ((n * 30103 + 99999) / 100000 + 1) := by exact_mod_cast hbound
    rw [hdiv, zpow_neg, zpow_neg, zpow_natCast, zpow_natCast]
    exact inv_anti₀ (by positivity) hq

/-- A number is at least the power of ten below its own. -/
theorem decimalPower_le (hc : Canonical M E) (hE : E ≤ 971) :
    (10 : ℚ) ^ (decimalPower ⟨false, M, E⟩ - 1) ≤ M * 2 ^ E := by
  have hbelow : ∀ power, below ⟨false, M, E⟩ power = false → (10 : ℚ) ^ power ≤ M * 2 ^ E := by
    intro power h
    simp only [below, decide_eq_false_iff_not, binary_lt_decimal, not_lt] at h
    rw [div_le_iff₀ (two_zpow_pos E)] at h
    push_cast at h
    linarith
  unfold decimalPower
  dsimp only
  split
  · have hlt : M.log2 < 53 := (Nat.log2_lt (Nat.ne_of_gt hc.pos)).mpr hc.lt
    have hmin := hc.min
    refine (estimate_le (by omega) (by omega)).trans ?_
    rw [zpow_add₀ (by norm_num), zpow_natCast]
    have hlog : (2 : ℚ) ^ M.log2 ≤ M := by exact_mod_cast Nat.log2_self_le (Nat.ne_of_gt hc.pos)
    exact mul_le_mul_of_nonneg_right hlog (le_of_lt (two_zpow_pos E))
  · rename_i hlow
    split
    · rw [add_sub_cancel_right]
      exact hbelow _ (by simpa using hlow)
    · rename_i hnext
      rw [show ∀ x : Int, x + 2 - 1 = x + 1 by intro x; omega]
      exact hbelow _ (by simpa using hnext)

/-- How many units are nearest to a value, the even number of two. -/
def nearest (value unit : Nat) : Nat :=
  if 2 * (value % unit) < unit then value / unit
  else if unit < 2 * (value % unit) then value / unit + 1
  else if value / unit % 2 == 0 then value / unit else value / unit + 1

/-- The nearest unit is at most half a unit away. -/
theorem nearest_near (value : Nat) {unit : Nat} (hunit : 0 < unit) :
    2 * value ≤ (2 * nearest value unit + 1) * unit ∧
      2 * nearest value unit * unit ≤ 2 * value + unit := by
  have hsplit := Nat.div_add_mod value unit
  have hmod := Nat.mod_lt value hunit
  unfold nearest
  generalize value / unit = q at hsplit ⊢
  generalize value % unit = m at hsplit hmod ⊢
  split
  · constructor <;> nlinarith
  · split
    · constructor <;> nlinarith
    · split
      · constructor <;> nlinarith
      · constructor <;> nlinarith

/-- A grid is tried at the nearest point first and then at a second one. -/
theorem onGrid?_eq (i : Interval) (top : Int) (count : Nat) :
    ∃ farther, onGrid? i top count =
      if i.contains (top - count) (nearest (scaleBinary i.exponent (top - count) (4 * i.mantissa))
          (scaleDecimal i.exponent (top - count) 1)) then
        some (nearest (scaleBinary i.exponent (top - count) (4 * i.mantissa))
          (scaleDecimal i.exponent (top - count) 1))
      else if i.contains (top - count) farther then some farther else none :=
  ⟨_, rfl⟩

theorem onGrid?_of_contains {i : Interval} {top : Int} {count : Nat}
    (h : i.contains (top - count) (nearest
      (scaleBinary i.exponent (top - count) (4 * i.mantissa))
      (scaleDecimal i.exponent (top - count) 1)) = true) : onGrid? i top count ≠ none := by
  obtain ⟨farther, heq⟩ := onGrid?_eq i top count
  rw [heq, if_pos h]
  exact Option.some_ne_none _

/-- In the last places of the number, the nearest point of a grid is at most half a step away. -/
theorem nearest_of_grid (M : Nat) {E power : Int} {step : ℚ} (hstep : step = 10 ^ power / 2 ^ E) :
    2 * (M : ℚ) ≤
        (2 * nearest (scaleBinary E power (4 * M)) (scaleDecimal E power 1) + 1) * step ∧
      2 * nearest (scaleBinary E power (4 * M)) (scaleDecimal E power 1) * step ≤
        2 * (M : ℚ) + step := by
  have hscale : 0 < 2 ^ E * scale E power := mul_pos (two_zpow_pos E) (scale_pos E power)
  have hten : (10 : ℚ) ^ power = step * 2 ^ E := by
    rw [hstep, div_mul_cancel₀ _ (ne_of_gt (two_zpow_pos E))]
  have hdecimal : (scaleDecimal E power 1 : ℚ) = step * (2 ^ E * scale E power) := by
    rw [scaleDecimal_eq, hten]
    push_cast
    ring
  have hbinary : (scaleBinary E power (4 * M) : ℚ) = M * (2 ^ E * scale E power) := by
    rw [scaleBinary_eq, zpow_sub₀ (by norm_num)]
    push_cast
    ring
  have hpos : 0 < scaleDecimal E power 1 := by
    have hpos : (0 : ℚ) < scaleDecimal E power 1 := by
      rw [hdecimal, hstep]
      exact mul_pos (div_pos (ten_zpow_pos _) (two_zpow_pos E)) hscale
    exact_mod_cast hpos
  obtain ⟨hlow, hhigh⟩ := nearest_near (scaleBinary E power (4 * M)) hpos
  generalize nearest (scaleBinary E power (4 * M)) (scaleDecimal E power 1) = n at hlow hhigh ⊢
  constructor
  · have hlow' : (2 * scaleBinary E power (4 * M) : ℚ) ≤ (2 * n + 1) * scaleDecimal E power 1 := by
      exact_mod_cast hlow
    rw [hdecimal, hbinary] at hlow'
    exact le_of_mul_le_mul_right (by linarith) hscale
  · have hhigh' : (2 * n * scaleDecimal E power 1 : ℚ) ≤
        2 * scaleBinary E power (4 * M) + scaleDecimal E power 1 := by
      exact_mod_cast hhigh
    rw [hdecimal, hbinary] at hhigh'
    exact le_of_mul_le_mul_right (by linarith) hscale

/-- The nearest decimal of a grid whose unit is small enough is a point of the interval. -/
theorem contains_nearest (hM : 0 < M)
    (hunit : (10 : ℚ) ^ power / 2 ^ E < if M = 2 ^ 52 then 1 / 2 else 1) :
    (Interval.of ⟨false, M, E⟩).contains power
      (nearest (scaleBinary E power (4 * M)) (scaleDecimal E power 1)) = true := by
  obtain ⟨step, hstep⟩ : ∃ step : ℚ, step = 10 ^ power / 2 ^ E := ⟨_, rfl⟩
  obtain ⟨hlow, hhigh⟩ := nearest_of_grid M hstep
  generalize nearest (scaleBinary E power (4 * M)) (scaleDecimal E power 1) = n at hlow hhigh ⊢
  have hpoint : (n : ℚ) * 10 ^ power / 2 ^ E = n * step := by rw [hstep, mul_div_assoc]
  rw [← hstep] at hunit
  have hsmall : step < 1 := by
    split at hunit <;> linarith
  apply contains_of_near hM
  · rw [hpoint]
    split at hunit
    · rename_i h52
      rw [if_pos h52]
      linarith
    · rename_i h52
      rw [if_neg h52]
      linarith
  · rw [hpoint]
    linarith

/-- Seventeen digits suffice. -/
theorem onGrid?_seventeen (hc : Canonical M E) (hE : E ≤ 971) :
    onGrid? (Interval.of ⟨false, M, E⟩) (decimalPower ⟨false, M, E⟩) 17 ≠ none := by
  have htop := decimalPower_le hc hE
  generalize decimalPower ⟨false, M, E⟩ = top at htop ⊢
  apply onGrid?_of_contains
  apply contains_nearest hc.pos
  have hunit : (10 : ℚ) ^ (top - (17 : ℕ)) / 2 ^ E ≤ M / 10 ^ 16 := by
    have hsplit : (10 : ℚ) ^ (top - (17 : ℕ)) = 10 ^ (top - 1) / 10 ^ 16 := by
      rw [show top - ((17 : ℕ) : Int) = top - 1 - 16 by omega, zpow_sub₀ (by norm_num)]
      norm_num
    rw [hsplit, div_le_iff₀ (two_zpow_pos E)]
    linarith
  have hM : (M : ℚ) < 2 ^ 53 := by exact_mod_cast hc.lt
  split
  · rename_i h52
    have hq : (M : ℚ) = 2 ^ 52 := by exact_mod_cast h52
    rw [hq] at hunit
    norm_num at hunit ⊢
    linarith
  · norm_num at hunit ⊢
    linarith

theorem contains_of_onGrid? {i : Interval} {top : Int} {count : Nat}
    (h : onGrid? i top count = some d) : i.contains (top - count) d = true := by
  obtain ⟨farther, heq⟩ := onGrid?_eq i top count
  rw [heq] at h
  split at h
  · rename_i hnear
    cases h
    exact hnear
  · split at h
    · rename_i hfar
      cases h
      exact hfar
    · cases h

/-- The search ends with a point of the interval. -/
theorem contains_search {i : Interval} {top : Int} {steps count n : Nat} (hn : n < steps)
    (h : onGrid? i top (count + n) ≠ none) :
    i.contains (search i top steps count).2 (search i top steps count).1 = true := by
  induction steps generalizing count n with
  | zero => omega
  | succ steps ih =>
    rw [search]
    cases hgrid : onGrid? i top count with
    | some d => exact contains_of_onGrid? hgrid
    | none =>
      cases n with
      | zero => exact absurd hgrid h
      | succ n =>
        apply ih (n := n) (by omega)
        rwa [Nat.add_assoc, Nat.add_comm 1 n]

theorem roundsTo_search (hc : Canonical M E) (hE : E ≤ 971) :
    RoundsTo
      ((search (Interval.of ⟨false, M, E⟩) (decimalPower ⟨false, M, E⟩) 17 1).1 *
        10 ^ (search (Interval.of ⟨false, M, E⟩) (decimalPower ⟨false, M, E⟩) 17 1).2) M E := by
  apply roundsTo_of_contains hc.pos
  exact contains_search (n := 16) (by omega) (onGrid?_seventeen hc hE)

end Scripting.Shortest
