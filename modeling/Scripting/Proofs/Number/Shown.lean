import Scripting.Proofs.Number.Numeral
import Scripting.Proofs.Number.Signs

/-!
The text of a number in stored trees. It is a numeral with a point or an exponent whose decimal
lies in the interval of the number, behind a minus sign where the number has one.
-/

namespace Scripting.Number

open Rounding

variable {M : Nat} {E : Int} {D : Nat}

/-- A decimal with zeros at its end is read as the number in whose interval it lies. -/
theorem ofDecimal_times {k : Nat} (hD : 0 < D) (hc : Canonical M E) (hE : E ≤ 971)
    (hr : RoundsTo (D * 10 ^ k) M E) : ofDecimal D k = number hc := by
  obtain ⟨size, hsize⟩ : ∃ size, size = (Nat.toDigits 10 D).length := ⟨_, rfl⟩
  have hlarge : ¬ (400 < (size : Int) + (k : Int)) := by
    intro h
    have hlong : 10 ^ (size - 1) ≤ D := by
      by_contra hless
      rcases Nat.eq_zero_or_pos (size - 1) with hone | hmore
      · rw [hone, pow_zero] at hless
        omega
      · have := (Nat.length_toDigits_le_iff (by decide) hmore).mpr (Nat.lt_of_not_le hless)
        omega
    have hq : (10 : ℚ) ^ 400 ≤ D * 10 ^ k := by
      calc (10 : ℚ) ^ 400 ≤ 10 ^ (size - 1 + k) := pow_le_pow_right₀ (by norm_num) (by omega)
        _ = 10 ^ (size - 1) * 10 ^ k := pow_add _ _ _
        _ ≤ D * 10 ^ k := mul_le_mul_of_nonneg_right (by exact_mod_cast hlong) (by positivity)
    exact absurd (hq.trans_lt (hr.upper hc)) (not_lt.mpr (le_of_lt (two_zpow_lt (by omega))))
  have hsmall : ¬ ((size : Int) + (k : Int) < -400) := by omega
  have hsign : decide ((k : Int) < 0) = false := by
    rw [decide_eq_false_iff_not]
    omega
  unfold ofDecimal
  rw [← hsize]
  simp only [hlarge, hsmall, hsign, if_false, beq_iff_eq, Nat.ne_of_gt hD, Int.natAbs_natCast]
  exact ofScientific_times hD hc hE hr

theorem ofDecimal_zpow {power : Int} (hc : Canonical M E) (hE : E ≤ 971)
    (hr : RoundsTo (D * 10 ^ power) M E) : ofDecimal D power = number hc := by
  have hD : 0 < D := Nat.pos_of_ne_zero fun hzero => by simpa [hzero] using hr.pos hc
  by_cases hpower : 0 ≤ power
  · obtain ⟨k, rfl⟩ := Int.eq_ofNat_of_zero_le hpower
    exact ofDecimal_times hD hc hE (by simpa using hr)
  · obtain ⟨k, rfl⟩ : ∃ k : Nat, power = -(k : Int) := ⟨power.natAbs, by omega⟩
    refine ofDecimal_eq hD hc hE ?_
    rwa [zpow_neg, zpow_natCast, ← div_eq_mul_inv] at hr

/-- A numeral: its digits before the point, those behind it, and the sign and the digits of an
exponent. -/
structure Numeral where
  whole : List Char
  fraction : List Char
  exponent : Option (Bool × List Char)

namespace Numeral

def exponentText : Option (Bool × List Char) → List Char
  | none => []
  | some (negative, ds) => 'e' :: (if negative then '-' else '+') :: ds

def fractionText (ds : List Char) : List Char := if ds.isEmpty then [] else '.' :: ds

def text (n : Numeral) : List Char :=
  n.whole ++ (fractionText n.fraction ++ exponentText n.exponent)

def exponentValue : Option (Bool × List Char) → Int
  | none => 0
  | some (negative, ds) => if negative then -(value ds : Int) else value ds

def digits (n : Numeral) : Nat := value (n.whole ++ n.fraction)

def power (n : Numeral) : Int := exponentValue n.exponent - n.fraction.length

/-- A numeral that is no integer: its digits are digits, a zero at the front stands alone, and it
has a point or an exponent. -/
structure Proper (n : Numeral) : Prop where
  whole : AllDigits n.whole
  fraction : AllDigits n.fraction
  nonempty : n.whole ≠ []
  zero : n.whole = ['0'] ∨ n.whole.head? ≠ some '0'
  exponent : ∀ negative ds, n.exponent = some (negative, ds) → AllDigits ds ∧ ds ≠ []
  fractional : n.fraction ≠ [] ∨ n.exponent ≠ none

end Numeral

theorem AllDigits.contains_point {cs : List Char} (h : AllDigits cs) : cs.contains '.' = false := by
  rw [List.contains_eq_mem, decide_eq_false_iff_not]
  intro hmem
  exact absurd (h '.' hmem) (by decide)

theorem value_zero : value ['0'] = 0 := value_zeros 1

section Positional

variable {ds : List Char} (hds : AllDigits ds)
include hds

/-- A numeral below one, -/
theorem numeral_small (hne : ds ≠ []) (zeros : Nat) :
    let n : Numeral := ⟨['0'], List.replicate zeros '0' ++ ds, none⟩
    n.Proper ∧ (n.digits : ℚ) * 10 ^ n.power = value ds * 10 ^ (-(zeros : Int) - ds.length) := by
  refine ⟨⟨AllDigits.zeros 1, (AllDigits.zeros zeros).append hds, List.cons_ne_nil _ _, .inl rfl,
    by simp, .inl (by simp [hne])⟩, ?_⟩
  simp only [Numeral.digits, Numeral.power, Numeral.exponentValue]
  rw [value_append, value_append, value_zeros, value_zero, Nat.zero_mul, Nat.zero_mul,
    Nat.zero_add, Nat.zero_add]
  congr 2
  simp
  omega

/-- one without digits of its own behind the point, -/
theorem numeral_whole (hne : ds ≠ []) (hfirst : ds.head? ≠ some '0') (zeros : Nat) :
    let n : Numeral := ⟨ds ++ List.replicate zeros '0', ['0'], none⟩
    n.Proper ∧ (n.digits : ℚ) * 10 ^ n.power = value ds * 10 ^ (zeros : Int) := by
  have hhead : (ds ++ List.replicate zeros '0').head? ≠ some '0' := by
    rwa [List.head?_append, Option.or_of_isSome (by simp [hne])]
  refine ⟨⟨hds.append (AllDigits.zeros zeros), AllDigits.zeros 1, by simp [hne], .inr hhead,
    by simp, .inl (List.cons_ne_nil _ _)⟩, ?_⟩
  simp only [Numeral.digits, Numeral.power, Numeral.exponentValue]
  rw [value_append, value_append, value_zeros, value_zero, List.length_replicate, zpow_natCast]
  push_cast
  norm_num
  ring

/-- and one with digits on both sides. -/
theorem numeral_split (hfirst : ds.head? ≠ some '0') {k : Nat} (hk : 0 < k) (hlt : k < ds.length) :
    let n : Numeral := ⟨ds.take k, ds.drop k, none⟩
    n.Proper ∧ (n.digits : ℚ) * 10 ^ n.power = value ds * 10 ^ ((k : Int) - ds.length) := by
  have hws := hds.of_subset fun c => List.mem_of_mem_take (i := k)
  have hfs := hds.of_subset fun c => List.mem_of_mem_drop (i := k)
  have htake : ds.take k ≠ [] := by
    rw [Ne, List.take_eq_nil_iff]
    rintro (rfl | rfl)
    · exact Nat.lt_irrefl _ hk
    · exact Nat.not_lt_zero _ hlt
  have hhead : (ds.take k).head? ≠ some '0' := by
    rwa [List.head?_take, if_neg (Nat.ne_of_gt hk)]
  have hdrop : ds.drop k ≠ [] := by
    rw [Ne, List.drop_eq_nil_iff]
    exact Nat.not_le.mpr hlt
  refine ⟨⟨hws, hfs, htake, .inr hhead, by simp, .inl hdrop⟩, ?_⟩
  simp only [Numeral.digits, Numeral.power, Numeral.exponentValue, List.take_append_drop,
    List.length_drop]
  congr 2
  omega

/-- A decimal without exponent, with a point in any case. -/
theorem positional_numeral (hne : ds ≠ []) (hfirst : ds.head? ≠ some '0') (point : Int) :
    ∃ n : Numeral, n.Proper ∧
      (if (positional ⟨ds, point⟩).contains '.' then positional ⟨ds, point⟩
        else positional ⟨ds, point⟩ ++ ".0".toList) = n.text ∧
      (n.digits : ℚ) * 10 ^ n.power = value ds * 10 ^ (point - ds.length) := by
  simp only [positional]
  split
  · rename_i hpoint
    obtain ⟨hproper, hvalue⟩ := numeral_small hds hne (-point).toNat
    refine ⟨_, hproper, by simp [Numeral.text, Numeral.fractionText, Numeral.exponentText, hne], ?_⟩
    rw [hvalue, Int.toNat_of_nonneg (by omega), neg_neg]
  · split
    · rename_i hpoint hcount
      obtain ⟨hproper, hvalue⟩ := numeral_whole hds hne hfirst (point - ds.length).toNat
      refine ⟨_, hproper, ?_, ?_⟩
      · rw [if_neg (by rw [hproper.whole.contains_point]; exact Bool.false_ne_true)]
        rfl
      · rw [hvalue, Int.toNat_of_nonneg (by omega)]
    · rename_i hpoint hcount
      obtain ⟨hproper, hvalue⟩ := numeral_split hds hfirst (k := point.toNat) (by omega) (by omega)
      have hdrop : (ds.drop point.toNat).isEmpty = false := by
        rw [List.isEmpty_eq_false_iff, Ne, List.drop_eq_nil_iff]
        omega
      refine ⟨_, hproper,
        by simp [Numeral.text, Numeral.fractionText, Numeral.exponentText, hdrop], ?_⟩
      rw [hvalue, Int.toNat_of_nonneg (by omega)]

end Positional

/-- A decimal with an exponent. -/
theorem scientific_numeral {ds : List Char} (hne : ds ≠ []) (hds : AllDigits ds)
    (hfirst : ds.head? ≠ some '0') (point : Int) :
    ∃ n : Numeral, n.Proper ∧ scientific ⟨ds, point⟩ = n.text ∧
      (n.digits : ℚ) * 10 ^ n.power = value ds * 10 ^ (point - ds.length) := by
  obtain ⟨d, rest, rfl⟩ := List.exists_cons_of_ne_nil hne
  obtain ⟨padded, hpadded⟩ : ∃ padded, padded =
      if (Nat.toDigits 10 (point - 1).natAbs).length < 2 then
        '0' :: Nat.toDigits 10 (point - 1).natAbs else Nat.toDigits 10 (point - 1).natAbs :=
    ⟨_, rfl⟩
  have hdigits : AllDigits padded ∧ padded ≠ [] ∧ value padded = (point - 1).natAbs := by
    have hvalue : value (Nat.toDigits 10 (point - 1).natAbs) = (point - 1).natAbs :=
      Nat.ofDigitChars_ten_toDigits
    rw [hpadded]
    split
    · refine ⟨(AllDigits.zeros 1).append (AllDigits.toDigits _), List.cons_ne_nil _ _, ?_⟩
      rw [← List.singleton_append, value_append, value_zero, hvalue, Nat.zero_mul, Nat.zero_add]
    · exact ⟨AllDigits.toDigits _, Nat.toDigits_ne_nil, hvalue⟩
  refine ⟨⟨[d], rest, some (decide (point - 1 < 0), padded)⟩, ⟨?_, ?_, List.cons_ne_nil _ _,
    .inr hfirst, ?_, .inr (Option.some_ne_none _)⟩, ?_, ?_⟩
  · exact hds.of_subset (by simp)
  · exact hds.of_subset fun c => List.mem_cons_of_mem d
  · rintro negative ds' h
    cases h
    exact ⟨hdigits.1, hdigits.2.1⟩
  · simp only [scientific, Numeral.text, Numeral.exponentText, ← hpadded, decide_eq_true_eq]
    cases rest <;> simp [Numeral.fractionText]
  · simp only [Numeral.digits, Numeral.power, Numeral.exponentValue, hdigits.2.2,
      decide_eq_true_eq, List.singleton_append, List.length_cons]
    congr 2
    split <;> omega

/-- The text of a finite number without sign. -/
theorem shown_numeral {x : Float} (hx : Parts.of? x = some ⟨false, M, E⟩) :
    ∃ n : Numeral, n.Proper ∧ (shown x).toList = n.text ∧ ofDecimal n.digits n.power = x := by
  rw [shown, hx, String.toList_ofList]
  by_cases hM : M = 0
  · subst hM
    obtain rfl := eq_zero hx
    refine ⟨⟨['0'], ['0'], none⟩, ⟨AllDigits.zeros 1, AllDigits.zeros 1, List.cons_ne_nil _ _,
      .inl rfl, by simp, .inl (List.cons_ne_nil _ _)⟩, rfl, rfl⟩
  · obtain ⟨hc, hE, rfl⟩ := eq_number hx hM
    obtain ⟨hne, hds, hfirst, hround⟩ := shortest_spells hc hE
    have hzero : (M == 0) = false := beq_eq_false_iff_ne.mpr hM
    simp only [hzero, Bool.false_eq_true, if_false, List.nil_append]
    split
    · obtain ⟨n, hproper, htext, hvalue⟩ := positional_numeral hds hne hfirst
        (shortest ⟨false, M, E⟩).point
      refine ⟨n, hproper, htext, ofDecimal_zpow hc hE ?_⟩
      rwa [hvalue]
    · obtain ⟨n, hproper, htext, hvalue⟩ := scientific_numeral hne hds hfirst
        (shortest ⟨false, M, E⟩).point
      refine ⟨n, hproper, htext, ofDecimal_zpow hc hE ?_⟩
      rwa [hvalue]

/-- The text of a number with a minus sign. -/
theorem shown_negative {x : Float} (hx : Parts.of? x = some ⟨true, M, E⟩) :
    (shown x).toList = '-' :: (shown (-x)).toList := by
  have hshortest : shortest ⟨true, M, E⟩ = shortest ⟨false, M, E⟩ := rfl
  simp only [shown, hx, (neg_of_parts hx).1, String.toList_ofList, hshortest, if_true,
    Bool.false_eq_true, if_false, List.nil_append, List.singleton_append]
  split
  · rfl
  · split <;> rfl

theorem floor_pos {negative : Bool} (hM : M ≠ 0)
    (hintegral : (⟨negative, M, E⟩ : Parts).isIntegral = true) :
    0 < (⟨negative, M, E⟩ : Parts).floor := by
  unfold Parts.isIntegral at hintegral
  unfold Parts.floor
  dsimp only at hintegral ⊢
  split
  · rename_i hE
    rw [if_pos hE, beq_iff_eq] at hintegral
    have hle : twoTo (-E).toNat ≤ M :=
      Nat.le_of_dvd (Nat.pos_of_ne_zero hM) (Nat.dvd_of_mod_eq_zero hintegral)
    exact Nat.div_pos hle (Nat.two_pow_pos _)
  · exact Nat.mul_pos (Nat.pos_of_ne_zero hM) (Nat.two_pow_pos _)

/-- A number with a minus sign is printed with one in front, -/
theorem plain_negative {x : Float} (hx : Parts.of? x = some ⟨true, M, E⟩) (hM : M ≠ 0) :
    (plain x).toList = '-' :: (plain (-x)).toList := by
  have hshortest : shortest ⟨true, M, E⟩ = shortest ⟨false, M, E⟩ := rfl
  have hintegral : (⟨true, M, E⟩ : Parts).isIntegral = (⟨false, M, E⟩ : Parts).isIntegral := rfl
  have hfloor : (⟨true, M, E⟩ : Parts).floor = (⟨false, M, E⟩ : Parts).floor := rfl
  simp only [plain, hx, (neg_of_parts hx).1, String.toList_ofList, hshortest, hintegral]
  split
  · rename_i hwhole
    obtain ⟨k, hk⟩ : ∃ k, (⟨false, M, E⟩ : Parts).floor = k + 1 :=
      Nat.exists_eq_succ_of_ne_zero (Nat.ne_of_gt (floor_pos hM hwhole))
    simp only [Parts.truncate, hfloor, hk, if_true]
    rfl
  · rfl

/-- except for zero. -/
theorem plain_negative_zero {x : Float} (hx : Parts.of? x = some ⟨true, 0, E⟩) :
    plain x = plain (-x) := by
  have hintegral : ∀ b, (⟨b, 0, E⟩ : Parts).isIntegral = true := by simp [Parts.isIntegral]
  have hfloor : ∀ b, (⟨b, 0, E⟩ : Parts).floor = 0 := by simp [Parts.floor]
  simp [plain, hx, (neg_of_parts hx).1, hintegral, Parts.truncate, hfloor]

/-- A finite number has the text of an equal number without sign, or a minus sign in front of the text
of its negative. -/
theorem plain_cases {x : Float} (hx : Parts.of? x ≠ none) :
    (∃ y, (Parts.of? y).any (fun p => !p.negative) = true ∧ plain x = plain y ∧ (x == y) = true) ∨
      (Parts.of? (-x)).any (fun p => !p.negative) = true ∧
        (plain x).toList = '-' :: (plain (-x)).toList ∧ -(-x) = x := by
  obtain ⟨⟨negative, M, E⟩, hparts⟩ := Option.ne_none_iff_exists'.mp hx
  cases negative with
  | false => exact .inl ⟨x, by simp [hparts], rfl, beq_self_of_parts hx⟩
  | true =>
    obtain ⟨hneg, hback⟩ := neg_of_parts hparts
    have hunsigned : (Parts.of? (-x)).any (fun p => !p.negative) = true := by simp [hneg]
    by_cases hM : M = 0
    · subst hM
      have hsame : (x == -x) = true := by
        rw [← hback, eq_zero hneg]
        decide
      exact .inl ⟨-x, hunsigned, plain_negative_zero hparts, hsame⟩
    · exact .inr ⟨hunsigned, plain_negative hparts hM, hback⟩

end Scripting.Number
