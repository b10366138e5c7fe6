import Scripting.Number.Reader
import Scripting.Proofs.Number.Scientific
import Scripting.Proofs.Number.Shortest

/-!
The text of a number is read back. A numeral without exponent is a decimal; the text of a finite
number without sign is a decimal in the interval of the number.
-/

namespace Scripting.Number

open Rounding Text

section Digits

variable {c : Char} (hc : c.isDigit = true)
include hc

theorem toNat_of_isDigit : 48 ≤ c.toNat ∧ c.toNat < 58 := by
  simp only [Char.isDigit, Bool.and_eq_true, decide_eq_true_eq] at hc
  have hlow : 48 ≤ c.val.toNat := hc.1
  have hhigh : c.val.toNat ≤ 57 := hc.2
  exact ⟨hlow, Nat.lt_succ_of_le hhigh⟩

theorem decimal?_of_isDigit : decimal? c = some (c.toNat - 48) := by
  obtain ⟨hlow, hhigh⟩ := toNat_of_isDigit hc
  have hzero : decimalZeros.find? (fun z => z ≤ c.toNat && c.toNat < z + 10) = some 48 := by
    rw [decimalZeros, List.find?_cons_of_pos]
    simp [hlow, hhigh]
  rw [decimal?, hzero]
  rfl

theorem isDecimal_of_isDigit : isDecimal c = true := by
  rw [isDecimal, decimal?_of_isDigit hc]
  rfl

theorem isDigit_of_isDigit : Text.isDigit c = true := by
  obtain ⟨hlow, hhigh⟩ := toNat_of_isDigit hc
  exact Bounds.mem_head hlow hhigh

end Digits

/-- Digits as a character sees them. -/
def AllDigits (cs : List Char) : Prop := ∀ c ∈ cs, c.isDigit = true

theorem AllDigits.append {cs ds : List Char} (hcs : AllDigits cs) (hds : AllDigits ds) :
    AllDigits (cs ++ ds) := by
  intro c hc
  exact (List.mem_append.mp hc).elim (hcs c) (hds c)

theorem AllDigits.toDigits (n : Nat) : AllDigits (Nat.toDigits 10 n) :=
  fun _ hc => Nat.isDigit_of_mem_toDigits (by decide) (by decide) hc

theorem AllDigits.zeros (n : Nat) : AllDigits (List.replicate n '0') := by
  intro c hc
  obtain rfl := List.eq_of_mem_replicate hc
  rfl

theorem AllDigits.of_subset {cs ds : List Char} (h : AllDigits ds) (hsub : ∀ c ∈ cs, c ∈ ds) :
    AllDigits cs :=
  fun c hc => h c (hsub c hc)

def value (cs : List Char) : Nat := Nat.ofDigitChars 10 cs 0

/-- Digits are put together in the same way whatever finds the value of each. -/
theorem foldl_digits {f : Char → Nat} {cs : List Char} (hf : ∀ c ∈ cs, f c = c.toNat - '0'.toNat)
    (n : Nat) : cs.foldl (fun n c => 10 * n + f c) n = Nat.ofDigitChars 10 cs n := by
  induction cs generalizing n with
  | nil => rfl
  | cons c cs ih =>
    rw [List.foldl_cons, hf c List.mem_cons_self, Nat.ofDigitChars_cons,
      ih fun d hd => hf d (List.mem_cons_of_mem c hd)]

theorem digitsValue_eq {cs : List Char} (h : AllDigits cs) : digitsValue cs = value cs :=
  foldl_digits (fun c hc => by rw [decimal?_of_isDigit (h c hc)]; rfl) 0

theorem takeWhile_digits {cs : List Char} (h : AllDigits cs) (rest : List Char)
    (hrest : rest.head?.all (fun c => !isDecimal c) = true) :
    (cs ++ rest).takeWhile isDecimal = cs ∧ (cs ++ rest).dropWhile isDecimal = rest := by
  induction cs with
  | nil =>
    cases rest with
    | nil => exact ⟨rfl, rfl⟩
    | cons c rest =>
      have hc : isDecimal c = false := by simpa using hrest
      simp [hc]
  | cons c cs ih =>
    have hc := isDecimal_of_isDigit (h c List.mem_cons_self)
    obtain ⟨htake, hdrop⟩ := ih fun d hd => h d (List.mem_cons_of_mem c hd)
    simp [hc, htake, hdrop]

theorem numeral?_whole {cs : List Char} (hne : cs ≠ []) (h : AllDigits cs) :
    numeral? cs = some (ofDecimal (value cs) 0) := by
  obtain ⟨htake, hdrop⟩ := takeWhile_digits h [] rfl
  rw [List.append_nil] at htake hdrop
  simp [numeral?, htake, hdrop, hne, digitsValue_eq h]

theorem numeral?_point {ws fs : List Char} (hne : ws ≠ []) (hws : AllDigits ws)
    (hfs : AllDigits fs) :
    numeral? (ws ++ '.' :: fs) = some (ofDecimal (value (ws ++ fs)) (-(fs.length : Int))) := by
  obtain ⟨htake, hdrop⟩ := takeWhile_digits hws ('.' :: fs)
    (show (!isDecimal '.') = true by decide)
  have hall : fs.all isDecimal = true := by
    rw [List.all_eq_true]
    exact fun c hc => isDecimal_of_isDigit (hfs c hc)
  simp [numeral?, htake, hdrop, hne, hall, digitsValue_eq (hws.append hfs)]

variable {M : Nat} {E : Int} {D k : Nat}

/-- All numbers lie between `10 ^ -400` and `10 ^ 400`. -/
theorem two_zpow_lt {n : Int} (hn : n ≤ 1075) : (2 : ℚ) ^ n < 10 ^ 400 := by
  calc (2 : ℚ) ^ n ≤ 2 ^ ((1100 : ℕ) : Int) := zpow_le_zpow_right₀ (by norm_num) (by omega)
    _ = (2 ^ 11) ^ 100 := by rw [zpow_natCast, ← pow_mul]
    _ < (10 ^ 4) ^ 100 := pow_lt_pow_left₀ (by norm_num) (by norm_num) (by norm_num)
    _ = 10 ^ 400 := by rw [← pow_mul]

/-- A decimal is read as the number in whose interval it lies. -/
theorem ofDecimal_eq (hD : 0 < D) (hc : Canonical M E) (hE : E ≤ 971)
    (hr : RoundsTo (D / 10 ^ k) M E) : ofDecimal D (-(k : Int)) = number hc := by
  obtain ⟨size, hsize⟩ : ∃ size, size = (Nat.toDigits 10 D).length := ⟨_, rfl⟩
  have hpos : 0 < size := hsize ▸ Nat.length_toDigits_pos
  have hlt : D < 10 ^ size := (Nat.length_toDigits_le_iff (by decide) hpos).mp (le_of_eq hsize.symm)
  have h10 : (0 : ℚ) < 10 ^ k := by positivity
  -- The decimal is in the range of the numbers, so it is neither cut off to zero nor to infinity.
  have hlarge : ¬ (400 < (size : Int) + -(k : Int)) := by
    intro h
    have hge : 10 ^ (k + 400) ≤ D := by
      by_contra hless
      have := (Nat.length_toDigits_le_iff (n := D) (by decide : 1 < 10) (by omega)).mpr
        (Nat.lt_of_not_le hless)
      omega
    have hq : (10 : ℚ) ^ 400 ≤ D / 10 ^ k := by
      rw [le_div_iff₀ h10, ← pow_add, Nat.add_comm]
      exact_mod_cast hge
    exact absurd (hq.trans_lt (hr.upper hc)) (not_lt.mpr (le_of_lt (two_zpow_lt (by omega))))
  have hsmall : ¬ ((size : Int) + -(k : Int) < -400) := by
    intro h
    have hq : (D : ℚ) / 10 ^ k ≤ 1 / 10 ^ 400 := by
      rw [div_le_div_iff₀ h10 (by positivity), one_mul]
      calc (D : ℚ) * 10 ^ 400 ≤ 10 ^ size * 10 ^ 400 :=
            mul_le_mul_of_nonneg_right (by exact_mod_cast le_of_lt hlt) (by positivity)
        _ = 10 ^ (size + 400) := (pow_add _ _ _).symm
        _ ≤ 10 ^ k := pow_le_pow_right₀ (by norm_num) (by omega)
    have hnum : (1 : ℚ) / 10 ^ 400 < 2 ^ (-1075 : Int) := by
      rw [zpow_neg, one_div]
      exact inv_strictAnti₀ (two_zpow_pos _) (two_zpow_lt (le_refl _))
    exact absurd ((hr.lower hc).trans hq) (not_le.mpr hnum)
  unfold ofDecimal
  rw [← hsize]
  simp only [hlarge, hsmall, if_false, beq_iff_eq, Nat.ne_of_gt hD]
  have hsign : decide (-(k : Int) < 0) = decide (0 < k) := by
    rw [decide_eq_decide]
    omega
  rw [hsign, Int.natAbs_neg, Int.natAbs_natCast]
  exact ofScientific_eq hD hc hE hr

/-- Digits, or digits with a point behind the first of them. -/
def IsNumeral (cs : List Char) : Prop :=
  ∃ ws fs, ws ≠ [] ∧ AllDigits ws ∧ AllDigits fs ∧ (cs = ws ∨ cs = ws ++ '.' :: fs)

theorem value_append (cs ds : List Char) :
    value (cs ++ ds) = value cs * 10 ^ ds.length + value ds := by
  unfold value
  rw [Nat.ofDigitChars_append, Nat.ofDigitChars_eq_ofDigitChars_zero, Nat.mul_comm]

theorem value_zeros (n : Nat) : value (List.replicate n '0') = 0 := by
  simp [value]

/-- A decimal without exponent spells its value. -/
theorem positional_spells {ds : List Char} (hne : ds ≠ []) (hds : AllDigits ds) (point : Int) :
    IsNumeral (positional ⟨ds, point⟩) ∧
      ∃ D k : Nat, numeral? (positional ⟨ds, point⟩) = some (ofDecimal D (-(k : Int))) ∧
        (D : ℚ) / 10 ^ k = value ds * 10 ^ (point - ds.length) := by
  have hzero : AllDigits ['0'] := AllDigits.zeros 1
  have hnil : AllDigits [] := AllDigits.zeros 0
  simp only [positional]
  split
  · rename_i hpoint
    have hfs := (AllDigits.zeros (-point).toNat).append hds
    refine ⟨⟨['0'], _, List.cons_ne_nil _ _, hzero, hfs, .inr rfl⟩, ?_⟩
    refine ⟨value (['0'] ++ (List.replicate (-point).toNat '0' ++ ds)),
      (List.replicate (-point).toNat '0' ++ ds).length,
      numeral?_point (List.cons_ne_nil _ _) hzero hfs, ?_⟩
    have hlen : (List.replicate (-point).toNat '0' ++ ds).length = (-point).toNat + ds.length := by
      simp
    have hvalue : value (['0'] ++ (List.replicate (-point).toNat '0' ++ ds)) = value ds := by
      rw [value_append, value_append, value_zeros, show value ['0'] = 0 from value_zeros 1]
      simp
    rw [hlen, hvalue, div_eq_mul_inv, ← zpow_natCast, ← zpow_neg]
    congr 2
    omega
  · split
    · rename_i hpoint hcount
      have hall := hds.append (AllDigits.zeros (point - ds.length).toNat)
      have happend : ds ++ List.replicate (point - ds.length).toNat '0' ≠ [] := by simp [hne]
      refine ⟨⟨_, [], happend, hall, hnil, .inl rfl⟩, ?_⟩
      refine ⟨_, 0, numeral?_whole happend hall, ?_⟩
      rw [value_append, value_zeros, List.length_replicate]
      push_cast
      rw [← zpow_natCast, Int.toNat_of_nonneg (by omega)]
      simp
    · rename_i hpoint hcount
      have htake : ds.take point.toNat ≠ [] := by
        rw [Ne, List.take_eq_nil_iff]
        push Not
        exact ⟨by omega, hne⟩
      have hws := hds.of_subset fun c => List.mem_of_mem_take (i := point.toNat)
      have hfs := hds.of_subset fun c => List.mem_of_mem_drop (i := point.toNat)
      refine ⟨⟨_, _, htake, hws, hfs, .inr rfl⟩, ?_⟩
      refine ⟨_, _, numeral?_point htake hws hfs, ?_⟩
      rw [List.take_append_drop, List.length_drop, div_eq_mul_inv, ← zpow_natCast, ← zpow_neg]
      congr 2
      omega

/-- Zeros at the end of the digits can be left out. -/
theorem strip_zeros (cs : List Char) :
    ∃ z, cs = (cs.reverse.dropWhile (· == '0')).reverse ++ List.replicate z '0' := by
  have hzeros : cs.reverse.takeWhile (· == '0') =
      List.replicate (cs.reverse.takeWhile (· == '0')).length '0' := by
    refine List.eq_replicate_iff.mpr ⟨rfl, fun c hc => ?_⟩
    simpa using List.all_eq_true.mp List.all_takeWhile c hc
  refine ⟨(cs.reverse.takeWhile (· == '0')).length, ?_⟩
  rw [← List.reverse_replicate, ← hzeros, ← List.reverse_append, List.takeWhile_append_dropWhile,
    List.reverse_reverse]

theorem head?_toDigits {n : Nat} (hn : 0 < n) : (Nat.toDigits 10 n).head? ≠ some '0' := by
  induction n using Nat.strong_induction_on with
  | _ n ih =>
    rw [Nat.toDigits_eq_if (by decide)]
    split
    · rename_i hlt
      have hdigit : ∀ k < 10, 0 < k → k.digitChar ≠ '0' := by decide
      simpa using hdigit n hlt hn
    · rename_i hge
      have hquotient : 0 < n / 10 := by omega
      rw [List.head?_append, Option.or_of_isSome (by simp [Nat.toDigits_ne_nil])]
      exact ih (n / 10) (by omega) hquotient

/-- The digits of the shortest decimal of a number: there are some, the first is not zero, and the
decimal lies in the interval of the number. -/
theorem shortest_spells (hc : Canonical M E) (hE : E ≤ 971) :
    (shortest ⟨false, M, E⟩).digits ≠ [] ∧ AllDigits (shortest ⟨false, M, E⟩).digits ∧
      (shortest ⟨false, M, E⟩).digits.head? ≠ some '0' ∧
      RoundsTo (value (shortest ⟨false, M, E⟩).digits *
        10 ^ ((shortest ⟨false, M, E⟩).point - (shortest ⟨false, M, E⟩).digits.length)) M E := by
  have hround := Shortest.roundsTo_search hc hE
  unfold shortest
  generalize Shortest.search _ _ 17 1 = found at hround ⊢
  obtain ⟨d, power⟩ := found
  dsimp only at hround ⊢
  have hd : 0 < d := Nat.pos_of_ne_zero fun hzero => by simpa [hzero] using hround.pos hc
  obtain ⟨z, hz⟩ := strip_zeros (Nat.toDigits 10 d)
  have hdigits := AllDigits.toDigits d
  have hfirst := head?_toDigits hd
  have hvalue : value (Nat.toDigits 10 d) = d := Nat.ofDigitChars_ten_toDigits
  generalize ((Nat.toDigits 10 d).reverse.dropWhile (· == '0')).reverse = ds at hz ⊢
  rw [hz] at hdigits hfirst hvalue ⊢
  rw [value_append, value_zeros, List.length_replicate, Nat.add_zero] at hvalue
  have hne : ds ≠ [] := by
    rintro rfl
    simp [value] at hvalue
    omega
  refine ⟨hne, hdigits.of_subset fun c hc => List.mem_append_left _ hc, ?_, ?_⟩
  · rwa [List.head?_append, Option.or_of_isSome (by simp [hne])] at hfirst
  · have hsame : (value ds : ℚ) * 10 ^ (((ds ++ List.replicate z '0').length : Int) + power -
        ds.length) = d * 10 ^ power := by
      rw [← hvalue, List.length_append, List.length_replicate]
      have hexp : ((ds.length + z : ℕ) : Int) + power - ds.length = z + power := by omega
      rw [hexp, zpow_add₀ (by norm_num), zpow_natCast]
      push_cast
      ring
    rw [hsame]
    exact hround

/-- The text of a number with a fractional part. -/
theorem positional_shortest (hc : Canonical M E) (hE : E ≤ 971) :
    IsNumeral (positional (shortest ⟨false, M, E⟩)) ∧
      numeral? (positional (shortest ⟨false, M, E⟩)) = some (number hc) := by
  obtain ⟨hne, hdigits, -, hround⟩ := shortest_spells hc hE
  obtain ⟨hnumeral, D, k, hread, hD⟩ := positional_spells hne hdigits (shortest ⟨false, M, E⟩).point
  refine ⟨hnumeral, ?_⟩
  rw [← hD] at hround
  have hpos : 0 < D := Nat.pos_of_ne_zero fun hzero => by simpa [hzero] using hround.pos hc
  rw [hread, ofDecimal_eq hpos hc hE hround]

/-- The text of an integer. -/
theorem toDigits_spells {n : Nat} (hc : Canonical M E) (hE : E ≤ 971) (hn : (n : ℚ) = M * 2 ^ E) :
    numeral? (Nat.toDigits 10 n) = some (number hc) := by
  have hvalue : value (Nat.toDigits 10 n) = n := Nat.ofDigitChars_ten_toDigits
  have hpos : 0 < n := by
    have hM : (0 : ℚ) < M := by exact_mod_cast hc.pos
    have hq : (0 : ℚ) < n := by
      rw [hn]
      exact mul_pos hM (two_zpow_pos E)
    exact_mod_cast hq
  have hround : RoundsTo (n / 10 ^ 0) M E := by
    rw [pow_zero, div_one, hn]
    exact .refl
  rw [numeral?_whole Nat.toDigits_ne_nil (AllDigits.toDigits n), hvalue]
  exact congrArg some (ofDecimal_eq hpos hc hE hround)

/-- A number without fractional part is its whole part. -/
theorem floor_value {p : Parts} (h : p.isIntegral = true) :
    (p.floor : ℚ) = p.mantissa * 2 ^ p.exponent := by
  unfold Parts.isIntegral at h
  unfold Parts.floor
  split at h
  · rename_i hneg
    rw [if_pos hneg]
    rw [beq_iff_eq] at h
    have hsplit : (p.mantissa : ℚ) = twoTo (-p.exponent).toNat *
        (p.mantissa / twoTo (-p.exponent).toNat : ℕ) := by
      have hdiv := Nat.div_add_mod p.mantissa (twoTo (-p.exponent).toNat)
      rw [h, Nat.add_zero] at hdiv
      exact_mod_cast hdiv.symm
    have hpow : (twoTo (-p.exponent).toNat : ℚ) * 2 ^ p.exponent = 1 := by
      rw [twoTo, Nat.pow_eq]
      push_cast
      rw [← zpow_natCast, Int.toNat_of_nonneg (by omega), ← zpow_add₀ (by norm_num)]
      simp
    calc ((p.mantissa / twoTo (-p.exponent).toNat : ℕ) : ℚ)
        = (p.mantissa / twoTo (-p.exponent).toNat : ℕ) *
            ((twoTo (-p.exponent).toNat : ℚ) * 2 ^ p.exponent) := by rw [hpow, mul_one]
      _ = p.mantissa * 2 ^ p.exponent := by
        rw [hsplit]
        ring
  · rename_i hneg
    rw [if_neg hneg, twoTo, Nat.pow_eq]
    push_cast
    rw [← zpow_natCast, Int.toNat_of_nonneg (by omega)]

theorem isNumeral_toDigits (n : Nat) : IsNumeral (Nat.toDigits 10 n) :=
  ⟨_, [], Nat.toDigits_ne_nil, AllDigits.toDigits n, AllDigits.zeros 0, .inl rfl⟩

/-- The text of a finite number without sign is read as this number. -/
theorem plain_spells {x : Float} (hx : (Parts.of? x).any (fun p => !p.negative) = true) :
    IsNumeral (plain x).toList ∧ numeral? (plain x).toList = some x := by
  obtain ⟨⟨negative, M, E⟩, hparts, hsign⟩ := (Option.any_eq_true _ _).mp hx
  obtain rfl : negative = false := by simpa using hsign
  have hinteger : ∀ n : Nat, integerText n = Nat.toDigits 10 n := fun n => rfl
  rw [plain, hparts, String.toList_ofList]
  simp only [Parts.truncate, Bool.false_eq_true, if_false, List.nil_append, hinteger]
  by_cases hM : M = 0
  · subst hM
    obtain rfl := eq_zero hparts
    have hfloor : (⟨false, 0, E⟩ : Parts).floor = 0 := by simp [Parts.floor]
    have hintegral : (⟨false, 0, E⟩ : Parts).isIntegral = true := by simp [Parts.isIntegral]
    rw [if_pos hintegral, hfloor]
    exact ⟨isNumeral_toDigits 0, by rw [Nat.toDigits_zero]; rfl⟩
  · obtain ⟨hc, hE, rfl⟩ := eq_number hparts hM
    by_cases hintegral : (⟨false, M, E⟩ : Parts).isIntegral = true
    · rw [if_pos hintegral]
      exact ⟨isNumeral_toDigits _, toDigits_spells hc hE (floor_value hintegral)⟩
    · rw [if_neg hintegral]
      exact positional_shortest hc hE

end Scripting.Number
