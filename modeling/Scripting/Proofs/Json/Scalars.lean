import Scripting.Json.Printer
import Scripting.Json.Reader
import Scripting.Proofs.Number.Shown

/-!
Texts and numbers in stored data read back. A text is read character by character, each behind its
escape; a number is a numeral with a point or an exponent, or one of three words.
-/

namespace Scripting.Json

open Number

namespace Reader

/-- What may follow a value: a comma or a new line, or nothing. -/
def Ends (rest : List Char) : Prop := ∀ c ∈ rest.head?, c = ',' ∨ c = '\n'

theorem isAsciiDigit_of_isDigit {c : Char} (h : c.isDigit = true) : isAsciiDigit c = true := by
  obtain ⟨hlow, hhigh⟩ := toNat_of_isDigit h
  rw [isAsciiDigit, Bool.and_eq_true, decide_eq_true_eq, decide_eq_true_eq]
  exact ⟨hlow, Nat.le_of_lt_succ hhigh⟩

theorem digitsValue_eq_value (cs : List Char) : Reader.digitsValue cs = Number.value cs :=
  Number.foldl_digits (fun _ _ => rfl) 0

/-- Digits are split off where they end. -/
theorem digits_append {cs rest : List Char} (h : AllDigits cs)
    (hrest : ∀ c ∈ rest.head?, isAsciiDigit c = false) : digits (cs ++ rest) = (cs, rest) := by
  induction cs with
  | nil =>
    cases rest with
    | nil => rfl
    | cons c rest =>
      have hc : isAsciiDigit c = false := hrest c rfl
      simp [digits, hc]
  | cons c cs ih =>
    have hc := isAsciiDigit_of_isDigit (h c List.mem_cons_self)
    have hcs := ih fun d hd => h d (List.mem_cons_of_mem c hd)
    simp only [digits, Prod.mk.injEq] at hcs ⊢
    simp [hc, hcs.1, hcs.2]

theorem Ends.digit {rest : List Char} (h : Ends rest) :
    ∀ c ∈ rest.head?, isAsciiDigit c = false := by
  intro c hc
  rcases h c hc with rfl | rfl <;> decide

/-- An exponent is read where it stands. -/
theorem exponent?_append {e : Option (Bool × List Char)} {rest : List Char}
    (he : ∀ negative ds, e = some (negative, ds) → AllDigits ds ∧ ds ≠ []) (hrest : Ends rest) :
    exponent? (Numeral.exponentText e ++ rest) =
      (e.map fun x => Numeral.exponentValue (some x), rest) := by
  match e with
  | none =>
    cases rest with
    | nil => rfl
    | cons c rest =>
      rcases hrest c rfl with rfl | rfl <;> rfl
  | some (negative, ds) =>
    obtain ⟨hds, hne⟩ := he negative ds rfl
    have hsplit : splitSign ((if negative then '-' else '+') :: (ds ++ rest)) =
        (negative, ds ++ rest) := by
      cases negative <;> rfl
    simp only [Numeral.exponentText, List.cons_append, exponent?, hsplit,
      digits_append hds hrest.digit, digitsValue_eq_value]
    simp [hne, Numeral.exponentValue]

/-- A fraction is read where it stands. -/
theorem fraction_append {ds rest : List Char} (hds : AllDigits ds)
    (hrest : ∀ c ∈ rest.head?, isAsciiDigit c = false ∧ c ≠ '.') :
    fraction (Numeral.fractionText ds ++ rest) = (ds, rest) := by
  cases ds with
  | nil =>
    change fraction rest = _
    unfold fraction
    split
    · exact absurd rfl (hrest '.' rfl).2
    · rfl
  | cons d ds =>
    have hdigits := digits_append hds fun c hc => (hrest c hc).1
    change fraction ('.' :: (d :: ds ++ rest)) = _
    simp only [fraction, hdigits]
    rfl

section Numerals

variable {n : Numeral} (hn : n.Proper) {rest : List Char} (hrest : Ends rest)
include hrest

/-- What stands behind the fraction of a numeral. -/
theorem head?_exponentText : ∀ c ∈ (Numeral.exponentText n.exponent ++ rest).head?,
    isAsciiDigit c = false ∧ c ≠ '.' := by
  intro c hc
  match h : n.exponent with
  | none =>
    rw [h, Numeral.exponentText, List.nil_append] at hc
    rcases hrest c hc with rfl | rfl <;> decide
  | some (negative, ds) =>
    rw [h, Numeral.exponentText, List.cons_append, List.head?_cons, Option.mem_some_iff] at hc
    subst hc
    decide

/-- What stands behind the digits before the point. -/
theorem head?_fractionText : ∀ c ∈ (Numeral.fractionText n.fraction ++
    (Numeral.exponentText n.exponent ++ rest)).head?, isAsciiDigit c = false := by
  intro c hc
  cases hfraction : n.fraction with
  | nil =>
    rw [hfraction] at hc
    exact (head?_exponentText hrest c hc).1
  | cons d ds =>
    rw [hfraction] at hc
    obtain rfl : '.' = c := Option.some.inj hc
    decide

include hn

/-- The digits before the point are read where they stand. -/
theorem whole_append :
    (match n.text ++ rest with
      | '0' :: rest => (['0'], rest)
      | _ => digits (n.text ++ rest)) =
      (n.whole, Numeral.fractionText n.fraction ++ (Numeral.exponentText n.exponent ++ rest)) := by
  have htext : n.text ++ rest = n.whole ++
      (Numeral.fractionText n.fraction ++ (Numeral.exponentText n.exponent ++ rest)) := by
    simp [Numeral.text]
  rw [htext]
  rcases hn.zero with hzero | hfirst
  · rw [hzero]
    rfl
  · rw [digits_append hn.whole (head?_fractionText hrest)]
    obtain ⟨c, cs, hwhole⟩ := List.exists_cons_of_ne_nil hn.nonempty
    rw [hwhole] at hfirst ⊢
    split
    · rename_i heq
      cases heq
      exact absurd rfl hfirst
    · rfl

/-- A numeral is read as its decimal, behind a minus sign as the negative. -/
theorem number_of_sign (cs : List Char) (negative : Bool)
    (hsign : (match cs with
      | '-' :: rest => (true, rest)
      | _ => (false, cs)) = (negative, n.text ++ rest)) :
    Reader.number cs = .ok (.float (if negative then -ofDecimal n.digits n.power
      else ofDecimal n.digits n.power), rest) := by
  have hwhole := whole_append hn hrest
  have hfraction := fraction_append hn.fraction (head?_exponentText (n := n) hrest)
  have hexponent := exponent?_append hn.exponent hrest
  have hnonempty : n.whole.isEmpty = false := by simpa using hn.nonempty
  have hfractional : (n.fraction.isEmpty &&
      (n.exponent.map fun x => Numeral.exponentValue (some x)).isNone) = false := by
    rcases hn.fractional with h | h
    · simp [h]
    · simp [Option.isSome_iff_ne_none.mpr h]
  have hpower : (n.exponent.map fun x => Numeral.exponentValue (some x)).getD 0 -
      (n.fraction.length : Int) = n.power := by
    unfold Numeral.power
    cases n.exponent <;> rfl
  unfold Reader.number
  split
  rename_i hcut
  obtain ⟨rfl, rfl⟩ := Prod.mk.inj (hsign.symm.trans hcut)
  split
  rename_i hdigits
  obtain ⟨rfl, rfl⟩ := Prod.mk.inj (hwhole.symm.trans hdigits)
  simp only [hfraction, hexponent, hnonempty, hfractional, hpower, digitsValue_eq_value]
  rfl

end Numerals

theorem text_cons {n : Numeral} (hn : n.Proper) : ∃ c cs, n.text = c :: cs ∧ c.isDigit = true := by
  obtain ⟨c, cs, hcs⟩ := List.exists_cons_of_ne_nil hn.nonempty
  exact ⟨c, _, by rw [Numeral.text, hcs, List.cons_append],
    hn.whole c (hcs ▸ List.mem_cons_self)⟩

/-- No word starts with a digit, or with a minus sign and a digit. -/
theorem words_of_isDigit {c : Char} (hc : c.isDigit = true) (cs : List Char) :
    (words.findSome? fun (word, v) => (after? word (c :: cs)).map fun rest => (v, rest)) = none ∧
      (words.findSome? fun (word, v) =>
        (after? word ('-' :: c :: cs)).map fun rest => (v, rest)) = none := by
  have hne : ∀ d : Char, d.isDigit = false → d ≠ c := by
    rintro d hd rfl
    rw [hc] at hd
    cases hd
  constructor
  · simp [words, after?, hne 'n' rfl, hne 't' rfl, hne 'f' rfl, hne 'N' rfl, hne 'I' rfl,
      hne '-' rfl]
  · simp [words, after?, hne 'I' rfl]

/-- A numeral is a scalar with or without a minus sign. -/
theorem scalar_numeral {n : Numeral} (hn : n.Proper) {rest : List Char} (hrest : Ends rest) :
    scalar (n.text ++ rest) = .ok (.float (ofDecimal n.digits n.power), rest) ∧
      scalar ('-' :: n.text ++ rest) = .ok (.float (-ofDecimal n.digits n.power), rest) := by
  obtain ⟨c, cs, htext, hc⟩ := text_cons hn
  obtain ⟨hplain, hminus⟩ := words_of_isDigit hc (cs ++ rest)
  have hsign : (match n.text ++ rest with
      | '-' :: rest => (true, rest)
      | _ => (false, n.text ++ rest)) = (false, n.text ++ rest) := by
    rw [htext]
    split
    · rename_i heq
      cases heq
      exact absurd hc (by decide)
    · rfl
  have hnumber := number_of_sign hn hrest _ false hsign
  have hnegative := number_of_sign hn hrest ('-' :: (n.text ++ rest)) true rfl
  rw [htext] at hnumber hnegative ⊢
  constructor
  · rw [scalar, List.cons_append, hplain]
    exact hnumber
  · rw [scalar, List.cons_append, List.cons_append, hminus]
    exact hnegative

end Reader

open Reader

def startsScalar (c : Char) : Bool := c.isDigit || ['-', 'n', 't', 'f', 'N', 'I'].contains c

theorem not_mem_digits {ds : List Char} (h : AllDigits ds) : '\r' ∉ ds :=
  fun hmem => absurd (h '\r' hmem) (by decide)

theorem not_mem_numeral {n : Numeral} (hn : n.Proper) : '\r' ∉ n.text := by
  have hfraction : '\r' ∉ Numeral.fractionText n.fraction := by
    unfold Numeral.fractionText
    split
    · exact List.not_mem_nil
    · simp [not_mem_digits hn.fraction]
  have hexponent : '\r' ∉ Numeral.exponentText n.exponent := by
    match h : n.exponent with
    | none => exact List.not_mem_nil
    | some (negative, ds) =>
      have hds := not_mem_digits (hn.exponent negative ds h).1
      cases negative <;> simp [Numeral.exponentText, hds]
  simp [Numeral.text, not_mem_digits hn.whole, hfraction, hexponent]

/-- The text of a fractional number is read as the number. -/
theorem scalar_float (x : Float) : ∃ c cs, (Printer.float x).toList = c :: cs ∧
    startsScalar c = true ∧ '\r' ∉ c :: cs ∧
      ∀ rest, Ends rest → scalar (c :: cs ++ rest) = .ok (.float x, rest) := by
  match hx : Parts.of? x with
  | none =>
    rcases Rounding.eq_of_no_parts hx with rfl | rfl | rfl
    · exact ⟨'N', "aN".toList, by decide, rfl, by decide, fun rest _ => rfl⟩
    · exact ⟨'I', "nfinity".toList, by decide, rfl, by decide, fun rest _ => rfl⟩
    · exact ⟨'-', "Infinity".toList, by decide, rfl, by decide, fun rest _ => rfl⟩
  | some ⟨negative, M, E⟩ =>
    have hprinted : Printer.float x = Number.shown x := by
      have hnan := Rounding.isNaN_of_parts (x := x) (by rw [hx]; exact Option.some_ne_none _)
      rw [Printer.float, hnan, Rounding.isInf_of_parts hx]
      rfl
    cases negative with
    | false =>
      obtain ⟨n, hn, htext, hread⟩ := shown_numeral hx
      obtain ⟨c, cs, hcs, hc⟩ := text_cons hn
      refine ⟨c, cs, by rw [hprinted, htext, hcs], by simp [startsScalar, hc],
        hcs ▸ not_mem_numeral hn, fun rest hrest => ?_⟩
      rw [← hcs, (scalar_numeral hn hrest).1, hread]
    | true =>
      obtain ⟨hparts, hneg⟩ := Rounding.neg_of_parts hx
      obtain ⟨n, hn, htext, hread⟩ := shown_numeral hparts
      refine ⟨'-', n.text, by rw [hprinted, shown_negative hx, htext], rfl, ?_,
        fun rest hrest => ?_⟩
      · simp [not_mem_numeral hn]
      · rw [(scalar_numeral hn hrest).2, hread, hneg]

namespace Reader

/-- The code of a control character is read back. -/
theorem unit?_hex (rest : List Char) : ∀ n < 0x20, unit? (Text.hex 4 n ++ rest) = some (n, rest) := by
  intro n hn
  interval_cases n <;> rfl

theorem escapedUnit?_hex (rest : List Char) {c : Char} (hc : c.toNat < 0x20) :
    escapedUnit? (Text.hex 4 c.toNat ++ rest) = some (c, rest) := by
  have hlow : ¬ 0xD800 ≤ c.toNat := by omega
  have hlow' : ¬ 0xDC00 ≤ c.toNat := by omega
  rw [escapedUnit?, unit?_hex rest _ hc]
  simp [hlow, hlow', Char.ofNat_toNat]

/-- One character of a text is read behind its escape. -/
theorem textBody_textChar (bound : Nat) (read : List Char) (c : Char) (rest : List Char) :
    textBody (bound + 1) read (Printer.textChar c ++ rest) = textBody bound (c :: read) rest := by
  unfold Printer.textChar
  split
  · rename_i h
    rcases Bool.or_eq_true_iff.mp h with h | h
    · obtain rfl := beq_iff_eq.mp h
      rfl
    · obtain rfl := beq_iff_eq.mp h
      rfl
  rename_i hquote
  split
  · rename_i h
    obtain rfl := beq_iff_eq.mp h
    rfl
  split
  · rename_i h
    obtain rfl := beq_iff_eq.mp h
    rfl
  split
  · rename_i h
    obtain rfl := beq_iff_eq.mp h
    rfl
  split
  · rename_i h
    obtain rfl := beq_iff_eq.mp h
    rfl
  split
  · rename_i h
    obtain rfl := beq_iff_eq.mp h
    rfl
  split
  · rename_i hcontrol
    have hread := escapedUnit?_hex rest hcontrol
    change textBody (bound + 1) read ('\\' :: 'u' :: (Text.hex 4 c.toNat ++ rest)) = _
    rw [textBody]
    simp only [hread]
    rfl
  · rename_i hcontrol
    rw [Bool.or_eq_true, not_or] at hquote
    simp [textBody, hquote, hcontrol]

/-- The characters of a text are read up to its closing quote. -/
theorem textBody_chars (s rest : List Char) : ∀ (bound : Nat) (read : List Char),
    s.length < bound → textBody bound read (s.flatMap Printer.textChar ++ '"' :: rest) =
      .ok (String.ofList (read.reverse ++ s), rest) := by
  induction s with
  | nil =>
    intro bound read hbound
    obtain ⟨bound, rfl⟩ := Nat.exists_eq_add_of_lt hbound
    simp [textBody]
  | cons c s ih =>
    intro bound read hbound
    obtain ⟨bound, rfl⟩ : ∃ b, bound = b + 1 := ⟨bound - 1, by omega⟩
    rw [List.flatMap_cons, List.append_assoc, textBody_textChar,
      ih bound (c :: read) (Nat.lt_of_succ_lt_succ hbound)]
    simp

theorem textChar_length (c : Char) : 0 < (Printer.textChar c).length := by
  unfold Printer.textChar
  repeat' split
  all_goals simp

theorem not_mem_hex : ∀ n < 0x20, '\r' ∉ Text.hex 4 n := by
  decide

theorem not_mem_textChar (c : Char) : '\r' ∉ Printer.textChar c := by
  unfold Printer.textChar
  split
  · rename_i h
    rcases Bool.or_eq_true_iff.mp h with h | h
    · obtain rfl := beq_iff_eq.mp h
      decide
    · obtain rfl := beq_iff_eq.mp h
      decide
  split
  · decide
  split
  · decide
  rename_i hreturn
  split
  · decide
  split
  · decide
  split
  · decide
  split
  · rename_i hcontrol
    rw [List.mem_cons, List.mem_cons, not_or, not_or]
    exact ⟨by decide, by decide, not_mem_hex _ hcontrol⟩
  · rw [List.mem_singleton]
    rintro rfl
    exact hreturn rfl

theorem length_le_flatMap (s : List Char) : s.length ≤ (s.flatMap Printer.textChar).length := by
  induction s with
  | nil => exact Nat.le_refl 0
  | cons c s ih =>
    have hc := textChar_length c
    rw [List.flatMap_cons, List.length_append, List.length_cons]
    omega

/-- A text is read behind its opening quote. -/
theorem text_text (s : String) : ∃ cs, (Printer.text s).toList = '"' :: cs ∧ '\r' ∉ cs ∧
    ∀ rest, text (cs ++ rest) = .ok (s, rest) := by
  refine ⟨s.toList.flatMap Printer.textChar ++ ['"'], ?_, ?_, fun rest => ?_⟩
  · rw [Printer.text, String.toList_ofList, List.cons_append]
  · simp only [List.mem_append, List.mem_flatMap, not_or, not_exists, not_and]
    exact ⟨fun c _ => not_mem_textChar c, by decide⟩
  · have hlength := length_le_flatMap s.toList
    rw [text, List.append_assoc, List.singleton_append, textBody_chars s.toList rest _ _ (by
      simp only [List.length_append]
      omega)]
    simp

end Reader

end Scripting.Json
