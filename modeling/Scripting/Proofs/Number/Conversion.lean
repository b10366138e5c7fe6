import Scripting.Eval.Builtin
import Scripting.Proofs.Lexer.Partition
import Scripting.Proofs.Lexer.Tokens
import Scripting.Proofs.Number.Shown
import Scripting.Proofs.Number.Unsigned

/-!
The conversion from text to numbers. The lexer measures a numeral first, every digit character and every
single point belonging to it, and reads the measured characters afterwards; the conversion strips the
blanks, splits a sign off and reads what is left. On a text that starts with a digit character and does
not end with a blank neither stripping nor the sign matters, and whatever can be read as a numeral is
measured to its end, so that both come to the same. What is written for a number is read back by the
conversion, its sign included.
-/

namespace Scripting

open Text

namespace Text

theorem ne_of_isDigit {c d : Char} (hd : isDigit d = true) (hc : isDigit c = false) : d ≠ c := by
  rintro rfl
  exact absurd hd (by rw [hc]; exact Bool.false_ne_true)

/-- A text without blanks at its ends is left as it is. -/
theorem strip_eq_self {cs : List Char} (hfirst : cs.head?.any isBlank = false)
    (hlast : cs.getLast?.any isBlank = false) : strip cs = cs := by
  have hfront : ∀ ds : List Char, ds.head?.any isBlank = false → stripFront ds = ds := by
    intro ds hds
    cases ds with
    | nil => rfl
    | cons d ds => simpa [stripFront] using hds
  rw [strip, stripBack, hfront cs hfirst, hfront, List.reverse_reverse]
  rwa [List.head?_reverse]

/-- A text without blanks is left as it is. -/
theorem strip_of_no_blanks {cs : List Char} (h : ∀ c ∈ cs, isBlank c = false) : strip cs = cs := by
  refine strip_eq_self ?_ ?_
  · exact (Option.any_eq_false _ _).mpr fun c hc => by simp [h c (List.mem_of_head? hc)]
  · exact (Option.any_eq_false _ _).mpr fun c hc => by simp [h c (List.mem_of_getLast? hc)]

end Text

namespace Rounding

/-- The finite numbers are those with parts. -/
theorem isFinite_iff {x : Float} : x.isFinite = true ↔ Parts.of? x ≠ none := by
  constructor
  · intro hfinite hx
    have hothers : Number.undefined.isFinite = false ∧ Number.infinity.isFinite = false ∧
        (-Number.infinity).isFinite = false := by
      decide
    rcases eq_of_no_parts hx with rfl | rfl | rfl
    · exact absurd hfinite (by rw [hothers.1]; exact Bool.false_ne_true)
    · exact absurd hfinite (by rw [hothers.2.1]; exact Bool.false_ne_true)
    · exact absurd hfinite (by rw [hothers.2.2]; exact Bool.false_ne_true)
  · intro hx
    change (Float.Model.UnpackedFloat.unpack .binary64 x.toModel.toBits.toBitVec).isFinite = true
    rcases unpack_cases (exponent_ne_max hx) with ⟨hunpack, -⟩ | ⟨M, E, hc, -, hunpack, -⟩
    · rw [hunpack]
      rfl
    · rw [hunpack]
      rfl

end Rounding

namespace Number

open Rounding

variable {cs : List Char} {x : Float}

/-- A numeral is out of range or finite. -/
theorem isInf_of_numeral? (h : numeral? cs = some x) : x.isInf = false ↔ x.isFinite = true := by
  rw [isFinite_iff]
  constructor
  · intro hinf
    obtain ⟨p, hp, -⟩ := (Option.any_eq_true _ _).mp (isUnsigned_numeral h hinf)
    rw [hp]
    exact Option.some_ne_none p
  · intro hx
    obtain ⟨p, hp⟩ := Option.ne_none_iff_exists'.mp hx
    exact isInf_of_parts hp

/-- What can be read as a numeral is decimals, with at most one point between or beside them. -/
theorem decimals_of_numeral? (h : numeral? cs = some x) :
    ∃ ws tail, cs = ws ++ tail ∧ ws.all isDecimal = true ∧
      (tail = [] ∨ ∃ fs, tail = '.' :: fs ∧ fs.all isDecimal = true) := by
  refine ⟨cs.takeWhile isDecimal, cs.dropWhile isDecimal, List.takeWhile_append_dropWhile.symm,
    List.all_takeWhile, ?_⟩
  unfold numeral? at h
  dsimp only at h
  split at h
  · rename_i htail
    exact .inl htail
  · rename_i fs htail
    split at h
    · rename_i hfs
      rw [Bool.and_eq_true] at hfs
      exact .inr ⟨fs, htail, hfs.1⟩
    · cases h
  · cases h

end Number

namespace Lexer

/-- What can be read as a numeral is measured to its end. -/
theorem numeralLength_of_numeral? {cs : List Char} {x : Float} (h : Number.numeral? cs = some x) :
    numeralLength cs = cs.length := by
  have hdigits : ∀ ds : List Char, ds.all isDecimal = true → ∀ c ∈ ds, isDigit c = true :=
    fun ds hds c hc => isDigit_of_isDecimal (List.all_eq_true.mp hds c hc)
  obtain ⟨ws, tail, rfl, hws, rfl | ⟨fs, rfl, hfs⟩⟩ := Number.decimals_of_numeral? h
  · rw [List.append_nil]
    exact numeralLength_of_digits (hdigits ws hws)
  · exact numeralLength_of_point (hdigits ws hws) (hdigits fs hfs)

/-- The lexer takes just the numerals with a finite value for numbers. -/
theorem numeralKind_eq_number_iff {cs : List Char} {x : Float} :
    numeralKind cs = .ok (.number x) ↔ Number.numeral? cs = some x ∧ x.isFinite = true := by
  unfold numeralKind
  cases hread : Number.numeral? cs with
  | none => simp
  | some y =>
    have hinf := Number.isInf_of_numeral? hread
    dsimp only
    split
    · rename_i hy
      constructor
      · intro h
        cases h
      · rintro ⟨⟨⟩, hfinite⟩
        rw [hinf.mpr hfinite] at hy
        cases hy
    · rename_i hy
      rw [Bool.not_eq_true] at hy
      constructor
      · intro h
        cases h
        exact ⟨rfl, hinf.mp hy⟩
      · rintro ⟨⟨⟩, -⟩
        rfl

/-- A text that starts with a digit is one number if and only if all of it can be read as a numeral in
range. -/
theorem scan_number_iff {d : Char} (hd : isDigit d = true) {rest : List Char} {x : Float} {n : Nat} :
    scan d rest = ⟨.ok (.number x), n⟩ ∧ (d :: rest).length ≤ n ↔
      (Number.numeral? (d :: rest) = some x ∧ x.isFinite = true) ∧ n = (d :: rest).length := by
  have hscan : scan d rest = ⟨numeralKind ((d :: rest).take (numeralLength (d :: rest))),
      numeralLength (d :: rest)⟩ := by
    simp [scan, hd]
  constructor
  · rintro ⟨h, hall⟩
    have hle := scan_length_le d rest
    rw [h] at hle
    rw [hscan] at h
    obtain ⟨hkind, rfl⟩ := Lexeme.mk.inj h
    rw [List.take_of_length_le hall] at hkind
    exact ⟨numeralKind_eq_number_iff.mp hkind, le_antisymm hle hall⟩
  · rintro ⟨hread, rfl⟩
    have hlength := numeralLength_of_numeral? hread.1
    rw [hscan, hlength, List.take_length, numeralKind_eq_number_iff.mpr hread]
    exact ⟨rfl, le_refl _⟩

end Lexer

/-- A cursor in front of a digit passes all that is left as one number if and only if it is a numeral in
range. -/
theorem Cursor.next_number_iff {before rest : List Char} {d : Char} {p : Position}
    (hd : isDigit d = true) {x : Float} :
    (∃ c, Cursor.next ⟨before, d :: rest, p⟩ = (.token ⟨.number x, p⟩, c) ∧ c.rest = []) ↔
      Number.numeral? (d :: rest) = some x ∧ x.isFinite = true := by
  have hslash : d ≠ '/' := ne_of_isDigit hd (by decide)
  have hgap : Lexer.gapLength false (d :: rest) = 0 :=
    Lexer.gapLength_of_start (Bounds.mem_of_apart digits_no_blanks hd)
      (ne_of_isDigit hd (by decide)) fun h => absurd h hslash
  simp only [Cursor.next_eq_token_iff hgap, true_and]
  constructor
  · rintro ⟨_, ⟨n, hscan, rfl⟩, hend⟩
    exact (Lexer.scan_number_iff hd |>.mp ⟨hscan, List.drop_eq_nil_iff.mp hend⟩).1
  · intro hread
    have hscan := (Lexer.scan_number_iff hd).mpr ⟨hread, rfl⟩
    exact ⟨_, ⟨_, hscan.1, rfl⟩, List.drop_eq_nil_iff.mpr hscan.2⟩

namespace Number

open Rounding Lexer

theorem signed?_digit {d : Char} (hd : isDigit d = true) (rest : List Char) :
    signed? (d :: rest) = numeral? (d :: rest) := by
  have hminus : d ≠ '-' := ne_of_isDigit hd (by decide)
  have hplus : d ≠ '+' := ne_of_isDigit hd (by decide)
  simp [signed?, splitSign, hminus, hplus]

theorem signed?_minus (cs : List Char) :
    signed? ('-' :: cs) = (numeral? cs).map fun x => -x := rfl

theorem isBlank_of_isNumeral {cs : List Char} (h : IsNumeral cs) : ∀ c ∈ cs, isBlank c = false := by
  have hdigits : ∀ ds, AllDigits ds → ∀ c ∈ ds, isBlank c = false := fun ds hds c hc =>
    Bounds.mem_of_apart digits_no_blanks (isDigit_of_isDigit (hds c hc))
  obtain ⟨ws, fs, -, hws, hfs, rfl | rfl⟩ := h
  · exact hdigits _ hws
  · intro c hc
    rcases List.mem_append.mp hc with hc | hc
    · exact hdigits ws hws c hc
    · rcases List.mem_cons.mp hc with rfl | hc
      · decide
      · exact hdigits fs hfs c hc

/-- A finite number is read back from its text, up to the sign of zero. -/
theorem signed?_plain {x : Float} (hx : x.isFinite = true) :
    ∃ y, signed? (strip (plain x).toList) = some y ∧ (x == y) = true := by
  have hparts := isFinite_iff.mp hx
  rcases plain_cases hparts with ⟨y, hy, htext, heq⟩ | ⟨hy, htext, hback⟩
  · obtain ⟨hnumeral, hread⟩ := plain_spells hy
    obtain ⟨⟨d, rest, hcs, hd⟩, -⟩ := isNumeral_chars hnumeral
    refine ⟨y, ?_, heq⟩
    rw [htext, strip_of_no_blanks (isBlank_of_isNumeral hnumeral), ← hread, hcs,
      signed?_digit (isDigit_of_isDigit hd)]
  · obtain ⟨hnumeral, hread⟩ := plain_spells hy
    refine ⟨x, ?_, beq_self_of_parts hparts⟩
    have hblank : ∀ c ∈ '-' :: (plain (-x)).toList, isBlank c = false :=
      List.forall_mem_cons.mpr ⟨by decide, isBlank_of_isNumeral hnumeral⟩
    rw [htext, strip_of_no_blanks hblank, signed?_minus, hread, Option.map_some, hback]

end Number

namespace Builtin

theorem toNumber_eq_number_iff {s : String} {x : Float} :
    answer .toNumber [.text s] = .ok (.number x) ↔ Number.signed? (strip s.toList) = some x := by
  simp only [answer, readNumber, expectText, bind, Except.bind]
  cases Number.signed? (strip s.toList) <;> simp

/-- A text that starts with a digit and does not end with a blank is converted as a numeral. -/
theorem toNumber_digit_iff {s : String} {d : Char} {rest : List Char} (hs : s.toList = d :: rest)
    (hd : isDigit d = true) (hlast : s.toList.getLast?.any isBlank = false) {x : Float} :
    answer .toNumber [.text s] = .ok (.number x) ↔ Number.numeral? (d :: rest) = some x := by
  have hfirst : s.toList.head?.any isBlank = false := by
    rw [hs]
    exact Bounds.mem_of_apart digits_no_blanks hd
  rw [toNumber_eq_number_iff, strip_eq_self hfirst hlast, hs, Number.signed?_digit hd]

end Builtin

/-- The lexer and the conversion from text agree about numerals. If a text starts with a digit character
and does not end with a blank, then the lexer passes the whole of it as one number if and only if the
conversion gives this number and it is finite. And the text of a finite number is converted to a number
equal to it. -/
theorem numeral_readers_agree :
    (∀ s : String, s.toList.head?.any isDigit = true → s.toList.getLast?.any isBlank = false →
      ∀ x : Float,
        (∃ c, (Cursor.ofText s).next = (.token ⟨.number x, .start⟩, c) ∧ c.rest = []) ↔
          Builtin.answer .toNumber [.text s] = .ok (.number x) ∧ x.isFinite = true) ∧
    ∀ x : Float, x.isFinite = true →
      ∃ y, Builtin.answer .toNumber [.text (Value.number x).shown] = .ok (.number y) ∧
        (x == y) = true := by
  constructor
  · intro s hfirst hlast x
    obtain ⟨d, hhead, hd⟩ := (Option.any_eq_true _ _).mp hfirst
    obtain ⟨rest, hs⟩ := List.head?_eq_some_iff.mp hhead
    rw [Builtin.toNumber_digit_iff hs hd hlast, Cursor.ofText, hs]
    exact Cursor.next_number_iff hd
  · intro x hx
    obtain ⟨y, hread, heq⟩ := Number.signed?_plain hx
    exact ⟨y, Builtin.toNumber_eq_number_iff.mpr hread, heq⟩

/-- Decimals of two scripts with nothing behind the point, and a negative number. -/
theorem numeral_readers_agree_scripts :
    (∃ c, (Cursor.ofText "٣5.").next = (.token ⟨.number 35, .start⟩, c) ∧ c.rest = []) ∧
    (-2.5 : Float).isFinite = true ∧
      ∃ y, Builtin.answer .toNumber [.text (Value.number (-2.5)).shown] = .ok (.number y) ∧
        ((-2.5 : Float) == y) = true := by
  have hread : Builtin.answer .toNumber [.text "٣5."] = .ok (.number 35) := by rfl
  have hfinite : (35 : Float).isFinite = true ∧ (-2.5 : Float).isFinite = true := by decide
  exact ⟨(numeral_readers_agree.1 "٣5." (by decide) (by decide) 35).mpr ⟨hread, hfinite.1⟩,
    hfinite.2, numeral_readers_agree.2 _ hfinite.2⟩

end Scripting
