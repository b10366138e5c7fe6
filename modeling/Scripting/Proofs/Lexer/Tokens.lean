import Scripting.Proofs.Lexer.Spelling
import Scripting.Proofs.Number.Numeral
import Scripting.Proofs.Printer.WellFormed

/-!
The spelling of tokens. Every token that can be written is scanned back from its spelling, and
tokens with a blank behind each are the tokens of their text.
-/

namespace Scripting

namespace Text

/-- Whether two sets of code points have no common member, by walking along both at once. -/
def Bounds.apart : (steps : Nat) → List Nat → List Nat → Bool
  | 0, _, _ => false
  | _ + 1, [], _ => true
  | _ + 1, _, [] => true
  | steps + 1, a :: a' :: as, b :: b' :: bs =>
    if a' ≤ b then apart steps as (b :: b' :: bs)
    else if b' ≤ a then apart steps (a :: a' :: as) bs
    else false
  | _, _, _ => false

/-- Sets that are apart have no common member. -/
theorem Bounds.mem_of_apart {steps : Nat} {as bs : List Nat} {n : Nat}
    (h : Bounds.apart steps as bs = true) (ha : Bounds.mem as n = true) :
    Bounds.mem bs n = false := by
  induction steps, as, bs using Bounds.apart.induct with
  | case1 => cases h
  | case2 => cases ha
  | case3 => rfl
  | case4 steps a a' as b b' bs hle ih =>
    rw [Bounds.apart, if_pos hle] at h
    rw [Bounds.mem] at ha
    split at ha
    · cases ha
    · split at ha
      · exact Bounds.mem_of_lt_head (by omega)
      · exact ih h ha
  | case5 steps a a' as b b' bs hle hge ih =>
    rw [Bounds.apart, if_neg hle, if_pos hge] at h
    have hn : a ≤ n := by
      rw [Bounds.mem] at ha
      split at ha
      · cases ha
      · omega
    rw [Bounds.mem]
    split
    · rfl
    · rw [if_neg (by omega)]
      exact ih h ha
  | case6 steps a a' as b b' bs hle hge =>
    rw [Bounds.apart, if_neg hle, if_neg hge] at h
    cases h
  | case7 steps as bs h1 h2 h3 h4 =>
    rw [Bounds.apart.eq_5 steps as bs h1 h2 h3 h4] at h
    cases h

/-- Whether the numbers from `a` up to `b` lie between two boundaries. -/
def Bounds.covers : List Nat → (a b : Nat) → Bool
  | first :: stop :: rest, a, b => first ≤ a && (b ≤ stop || stop ≤ a && covers rest a b)
  | _, _, _ => false

theorem Bounds.mem_of_covers {bounds : List Nat} {a b n : Nat} (h : covers bounds a b = true)
    (ha : a ≤ n) (hb : n < b) : mem bounds n = true := by
  fun_induction covers bounds a b with
  | case1 first stop rest a b ih =>
    simp only [Bool.and_eq_true, Bool.or_eq_true, decide_eq_true_eq] at h
    obtain ⟨hfirst, hstop | ⟨hstop, hrest⟩⟩ := h
    · exact mem_head (by omega) (by omega)
    · rw [mem, if_neg (by omega), if_neg (by omega)]
      exact ih hrest ha hb
  | case2 => cases h

theorem decimals_are_digits :
    decimalZeros.all (fun z => Bounds.covers digitBounds z (z + 10)) = true := by
  decide

theorem isDigit_of_isDecimal {c : Char} (h : isDecimal c = true) : isDigit c = true := by
  simp only [isDecimal, decimal?, Option.isSome_map] at h
  obtain ⟨z, hz⟩ := Option.isSome_iff_exists.mp h
  have hrange := List.find?_some hz
  simp only [Bool.and_eq_true, decide_eq_true_eq] at hrange
  have hcovers := List.all_eq_true.mp decimals_are_digits z (List.mem_of_find?_eq_some hz)
  exact Bounds.mem_of_covers hcovers hrange.1 hrange.2

set_option maxRecDepth 8000 in
theorem letters_no_digits : Bounds.apart 2000 letterBounds digitBounds = true := by decide

set_option maxRecDepth 8000 in
theorem letters_no_blanks : Bounds.apart 2000 letterBounds blankBounds = true := by decide

theorem digits_no_blanks : Bounds.apart 2000 digitBounds blankBounds = true := by decide

variable {c : Char}

theorem isDigit_of_isNameStart (h : isNameStart c = true) : isDigit c = false := by
  rw [isNameStart, Bool.or_eq_true, beq_iff_eq] at h
  rcases h with h | rfl
  · exact Bounds.mem_of_apart letters_no_digits h
  · decide

theorem isBlank_of_isNameStart (h : isNameStart c = true) : isBlank c = false := by
  rw [isNameStart, Bool.or_eq_true, beq_iff_eq] at h
  rcases h with h | rfl
  · exact Bounds.mem_of_apart letters_no_blanks h
  · decide

end Text

namespace Token.Kind

/-- Whether a token can be written down. -/
def isWritten : Token.Kind → Bool
  | number x => Number.isUnsigned x
  | name s => isIdentifier s
  | _ => true

def spelling : Token.Kind → List Char
  | number x => (Number.plain x).toList
  | text s => (Text.literal s).toList
  | name s => s.toList
  | keyword w => w.text.toList
  | mark m => m.text.toList

end Token.Kind

namespace Lexer

open Text

/-- A token is scanned from its spelling, which starts like no gap. -/
structure Scans (cs : List Char) (k : Token.Kind) : Prop where
  token : ∃ c rest, cs = c :: rest ∧ scan c rest = ⟨.ok k, cs.length⟩
  noGap : ∀ rest, rest.head? ≠ some '/' → gapLength false (cs ++ rest) = 0
  line : '\n' ∉ cs

theorem gapLength_of_start {c : Char} {rest : List Char} (hb : isBlank c = false) (hh : c ≠ '#')
    (hs : c = '/' → rest.head? ≠ some '/') : gapLength false (c :: rest) = 0 := by
  have hcomment : (c == '#' || (c == '/' && rest.head? == some '/')) = false := by
    simp only [Bool.or_eq_false_iff, beq_eq_false_iff_ne, Bool.and_eq_false_iff]
    refine ⟨hh, ?_⟩
    by_cases hc : c = '/'
    · exact .inr (hs hc)
    · exact .inl hc
  simp [gapLength, hb, hcomment]

theorem scans_mark (m : Mark) : Scans m.text.toList (.mark m) := by
  cases m
  case slash =>
    exact ⟨⟨_, _, rfl, rfl⟩, fun rest hrest => gapLength_of_start (by decide) (by decide)
      fun _ => hrest, by decide⟩
  all_goals exact ⟨⟨_, _, rfl, rfl⟩, fun rest _ => rfl, by decide⟩

theorem scan_word {c : Char} {rest : List Char} (hc : isNameStart c = true)
    (hrest : ∀ d ∈ rest, isNamePart d = true) :
    scan c rest = ⟨.ok (wordKind (String.ofList (c :: rest))), rest.length + 1⟩ := by
  have htake : (c :: rest).takeWhile isNamePart = c :: rest := by
    rw [← List.append_nil (c :: rest), List.takeWhile_append_of_pos]
    · simp
    · intro d hd
      rcases List.mem_cons.mp hd with rfl | hd
      · exact isNamePart_of_isNameStart hc
      · exact hrest d hd
  simp [scan, isDigit_of_isNameStart hc, hc, htake]

theorem scans_word {s : String} (hstart : s.toList.head?.any isNameStart = true)
    (hpart : s.toList.all isNamePart = true) : Scans s.toList (wordKind s) := by
  obtain ⟨c, hhead, hc⟩ := (Option.any_eq_true _ _).mp hstart
  obtain ⟨rest, hs⟩ : ∃ rest, s.toList = c :: rest := List.head?_eq_some_iff.mp hhead
  rw [List.all_eq_true] at hpart
  rw [hs] at hpart ⊢
  have hword : String.ofList (c :: rest) = s := by rw [← hs, String.ofList_toList]
  refine ⟨⟨c, rest, rfl, ?_⟩, fun more _ => ?_, fun hline => ?_⟩
  · rw [scan_word hc fun d hd => hpart d (List.mem_cons_of_mem c hd), hword]
    rfl
  · refine gapLength_of_start (isBlank_of_isNameStart hc) ?_ ?_
    · rintro rfl
      exact absurd hc (by decide)
    · rintro rfl
      exact absurd hc (by decide)
  · exact absurd (hpart _ hline) (by decide)

theorem scans_keyword (w : Keyword) : Scans w.text.toList (.keyword w) := by
  have hkind : wordKind w.text = .keyword w := by cases w <;> rfl
  rw [← hkind]
  apply scans_word
  · cases w <;> decide
  · cases w <;> decide

theorem scans_name {s : String} (h : isIdentifier s = true) : Scans s.toList (.name s) := by
  simp only [isIdentifier, Bool.and_eq_true, Option.isNone_iff_eq_none] at h
  have hkind : wordKind s = .name s := by simp [wordKind, h.2]
  rw [← hkind]
  exact scans_word h.1.1 h.1.2

/-- A character of a literal stands for itself or behind a backslash. -/
theorem literalChar_cases (c : Char) :
    (∃ d, literalChar c = ['\\', d] ∧ unescape d = c ∧ d ≠ '\n') ∨
      literalChar c = [c] ∧ c ≠ '"' ∧ c ≠ '\\' ∧ c ≠ '\n' := by
  unfold literalChar
  by_cases hbackslash : c = '\\'
  · subst hbackslash
    exact .inl ⟨_, rfl, rfl, by decide⟩
  by_cases hquote : c = '"'
  · subst hquote
    exact .inl ⟨_, rfl, rfl, by decide⟩
  by_cases hnewline : c = '\n'
  · subst hnewline
    exact .inl ⟨_, rfl, rfl, by decide⟩
  by_cases hreturn : c = '\r'
  · subst hreturn
    exact .inl ⟨_, rfl, rfl, by decide⟩
  by_cases htab : c = '\t'
  · subst htab
    exact .inl ⟨_, rfl, rfl, by decide⟩
  right
  simp [hbackslash, hquote, hnewline, hreturn, htab]

/-- Escapes are undone. -/
theorem textBody?_literal (cs more : List Char) :
    textBody? (cs.flatMap literalChar ++ '"' :: more) =
      some (cs, (cs.flatMap literalChar).length + 1) := by
  induction cs with
  | nil => rfl
  | cons c cs ih =>
    rw [List.flatMap_cons, List.append_assoc]
    rcases literalChar_cases c with ⟨d, hd, hunescape, -⟩ | ⟨hc, hquote, hbackslash, -⟩
    · rw [hd]
      simp only [List.cons_append, List.nil_append, textBody?, ih, hunescape, Option.map_some,
        List.length_cons]
    · rw [hc, List.singleton_append, textBody?_cons hquote hbackslash, ih]
      rfl

/-- A literal is scanned up to its closing quote, whatever follows. -/
theorem scan_literal (s : String) (more : List Char) :
    scan '"' (s.toList.flatMap literalChar ++ '"' :: more) =
      ⟨.ok (.text s), (literal s).toList.length⟩ := by
  have hdigit : isDigit '"' = false := by decide
  have hname : isNameStart '"' = false := by decide
  simp [scan, hdigit, hname, textBody?_literal, literal]

/-- A text is scanned from its literal. -/
theorem scans_text (s : String) : Scans (literal s).toList (.text s) := by
  have hscan := scan_literal s []
  rw [literal, String.toList_ofList] at hscan ⊢
  rw [List.cons_append] at hscan ⊢
  refine ⟨⟨'"', _, rfl, hscan⟩, fun rest _ => rfl, ?_⟩
  · intro hline
    simp only [List.mem_cons, List.mem_append, List.mem_flatMap, List.not_mem_nil, or_false] at hline
    rcases hline with hline | ⟨c, -, hc⟩ | hline
    · cases hline
    · rcases literalChar_cases c with ⟨d, hd, -, hne⟩ | ⟨hd, -, -, hne⟩
      · rw [hd] at hc
        simp [hne.symm] at hc
      · rw [hd] at hc
        simp [hne.symm] at hc
    · cases hline

section Numerals

open Number

/-- Digits of whatever script belong to the numeral. -/
theorem numeralLength_append_digits {cs : List Char} (h : ∀ c ∈ cs, Text.isDigit c = true)
    (rest : List Char) : numeralLength (cs ++ rest) = cs.length + numeralLength rest := by
  induction cs with
  | nil => simp
  | cons c cs ih =>
    obtain ⟨hc, hcs⟩ := List.forall_mem_cons.mp h
    rw [List.cons_append, numeralLength, hc, Bool.true_or, if_pos rfl, ih hcs, List.length_cons]
    omega

theorem numeralLength_of_digits {cs : List Char} (h : ∀ c ∈ cs, Text.isDigit c = true) :
    numeralLength cs = cs.length := by
  simpa [numeralLength] using numeralLength_append_digits h []

/-- So does a point between or behind them. -/
theorem numeralLength_of_point {ws fs : List Char} (hws : ∀ c ∈ ws, Text.isDigit c = true)
    (hfs : ∀ c ∈ fs, Text.isDigit c = true) :
    numeralLength (ws ++ '.' :: fs) = (ws ++ '.' :: fs).length := by
  -- no second point stands behind the first
  have hpoint : (fs.head? != some '.') = true := by
    cases fs with
    | nil => rfl
    | cons d fs =>
      rw [List.head?_cons, bne_iff_ne]
      rintro ⟨⟩
      exact absurd (hfs '.' List.mem_cons_self) (by decide)
  rw [numeralLength_append_digits hws, numeralLength, hpoint, numeralLength_of_digits hfs]
  simp
  omega

theorem numeralLength_digits {cs : List Char} (h : AllDigits cs) (rest : List Char) :
    numeralLength (cs ++ rest) = cs.length + numeralLength rest :=
  numeralLength_append_digits (fun c hc => isDigit_of_isDigit (h c hc)) rest

theorem numeralLength_eq {cs : List Char} (h : IsNumeral cs) : numeralLength cs = cs.length := by
  have hdigits : ∀ ds, AllDigits ds → ∀ c ∈ ds, Text.isDigit c = true :=
    fun ds hds c hc => isDigit_of_isDigit (hds c hc)
  obtain ⟨ws, fs, -, hws, hfs, rfl | rfl⟩ := h
  · exact numeralLength_of_digits (hdigits _ hws)
  · exact numeralLength_of_point (hdigits ws hws) (hdigits fs hfs)

theorem isNumeral_chars {cs : List Char} (h : IsNumeral cs) :
    (∃ c rest, cs = c :: rest ∧ c.isDigit = true) ∧ '\n' ∉ cs := by
  obtain ⟨ws, fs, hne, hws, hfs, hcs⟩ := h
  constructor
  · obtain ⟨c, ws, rfl⟩ := List.exists_cons_of_ne_nil hne
    have hc := hws c List.mem_cons_self
    rcases hcs with rfl | rfl
    · exact ⟨c, ws, rfl, hc⟩
    · exact ⟨c, ws ++ '.' :: fs, rfl, hc⟩
  · intro hline
    rcases hcs with rfl | rfl
    · cases hws _ hline
    · rcases List.mem_append.mp hline with hline | hline
      · cases hws _ hline
      · rcases List.mem_cons.mp hline with hline | hline
        · cases hline
        · cases hfs _ hline

/-- An unsigned number is scanned from the text that programs print for it. -/
theorem scans_number {x : Float} (hx : Number.isUnsigned x = true) :
    Scans (Number.plain x).toList (.number x) := by
  obtain ⟨hnumeral, hread⟩ := plain_spells hx
  have hfinite : x.isInf = false := by
    obtain ⟨p, hp, -⟩ := (Option.any_eq_true _ _).mp hx
    exact Rounding.isInf_of_parts hp
  generalize (Number.plain x).toList = cs at hnumeral hread ⊢
  have hlength := numeralLength_eq hnumeral
  obtain ⟨⟨c, rest, rfl, hc⟩, hline⟩ := isNumeral_chars hnumeral
  refine ⟨⟨c, rest, rfl, ?_⟩, fun more _ => ?_, hline⟩
  · have htake : (c :: rest).take (c :: rest).length = c :: rest := List.take_length
    simp only [scan, isDigit_of_isDigit hc, if_true, hlength, htake, numeralKind, hread, hfinite,
      Bool.false_eq_true, if_false]
  · have hblank : isBlank c = false :=
      Bounds.mem_of_apart digits_no_blanks (isDigit_of_isDigit hc)
    refine gapLength_of_start hblank ?_ ?_
    · rintro rfl
      cases hc
    · rintro rfl
      cases hc

end Numerals

theorem scans_spelling {k : Token.Kind} (h : k.isWritten = true) : Scans k.spelling k := by
  cases k with
  | number x => exact scans_number h
  | text s => exact scans_text s
  | name s => exact scans_name h
  | keyword w => exact scans_keyword w
  | mark m => exact scans_mark m

/-- A token in front of tokens that it does not run into. -/
theorem Scans.lexes {cs rest : List Char} {k : Token.Kind} {ks : List Token.Kind} (h : Scans cs k)
    (hrest : Separated rest) (next : Lexes rest ks) : Lexes (cs ++ rest) (k :: ks) := by
  obtain ⟨⟨c, tail, rfl, hscan⟩, hgap, -⟩ := h
  have htoken : scan c (tail ++ rest) = ⟨.ok k, (c :: tail).length⟩ := by
    cases rest with
    | nil => rw [List.append_nil, hscan]
    | cons e more => rw [scan_append (hrest e rfl) more (by rw [hscan]), hscan]
  have hstart : gapLength false (c :: tail ++ rest) = 0 :=
    hgap rest fun hslash => (hrest '/' hslash).slash rfl
  refine Lexes.token (by rw [hstart]; rfl) htoken ?_
  rw [← List.cons_append, List.drop_left]
  exact next

/-- Marks of one character that are the start of no other mark. -/
theorem lexes_single {c : Char} (hc : c ∈ ['[', ']', ',', '-']) {m : Mark}
    (hm : Mark.ofChar? c = some m) {rest : List Char} {ks : List Token.Kind} (next : Lexes rest ks) :
    Lexes (c :: rest) (.mark m :: ks) := by
  simp only [List.mem_cons, List.not_mem_nil, or_false] at hc
  have hpair : rest.head?.bind (Mark.ofPair? c) = none := by
    cases rest with
    | nil => rfl
    | cons d rest =>
      simp only [List.head?_cons, Option.bind_some]
      unfold Mark.ofPair?
      split <;> simp_all
  have hscan : scan c rest = ⟨.ok (.mark m), 1⟩ := by
    have hmark : scan c rest = scanMark c rest := by
      rcases hc with rfl | rfl | rfl | rfl <;> rfl
    simp only [hmark, scanMark, hpair, hm]
  have hgap : gapLength false (c :: rest) = 0 := by
    rcases hc with rfl | rfl | rfl | rfl <;> rfl
  exact Lexes.token (by rw [hgap]; rfl) hscan next

theorem Lexes.space {cs : List Char} {ks : List Token.Kind} (h : Lexes cs ks) :
    Lexes (' ' :: cs) ks := by
  have hgap : gapLength false (' ' :: cs) = gapLength false cs + 1 := by
    have hblank : isBlank ' ' = true := by decide
    simp [gapLength, hblank, Nat.add_comm]
  cases h with
  | finish gap =>
    apply Lexes.finish
    rw [hgap, gap, List.length_cons]
  | token gap scanned next =>
    refine Lexes.token ?_ scanned next
    rw [hgap, List.drop_succ_cons, gap]

/-- The text of tokens with a blank behind each. -/
def spaced (ks : List Token.Kind) : List Char := ks.flatMap fun k => k.spelling ++ [' ']

/-- Spaced tokens are the tokens of their text. -/
theorem lexes_spaced {ks : List Token.Kind} (h : ks.all Token.Kind.isWritten = true) :
    Lexes (spaced ks) ks := by
  induction ks with
  | nil => exact .finish rfl
  | cons k ks ih =>
    rw [List.all_cons, Bool.and_eq_true] at h
    have htext : spaced (k :: ks) = k.spelling ++ ' ' :: spaced ks := by
      simp [spaced]
    have hblank : Separated (' ' :: spaced ks) := by
      rintro e ⟨⟩
      exact separates_of_mem (by decide)
    rw [htext]
    exact (scans_spelling h.1).lexes hblank (ih h.2).space

theorem spaced_line {ks : List Token.Kind} (h : ks.all Token.Kind.isWritten = true) :
    '\n' ∉ spaced ks := by
  intro hline
  obtain ⟨k, hk, hc⟩ := List.mem_flatMap.mp hline
  rcases List.mem_append.mp hc with hc | hc
  · exact (scans_spelling (List.all_eq_true.mp h k hk)).line hc
  · simp at hc

end Lexer

/-- A cursor in front of a token reads it and moves behind it. -/
theorem Cursor.next_eq_token_iff {before rest : List Char} {d : Char} {p : Position} {t : Token}
    {c : Cursor} (hgap : Lexer.gapLength false (d :: rest) = 0) :
    Cursor.next ⟨before, d :: rest, p⟩ = (.token t, c) ↔
      t.position = p ∧ ∃ n, Lexer.scan d rest = ⟨.ok t.kind, n⟩ ∧
        c = Cursor.skip ⟨before, d :: rest, p⟩ n := by
  have hskip : (Cursor.mk before (d :: rest) p).skipGap = ⟨before, d :: rest, p⟩ := by
    rw [Cursor.skipGap, hgap]
    rfl
  obtain ⟨kind, position⟩ := t
  cases hs : Lexer.scan d rest with
  | mk outcome n =>
    simp only [Cursor.next, hskip, hs]
    cases outcome with
    | error fault => simp
    | ok k =>
      constructor
      · intro h
        cases h
        exact ⟨rfl, n, rfl, rfl⟩
      · rintro ⟨rfl, m, hm, rfl⟩
        cases hm
        rfl

end Scripting
