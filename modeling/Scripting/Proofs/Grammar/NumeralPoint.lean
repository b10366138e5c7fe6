import Scripting.Grammar.Choice
import Scripting.Proofs.Grammar.Engine
import Scripting.Proofs.Parser.Programs

/-!
A point behind a numeral. The lexer counts a point behind digits as a part of the numeral even if no
digit follows; for the grammar such a point is a mark of its own. So the two front ends read a
numeral, a point and a name as two statements and as one access to a field, unless a blank stands
before the point.
-/

namespace Scripting

open Number

/-- Whether a text is a name for both front ends: it is spelled with ASCII letters, digits and
underscores, and it is no keyword. -/
def isPlainName (x : String) : Bool := isIdentifier x && x.toList.all Grammar.isNamePart

theorem isPlainName_chars {x : String} (h : isPlainName x = true) :
    Keyword.ofText? x = none ∧ ∃ c rest, x.toList = c :: rest ∧ Text.isNameStart c = true ∧
      (∀ d ∈ c :: rest, Text.isNamePart d = true) ∧ ∀ d ∈ c :: rest, Grammar.isNamePart d = true := by
  simp only [isPlainName, isIdentifier, Bool.and_eq_true, Option.isNone_iff_eq_none,
    List.all_eq_true] at h
  obtain ⟨⟨⟨hstart, hpart⟩, hkeyword⟩, hascii⟩ := h
  obtain ⟨c, hhead, hc⟩ := (Option.any_eq_true _ _).mp hstart
  obtain ⟨rest, hx⟩ := List.head?_eq_some_iff.mp hhead
  rw [hx] at hpart hascii
  exact ⟨hkeyword, c, rest, hx, hc, hpart, hascii⟩

namespace Lexer

open Text

/-- A point behind digits belongs to the numeral if no point follows. -/
theorem numeralLength_point {ds : List Char} (hds : AllDigits ds) {c : Char} (hc : isDigit c = false)
    (hpoint : c ≠ '.') (rest : List Char) :
    numeralLength (ds ++ '.' :: c :: rest) = ds.length + 1 := by
  have hnext : ((c :: rest).head? != some '.') = true := by simpa using hpoint
  have hstop : numeralLength (c :: rest) = 0 := by simp [numeralLength, hc, hpoint]
  rw [numeralLength_digits hds, numeralLength, hnext, hstop]
  simp

theorem gapLength_digit {d : Char} (hd : d.isDigit = true) (rest : List Char) :
    gapLength false (d :: rest) = 0 := by
  refine gapLength_of_start (Bounds.mem_of_apart digits_no_blanks (isDigit_of_isDigit hd)) ?_ ?_
  · rintro rfl
    cases hd
  · rintro rfl
    cases hd

/-- A name in front of a semicolon. -/
theorem lexes_name {x : String} (hx : isPlainName x = true) :
    Lexes (x.toList ++ [';']) [.name x, .mark .semicolon] := by
  obtain ⟨hkeyword, c, rest, hchars, hc, hpart, -⟩ := isPlainName_chars hx
  have htake : ((c :: rest) ++ [';']).takeWhile isNamePart = c :: rest := by
    rw [List.takeWhile_append_of_pos hpart]
    simp [show isNamePart ';' = false by decide]
  have hkind : wordKind (String.ofList (c :: rest)) = .name x := by
    rw [← hchars, String.ofList_toList, wordKind, hkeyword]
  have hscan : scan c (rest ++ [';']) = ⟨.ok (.name x), (c :: rest).length⟩ := by
    simp only [scan, isDigit_of_isNameStart hc, hc, Bool.false_eq_true, if_false, if_true,
      ← List.cons_append, htake, hkind]
  have hgap : gapLength false (c :: (rest ++ [';'])) = 0 := by
    refine gapLength_of_start (isBlank_of_isNameStart hc) ?_ ?_
    · rintro rfl
      exact absurd hc (by decide)
    · rintro rfl
      exact absurd hc (by decide)
  rw [hchars, List.cons_append]
  refine Lexes.token (by rw [hgap]; rfl) hscan ?_
  rw [← List.cons_append, List.drop_left]
  exact lexes_semicolon

/-- A numeral at the front of a text. -/
theorem lexes_numeral {d : Char} {cs rest : List Char} {v : Float} {ks : List Token.Kind}
    (hd : d.isDigit = true) (hlength : numeralLength (d :: cs ++ rest) = (d :: cs).length)
    (hvalue : numeral? (d :: cs) = some v) (hfinite : v.isInf = false) (h : Lexes rest ks) :
    Lexes (d :: cs ++ rest) (.number v :: ks) := by
  have htake : (d :: cs ++ rest).take (d :: cs).length = d :: cs := List.take_left
  have hscan : scan d (cs ++ rest) = ⟨.ok (.number v), (d :: cs).length⟩ := by
    simp only [scan, isDigit_of_isDigit hd, if_true, ← List.cons_append, hlength, htake, numeralKind,
      hvalue, hfinite, Bool.false_eq_true, if_false]
  rw [List.cons_append]
  refine Lexes.token ?_ hscan ?_
  · rw [gapLength_digit hd]
    rfl
  · rw [← List.cons_append, List.drop_left]
    exact h

/-- A point that stands apart from the numeral before it. -/
theorem lexes_dot {x : String} (hx : isPlainName x = true) :
    Lexes ('.' :: (x.toList ++ [';'])) [.mark .dot, .name x, .mark .semicolon] := by
  obtain ⟨-, c, rest, hchars, hc, -, -⟩ := isPlainName_chars hx
  have hpair : Mark.ofPair? '.' c = none := by
    have hpoint : c ≠ '.' := by
      rintro rfl
      exact absurd hc (by decide)
    unfold Mark.ofPair?
    split <;> simp_all
  have hscan : scan '.' (x.toList ++ [';']) = ⟨.ok (.mark .dot), 1⟩ := by
    have hdigit : isDigit '.' = false := by decide
    have hname : isNameStart '.' = false := by decide
    have hmark : Mark.ofChar? '.' = some .dot := rfl
    simp [scan, scanMark, hdigit, hname, hchars, hpair, hmark]
  have hgap : gapLength false ('.' :: (x.toList ++ [';'])) = 0 :=
    gapLength_of_start (by decide) (by decide) fun h => absurd h (by decide)
  refine Lexes.token ?_ hscan (lexes_name hx)
  rw [hgap]
  rfl

section

variable {ds : List Char} {v : Float} {x : String} (hds : AllDigits ds) (hne : ds ≠ [])
  (hv : numeral? ds = some v) (hfinite : v.isInf = false) (hx : isPlainName x = true)
include hds hne hv hfinite hx

/-- The point belongs to the numeral. -/
theorem lexes_point :
    Lexes (ds ++ '.' :: (x.toList ++ [';'])) [.number v, .name x, .mark .semicolon] := by
  obtain ⟨-, c, rest, hchars, hc, -, -⟩ := isPlainName_chars hx
  have hpoint : c ≠ '.' := by
    rintro rfl
    exact absurd hc (by decide)
  have hlength : numeralLength ((ds ++ ['.']) ++ (x.toList ++ [';'])) = (ds ++ ['.']).length := by
    rw [hchars, List.append_assoc]
    simpa using numeralLength_point hds (isDigit_of_isNameStart hc) hpoint (rest ++ [';'])
  have hvalue : numeral? (ds ++ ['.']) = some v := by
    have hwhole := numeral?_whole hne hds
    have hempty : AllDigits [] := AllDigits.zeros 0
    rw [numeral?_point hne hds hempty, List.append_nil]
    exact hwhole.symm.trans hv
  obtain ⟨d, ds, rfl⟩ := List.exists_cons_of_ne_nil hne
  rw [List.append_cons]
  exact lexes_numeral (hds d List.mem_cons_self) hlength hvalue hfinite (lexes_name hx)

/-- A blank keeps the point out of the numeral. -/
theorem lexes_blank_point :
    Lexes (ds ++ ' ' :: '.' :: (x.toList ++ [';']))
      [.number v, .mark .dot, .name x, .mark .semicolon] := by
  have hlength : numeralLength (ds ++ ' ' :: '.' :: (x.toList ++ [';'])) = ds.length := by
    have hblank : isDigit ' ' = false := by decide
    rw [numeralLength_digits hds, numeralLength, hblank]
    rfl
  obtain ⟨d, ds, rfl⟩ := List.exists_cons_of_ne_nil hne
  exact lexes_numeral (hds d List.mem_cons_self) hlength hv hfinite (lexes_dot hx).space

end

end Lexer

namespace Parser

open Printer

variable {place : Position → Prop} {r : Sorts}

theorem reads_name (x : String) :
    Reads place (goesOn true 10) (primary r true) [.name x] (.name (.text x)) := by
  unfold primary
  apply Reads.lookKind
  apply Reads.advance
  split
  · apply Reads.atMark_nil_false
    · rfl
    · exact Reads.pure _
  · exact Reads.pure _

theorem reads_numberField (v : Float) (x : String) (hbound : 3 < r.bound) :
    ReadsOn place r true 9 [.number v, .mark .dot, .name x] (.field (.number v) (.text x)) := by
  have hlead : Leads place r true 9 [.number v] (.number v) :=
    (readsOn_number v).leads (by rw [List.length_singleton]; omega)
  exact (hlead.field x).readsOn isLoop_trailer hbound

variable {limit : Option Int}

/-- A numeral and a name without a semicolon between them are two statements. -/
theorem parseStream_numeral_name {v : Float} {x : String} {S : Stream} {q : Position}
    (hS : Stream.Begins (fun _ => True) (.finish q) [.number v, .name x, .mark .semicolon] S) :
    parseStream limit S = .ok [.expr (.number v), .expr (.name (.text x))] := by
  have hnumber : Reads (fun _ => True) (goesOn true 0) (Parser.expression limit 7 true) [.number v]
      (.number v) :=
    ReadsOn.expression (Nat.le_refl 10) (by simp) (readsOn_number v)
  have hname : Reads (fun _ => True) (goesOn true 0) (Parser.expression limit 7 true) [.name x]
      (.name (.text x)) :=
    ReadsOn.expression (Nat.le_refl 10) (by simp) fun _ _ => reads_name x
  have hfirst : Reads (fun _ => True) stmtGoesOn (statement limit 8) [.number v]
      (.expr (.number v)) :=
    reads_statement (opensExpr_of_token rfl rfl _) ⟨_, _, rfl, rfl⟩ (reads_open_expression hnumber)
  have hended : Reads (fun _ => True) (fun _ => false)
      (expressionStatement ⟨Parser.expression limit 7, statement limit 7, limit, 7⟩)
      ([.name x] ++ [.mark .semicolon]) (.expr (.name (.text x))) := reads_ended_expression hname
  have hsecond : Reads (fun _ => True) (fun _ => false) (statement limit 8)
      [.name x, .mark .semicolon] (.expr (.name (.text x))) :=
    reads_statement (opensExpr_of_token rfl rfl _) ⟨_, _, rfl, rfl⟩ hended
  have hrest : Reads (fun _ => True) Option.isSome
      (program ⟨Parser.expression limit 8, statement limit 8, limit, 8⟩ 7)
      [.name x, .mark .semicolon] [.expr (.name (.text x))] :=
    reads_program_last (by simp) hsecond rfl
  have hfollow : Follow stmtGoesOn Option.isSome [.name x, .mark .semicolon] := rfl
  have hprogram : Reads (fun _ => True) Option.isSome
      (program ⟨Parser.expression limit 8, statement limit 8, limit, 8⟩ 8)
      ([.number v] ++ [.name x, .mark .semicolon])
      [.expr (.number v), .expr (.name (.text x))] :=
    reads_program_cons (by simp) hfirst hrest hfollow
  exact parseStream_of_reads hS hprogram

/-- A numeral, a point and a name are an access to a field. -/
theorem parseStream_numeral_field {v : Float} {x : String} {S : Stream} {q : Position}
    (hS : Stream.Begins (fun _ => True) (.finish q)
      [.number v, .mark .dot, .name x, .mark .semicolon] S) :
    parseStream limit S = .ok [.expr (.field (.number v) (.text x))] := by
  have hfield : Reads (fun _ => True) (goesOn true 0) (Parser.expression limit 9 true)
      [.number v, .mark .dot, .name x] (.field (.number v) (.text x)) :=
    ReadsOn.expression (Nat.le_succ 9) (by simp) (reads_numberField v x (by simp))
  have hended : Reads (fun _ => True) (fun _ => false)
      (expressionStatement ⟨Parser.expression limit 9, statement limit 9, limit, 9⟩)
      ([.number v, .mark .dot, .name x] ++ [.mark .semicolon])
      (.expr (.field (.number v) (.text x))) := reads_ended_expression hfield
  have hstmt : Reads (fun _ => True) (fun _ => false) (statement limit 10)
      [.number v, .mark .dot, .name x, .mark .semicolon] (.expr (.field (.number v) (.text x))) :=
    reads_statement (opensExpr_of_token rfl rfl _) ⟨_, _, rfl, rfl⟩ hended
  have hprogram : Reads (fun _ => True) Option.isSome
      (program ⟨Parser.expression limit 10, statement limit 10, limit, 10⟩ 10)
      [.number v, .mark .dot, .name x, .mark .semicolon] [.expr (.field (.number v) (.text x))] :=
    reads_program_last (by simp) hstmt rfl
  exact parseStream_of_reads hS hprogram

end Parser

namespace Grammar

/-- A point behind digits belongs to the numeral only if a digit follows. -/
theorem numeralLength_point {ds : List Char} (hds : AllDigits ds) {c : Char}
    (hc : Text.isDecimal c = false) (rest : List Char) :
    numeralLength (ds ++ '.' :: c :: rest) = ds.length := by
  obtain ⟨htake, -⟩ := takeWhile_digits hds ('.' :: c :: rest)
    (show (!Text.isDecimal '.') = true by decide)
  simp [numeralLength, htake, hc]

theorem gapLength_of_start {c : Char} (h : isNamePart c = true) (rest : List Char) :
    gapLength false (c :: rest) = 0 := by
  have hgap : isGap c = false := by
    simp only [isGap, Bool.or_eq_false_iff, beq_eq_false_iff_ne]
    refine ⟨⟨⟨⟨?_, ?_⟩, ?_⟩, ?_⟩, ?_⟩
    all_goals rintro rfl; exact absurd h (by decide)
  have hcomment : c ≠ '#' ∧ c ≠ '/' := by
    refine ⟨?_, ?_⟩
    all_goals rintro rfl; exact absurd h (by decide)
  simp [gapLength, hgap, hcomment.1, hcomment.2]

theorem isNamePart_of_isDigit {c : Char} (h : c.isDigit = true) : isNamePart c = true := by
  simp [isNamePart, Char.isAlphanum, h]

theorem isNameStart_of_isDigit {c : Char} (h : c.isDigit = true) : isNameStart c = false := by
  obtain ⟨hlow, hhigh⟩ := toNat_of_isDigit h
  have hunder : c ≠ '_' := by
    rintro rfl
    cases h
  have hupper : ¬ 65 ≤ c.val := fun hle => absurd (show 65 ≤ c.toNat from hle) (by omega)
  have hlower : ¬ 97 ≤ c.val := fun hle => absurd (show 97 ≤ c.toNat from hle) (by omega)
  simp [isNameStart, Char.isAlpha, Char.isUpper, Char.isLower, hunder, hupper, hlower]

/-- A character that starts a name and is ASCII. -/
theorem isNameStart_of_isNamePart {c : Char} (hc : Text.isNameStart c = true)
    (h : isNamePart c = true) : isNameStart c = true := by
  simp only [isNamePart, Char.isAlphanum, Bool.or_eq_true] at h
  rcases h with (halpha | hdigit) | hunder
  · simp [isNameStart, halpha]
  · have hfalse := Text.isDigit_of_isNameStart hc
    rw [isDigit_of_isDigit hdigit] at hfalse
    cases hfalse
  · simp [isNameStart, hunder]

def Terminal.opens : Terminal → Char → Bool
  | .name, c | .keyword _, c => isNameStart c
  | .number, c => Text.isDecimal c
  | .text, c => c == '"'
  | .mark m, c => m.text.toList.head? == some c

theorem keyword_chars (k : Keyword) :
    k.text.toList.head?.any isNameStart = true ∧ k.text.toList.all isNamePart = true := by
  cases k <;> decide

/-- A word that a terminal takes starts with one of its characters. -/
theorem Terminal.Takes.opens {t : Terminal} {word rest more : List Char} {c : Char}
    (h : t.Takes word rest) (heq : word ++ rest = c :: more) : t.opens c = true := by
  obtain ⟨d, word, rfl⟩ := List.exists_cons_of_ne_nil h.ne_nil
  obtain rfl := (List.cons.inj heq).1
  cases t with
  | name => exact h.1
  | number => exact h.1
  | text =>
    obtain ⟨body, hbody, -⟩ := h
    exact beq_iff_eq.mpr (List.cons.inj hbody).1
  | keyword k =>
    have hstart := (keyword_chars k).1
    rw [← h.2] at hstart
    exact hstart
  | mark m =>
    have hmark : d :: word = m.text.toList := h
    rw [Terminal.opens, ← hmark]
    exact beq_self_eq_true _

theorem opens_mark_of_isNamePart {m : Mark} {c : Char} (h : isNamePart c = true) :
    (Terminal.mark m).opens c = false := by
  refine Bool.eq_false_iff.mpr fun hopens => ?_
  have hmark : m.text.toList.head?.any isNamePart = false := by cases m <;> decide
  rw [beq_iff_eq.mp hopens] at hmark
  exact absurd (hmark.symm.trans h) (by decide)

/-- Only a numeral starts with a digit. -/
theorem leads_number {ds rest : List Char} (hds : AllDigits ds) (hne : ds ≠ [])
    (hlength : numeralLength (ds ++ rest) = ds.length) : Terminal.number.Leads ds rest := by
  obtain ⟨d, ds, rfl⟩ := List.exists_cons_of_ne_nil hne
  have hd : d.isDigit = true := hds d List.mem_cons_self
  refine ⟨⟨isDecimal_of_isDigit hd, hlength.symm⟩, fun {t word rest'} heq htakes => ?_⟩
  have hopens := htakes.opens heq
  have hstart := isNameStart_of_isDigit hd
  cases t with
  | name => exact absurd (hstart.symm.trans hopens) (by decide)
  | number =>
    have hword := htakes.2
    rw [heq, hlength] at hword
    exact .inr ⟨(List.append_inj heq hword).1, .inl rfl⟩
  | text =>
    obtain rfl := beq_iff_eq.mp hopens
    cases hd
  | keyword k => exact absurd (hstart.symm.trans hopens) (by decide)
  | mark m =>
    exact absurd ((opens_mark_of_isNamePart (isNamePart_of_isDigit hd)).symm.trans hopens) (by decide)

section Name

variable {x : String} (hx : isPlainName x = true)
include hx

/-- A word at the front of a name is shorter, unless it is the name. -/
theorem front_of_name {word rest : List Char} (heq : word ++ rest = x.toList ++ [';'])
    (hword : word.all isNamePart = true) :
    (∃ c more, rest = c :: more ∧ Text.isNamePart c = true ∧ word.length < x.toList.length) ∨
      word = x.toList := by
  obtain ⟨-, c, rest', hchars, -, hpart, -⟩ := isPlainName_chars hx
  rw [← hchars] at hpart
  rcases List.append_eq_append_iff.mp heq with ⟨more, hname, hrest⟩ | ⟨more, hmore, hrest⟩
  · cases more with
    | nil => exact .inr (by rw [hname, List.append_nil])
    | cons c more =>
      refine .inl ⟨c, more ++ [';'], hrest, hpart c (by simp [hname]), ?_⟩
      simp [hname]
  · -- a longer word would go on over the semicolon
    cases more with
    | nil => exact .inr (by rw [hmore, List.append_nil])
    | cons c more =>
      obtain rfl := (List.cons.inj hrest).1
      rw [List.all_eq_true] at hword
      exact absurd (hword ';' (by simp [hmore])) (by decide)

theorem keyword_ne {k : Keyword} (h : k.text.toList = x.toList) : False := by
  have hkeyword := (isPlainName_chars hx).1
  rw [← String.toList_injective h] at hkeyword
  exact absurd hkeyword (by cases k <;> decide)

/-- A name goes on to the semicolon, and a keyword takes less than a whole name. -/
theorem leads_name : Terminal.name.Leads x.toList [';'] := by
  obtain ⟨-, c, rest, hchars, hc, -, hascii⟩ := isPlainName_chars hx
  have hpart := hascii c List.mem_cons_self
  have hstart := isNameStart_of_isNamePart hc hpart
  have htake : (x.toList ++ [';']).takeWhile isNamePart = x.toList := by
    rw [hchars, List.takeWhile_append_of_pos hascii]
    simp [show isNamePart ';' = false by decide]
  refine ⟨⟨by rw [hchars]; exact hstart, htake.symm, ?_⟩, fun {t word rest'} heq htakes => ?_⟩
  · rintro ⟨k, rest', -, heq, hend⟩
    rcases front_of_name hx heq.symm (keyword_chars k).2 with ⟨c', more, rfl, hc', -⟩ | hname
    · exact absurd (hend.symm.trans hc') (by decide)
    · exact keyword_ne hx hname
  · have hopens : t.opens c = true := htakes.opens (by rw [heq, hchars]; rfl)
    cases t with
    | name => exact .inr ⟨by rw [htakes.2.1, heq, htake], .inl rfl⟩
    | number =>
      have hdigit := Text.isDigit_of_isDecimal hopens
      exact absurd (hdigit.symm.trans (Text.isDigit_of_isNameStart hc)) (by decide)
    | text =>
      obtain rfl := beq_iff_eq.mp hopens
      exact absurd hc (by decide)
    | keyword k =>
      obtain ⟨-, rfl⟩ := htakes
      rcases front_of_name hx heq (keyword_chars k).2 with ⟨-, -, -, -, hless⟩ | hname
      · exact .inl hless
      · exact (keyword_ne hx hname).elim
    | mark m => exact absurd ((opens_mark_of_isNamePart hpart).symm.trans hopens) (by decide)

end Name

/-- A mark of one character, unless a longer one stands there. -/
theorem leads_mark {m : Mark} {c : Char} {rest : List Char} (hm : m.text.toList = [c])
    (hc : isNameStart c = false ∧ Text.isDecimal c = false ∧ c ≠ '"')
    (hlonger : ∀ m' : Mark, m'.text.toList.head? = some c →
      m' = m ∨ ¬ m'.text.toList <+: c :: rest) :
    (Terminal.mark m).Leads [c] rest := by
  refine ⟨hm.symm, fun {t word rest'} heq htakes => ?_⟩
  have hopens := htakes.opens heq
  cases t with
  | name => exact absurd (hc.1.symm.trans hopens) (by decide)
  | number => exact absurd (hc.2.1.symm.trans hopens) (by decide)
  | text => exact absurd (beq_iff_eq.mp hopens) hc.2.2
  | keyword k => exact absurd (hc.1.symm.trans hopens) (by decide)
  | mark m' =>
    have hword : word = m'.text.toList := htakes
    rcases hlonger m' (beq_iff_eq.mp hopens) with rfl | hnot
    · exact .inr ⟨hword.trans hm, .inl rfl⟩
    · exact absurd ⟨rest', hword ▸ heq⟩ hnot

theorem leads_semicolon : (Terminal.mark .semicolon).Leads [';'] [] := by
  refine leads_mark rfl (by decide) fun m hm => .inl ?_
  revert hm
  cases m <;> decide

theorem leads_dot {c : Char} (hc : c ≠ '.') (rest : List Char) :
    (Terminal.mark .dot).Leads ['.'] (c :: rest) := by
  refine leads_mark rfl (by decide) fun m hm => ?_
  have hpoint : m = .dot ∨ m = .dots := by
    revert hm
    cases m <;> decide
  refine hpoint.imp_right ?_
  rintro rfl ⟨more, hmore⟩
  exact hc (List.cons.inj (List.cons.inj hmore).2).1.symm

/-- A blank before a text is left out. -/
theorem cut_blank {cs : List Char} (ls : List (Terminal × List Char)) :
    Cut (' ' :: cs) ls ↔ Cut cs ls := by
  have hgap : gapLength false (' ' :: cs) = gapLength false cs + 1 := by
    simp [gapLength, isGap, Nat.add_comm]
  constructor
  · rintro (gap | ⟨front, leads, next⟩)
    · rw [hgap, List.length_cons] at gap
      exact .finish (Nat.succ.inj gap)
    · rw [hgap, List.drop_succ_cons] at front
      exact .leaf front leads next
  · rintro (gap | ⟨front, leads, next⟩)
    · exact .finish (by rw [hgap, gap, List.length_cons])
    · exact .leaf (by rw [hgap, List.drop_succ_cons, front]) leads next

/-- The leaves of a name and a semicolon behind a point. -/
theorem cut_dot {x : String} (hx : isPlainName x = true) (ls : List (Terminal × List Char)) :
    Cut ('.' :: (x.toList ++ [';'])) ls ↔
      ls = [(.mark .dot, ['.']), (.name, x.toList), (.mark .semicolon, [';'])] := by
  obtain ⟨-, c, rest, hchars, hc, -, hascii⟩ := isPlainName_chars hx
  have hpoint : c ≠ '.' := by
    rintro rfl
    exact absurd hc (by decide)
  have hdot : (Terminal.mark .dot).Leads ['.'] (x.toList ++ [';']) := by
    rw [hchars]
    exact leads_dot hpoint _
  have hgap : gapLength false (x.toList ++ [';']) = 0 := by
    rw [hchars]
    exact gapLength_of_start (hascii c List.mem_cons_self) _
  have hend : ∀ ls, Cut [] ls ↔ ls = [] := by
    refine fun ls => ⟨?_, ?_⟩
    · rintro (- | ⟨front, leads, -⟩)
      · rfl
      · exact absurd (List.append_eq_nil_iff.mp front.symm).1 leads.takes.ne_nil
    · rintro rfl
      exact .finish rfl
  have hfirst : ('.' :: (x.toList ++ [';'])).drop (gapLength false ('.' :: (x.toList ++ [';']))) =
      ['.'] ++ (x.toList ++ [';']) := rfl
  have hsecond : (x.toList ++ [';']).drop (gapLength false (x.toList ++ [';'])) =
      x.toList ++ [';'] := by rw [hgap]; rfl
  have hthird : [';'].drop (gapLength false [';']) = [';'] ++ [] := rfl
  simp only [cut_iff hfirst hdot, cut_iff hsecond (leads_name hx), cut_iff hthird leads_semicolon,
    hend]
  constructor
  · rintro ⟨_, rfl, _, rfl, _, rfl, rfl⟩
    rfl
  · rintro rfl
    exact ⟨_, rfl, _, rfl, _, rfl, rfl⟩

/-- Digits and a blank are cut like digits alone. -/
theorem numeralLength_blank {ds : List Char} (hds : AllDigits ds) (rest : List Char) :
    numeralLength (ds ++ ' ' :: rest) = ds.length := by
  obtain ⟨htake, -⟩ := takeWhile_digits hds (' ' :: rest)
    (show (!Text.isDecimal ' ') = true by decide)
  simp [numeralLength, htake]

section

variable {ds : List Char} {x : String} (hds : AllDigits ds) (hne : ds ≠ [])
  (hx : isPlainName x = true)
include hds hne hx

/-- A numeral in front of a text whose leaves are a point, a name and a semicolon. -/
theorem cut_numeral {rest : List Char} (hlength : numeralLength (ds ++ rest) = ds.length)
    (hrest : ∀ ls, Cut rest ls ↔ Cut ('.' :: (x.toList ++ [';'])) ls)
    (ls : List (Terminal × List Char)) :
    Cut (ds ++ rest) ls ↔ ls = [(.number, ds), (.mark .dot, ['.']), (.name, x.toList),
      (.mark .semicolon, [';'])] := by
  obtain ⟨d, ds', hchars⟩ := List.exists_cons_of_ne_nil hne
  have hgap : gapLength false (ds ++ rest) = 0 := by
    rw [hchars]
    exact gapLength_of_start (isNamePart_of_isDigit (hds d (by simp [hchars]))) _
  have hfront : (ds ++ rest).drop (gapLength false (ds ++ rest)) = ds ++ rest := by rw [hgap]; rfl
  simp only [cut_iff hfront (leads_number hds hne hlength), hrest, cut_dot hx]
  constructor
  · rintro ⟨_, rfl, rfl⟩
    rfl
  · rintro rfl
    exact ⟨_, rfl, rfl⟩

theorem cut_point (ls : List (Terminal × List Char)) :
    Cut (ds ++ '.' :: (x.toList ++ [';'])) ls ↔ ls = [(.number, ds), (.mark .dot, ['.']),
      (.name, x.toList), (.mark .semicolon, [';'])] := by
  obtain ⟨-, c, rest, hchars, hc, -, -⟩ := isPlainName_chars hx
  have hdecimal : Text.isDecimal c = false := by
    refine Bool.eq_false_iff.mpr fun h => ?_
    have hdigit := Text.isDigit_of_isDecimal h
    rw [Text.isDigit_of_isNameStart hc] at hdigit
    cases hdigit
  refine cut_numeral hds hne hx ?_ (fun _ => Iff.rfl) ls
  rw [hchars]
  exact numeralLength_point hds hdecimal _

theorem cut_blank_point (ls : List (Terminal × List Char)) :
    Cut (ds ++ ' ' :: '.' :: (x.toList ++ [';'])) ls ↔ ls = [(.number, ds), (.mark .dot, ['.']),
      (.name, x.toList), (.mark .semicolon, [';'])] :=
  cut_numeral hds hne hx (numeralLength_blank hds _) (fun _ => cut_blank _) ls

end

def operand (d : Derivation) : Derivation :=
  .node .expr 0 [.node .assignment 1 [.node .orExpr 1 [.node .andExpr 1 [.node .equality 2
    [.node .comparison 4 [.node .sum 3 [.node .product 3 [.node .power 1 [.node .unary 2 [d]]]]]]]]]]

/-- The derivation of a program that is one expression with a semicolon. -/
def single (d : Derivation) (semicolon : Leaf) : Derivation :=
  .node .start 1 [.node .items 0 [.node .item 0 [.node .statement 13
    [.node .exprStmt 0 [d, .leaf semicolon]]]]]

/-- The derivation of an access to a field of a numeral. -/
def numberField (number dot name : Leaf) : Derivation :=
  .node .trailed 2 [.node .trailed 4 [.node .primary 0 [.leaf number]], .leaf dot, .leaf name]

theorem yield_single (number dot name semicolon : Leaf) :
    (single (operand (numberField number dot name)) semicolon).yield =
      [number, dot, name, semicolon] := by
  simp [single, operand, numberField, Derivation.yield, yieldAll]

theorem follows_node {n : Nonterminal} {k : Nat} {ds : List Derivation}
    (hk : (alternatives n)[k]? = some (ds.map Derivation.root)) (hds : allFollow ds = true) :
    (Derivation.node n k ds).follows = true := by
  rw [Derivation.follows, hk, hds, Bool.and_true]
  exact beq_self_eq_true _

theorem follows_unit {n : Nonterminal} {k : Nat} {d : Derivation}
    (hk : (alternatives n)[k]? = some [d.root]) (hd : d.follows = true) :
    (Derivation.node n k [d]).follows = true :=
  follows_node hk (by rw [allFollow, hd]; rfl)

theorem follows_operand {d : Derivation} (hroot : d.root = .rule .trailed) (h : d.follows = true) :
    (operand d).follows = true := by
  have hunary : (Derivation.node .unary 2 [d]).follows = true := follows_unit (by rw [hroot]; rfl) h
  have hsum : (Derivation.node .sum 3 [.node .product 3 [.node .power 1 [.node .unary 2 [d]]]]).follows =
      true := follows_unit rfl (follows_unit rfl (follows_unit rfl hunary))
  exact follows_unit rfl (follows_unit rfl (follows_unit rfl (follows_unit rfl (follows_unit rfl
    (follows_unit rfl hsum)))))

theorem follows_single {d : Derivation} (hroot : d.root = .rule .expr) (h : d.follows = true)
    {semicolon : Leaf} (hsemicolon : semicolon.terminal = .mark .semicolon) :
    (single d semicolon).follows = true := by
  have hstmt : (Derivation.node .exprStmt 0 [d, .leaf semicolon]).follows = true := by
    have hleaf : (Derivation.leaf semicolon).root = sign .semicolon :=
      congrArg Symbol.terminal hsemicolon
    refine follows_node ?_ (by rw [allFollow, h]; rfl)
    simp only [List.map_cons, List.map_nil, hroot, hleaf]
    rfl
  exact follows_unit rfl (follows_unit rfl (follows_unit rfl (follows_unit rfl hstmt)))

theorem follows_numberField {number dot name : Leaf} (hnumber : number.terminal = .number)
    (hdot : dot.terminal = .mark .dot) (hname : name.terminal = .name) :
    (numberField number dot name).follows = true := by
  have hprimary : (Derivation.node .primary 0 [.leaf number]).follows = true :=
    follows_unit (by rw [Derivation.root, hnumber]; rfl) rfl
  have htrailed : (Derivation.node .trailed 4 [.node .primary 0 [.leaf number]]).follows = true :=
    follows_unit rfl hprimary
  refine follows_node ?_ (by rw [allFollow, htrailed]; rfl)
  simp only [List.map_cons, List.map_nil, Derivation.root, hdot, hname]
  rfl

/-- The symbols that stand for the stretches of a numeral, a point, a name and a semicolon. -/
def numberFieldTable : Table := fun n ts =>
  let operands : List (List Terminal) := [[.number], [.name], [.number, .mark .dot, .name]]
  let statements : List (List Terminal) :=
    [[.name, .mark .semicolon], [.number, .mark .dot, .name, .mark .semicolon]]
  match n with
  | .primary => [[.number], [.name]].contains ts
  | .expr | .assignment | .orExpr | .andExpr | .equality | .comparison | .sum | .product | .power
  | .unary | .trailed | .args => operands.contains ts
  | .statement | .exprStmt => statements.contains ts
  | .item | .items => ([.mark .semicolon] :: statements).contains ts
  | .members => ts == [.mark .semicolon]
  | .start => ([] :: [.mark .semicolon] :: (operands ++ statements)).contains ts
  | _ => false

theorem numberFieldTable_settles :
    numberFieldTable.Settles [.number, .mark .dot, .name, .mark .semicolon] := by
  constructor
  · intro n
    cases n <;> decide +kernel
  · intro n
    cases n <;> decide +kernel

section

variable {limit : Option Int}

theorem meaning_node {head : Nonterminal} {k : Nat} {ds : List Derivation} {ms : List Meaning}
    {m : Meaning} (hds : meanings limit ds = .ok ms)
    (h : meaning limit head (startOf ds) ms = .ok m) :
    (Derivation.node head k ds).meaning limit = .ok m := by
  rw [Derivation.meaning, hds]
  exact h

theorem meaning_unit {head : Nonterminal} {k : Nat} {d : Derivation} {m m' : Meaning}
    (h : d.meaning limit = .ok m) (hhead : ∀ p, meaning limit head p [m] = .ok m') :
    (Derivation.node head k [d]).meaning limit = .ok m' := by
  refine meaning_node ?_ (hhead _)
  rw [meanings, h]
  rfl

theorem meaning_operand {d : Derivation} {e : Expr} (h : d.meaning limit = .ok (.expr e)) :
    (operand d).meaning limit = .ok (.expr e) := by
  have hunary : (Derivation.node .unary 2 [d]).meaning limit = .ok (.expr e) :=
    meaning_unit h fun _ => rfl
  have hproduct : (Derivation.node .product 3 [.node .power 1 [.node .unary 2 [d]]]).meaning limit =
      .ok (.expr e) := meaning_unit (meaning_unit hunary fun _ => rfl) fun _ => rfl
  have hcomparison : (Derivation.node .comparison 4 [.node .sum 3 [.node .product 3
      [.node .power 1 [.node .unary 2 [d]]]]]).meaning limit = .ok (.expr e) :=
    meaning_unit (meaning_unit hproduct fun _ => rfl) fun _ => rfl
  have hand : (Derivation.node .andExpr 1 [.node .equality 2 [.node .comparison 4 [.node .sum 3
      [.node .product 3 [.node .power 1 [.node .unary 2 [d]]]]]]]).meaning limit = .ok (.expr e) :=
    meaning_unit (meaning_unit hcomparison fun _ => rfl) fun _ => rfl
  exact meaning_unit (meaning_unit (meaning_unit hand fun _ => rfl) fun _ => rfl) fun _ => rfl

theorem meaning_single {d : Derivation} {e : Expr} (h : d.meaning limit = .ok (.expr e))
    (semicolon : Leaf) : (single d semicolon).meaning limit = .ok (.stmts [.expr e]) := by
  have hstmt : (Derivation.node .exprStmt 0 [d, .leaf semicolon]).meaning limit =
      .ok (.stmt (.expr e)) := by
    refine meaning_node (show meanings limit _ = .ok [.expr e, .leaf semicolon] from ?_) rfl
    rw [meanings, h]
    rfl
  have hitem : (Derivation.node .item 0 [.node .statement 13
      [.node .exprStmt 0 [d, .leaf semicolon]]]).meaning limit = .ok (.stmt (.expr e)) :=
    meaning_unit (meaning_unit hstmt fun _ => rfl) fun _ => rfl
  have hitems : (Derivation.node .items 0 [.node .item 0 [.node .statement 13
      [.node .exprStmt 0 [d, .leaf semicolon]]]]).meaning limit = .ok (.stmts [.expr e]) :=
    meaning_unit hitem fun _ => rfl
  exact meaning_unit hitems fun _ => rfl

/-- The derivation of an access to a field of a numeral means just that. -/
theorem meaning_numberField {number dot : Leaf} (name : Leaf) {v : Float}
    (hnumber : number.terminal = .number) (hdot : dot.terminal = .mark .dot)
    (hv : numeral? number.text = some v) (hfinite : v.isInf = false) :
    (numberField number dot name).meaning limit = .ok (.expr (.field (.number v) name.name)) := by
  obtain ⟨t, cs, p⟩ := number
  obtain ⟨t', cs', p'⟩ := dot
  simp only at hnumber hdot hv
  subst hnumber hdot
  have hnumeral : numberMeaning ⟨.number, cs, p⟩ = .ok (.expr (.number v)) := by
    simp [numberMeaning, hv, hfinite]
  have hprimary : (Derivation.node .primary 0 [.leaf ⟨.number, cs, p⟩]).meaning limit =
      .ok (.expr (.number v)) := meaning_unit rfl fun _ => hnumeral
  have htrailed : (Derivation.node .trailed 4 [.node .primary 0 [.leaf ⟨.number, cs, p⟩]]).meaning
      limit = .ok (.expr (.number v)) := meaning_unit hprimary fun _ => rfl
  refine meaning_node (show meanings limit _ = .ok [.expr (.number v),
    .leaf ⟨.mark .dot, cs', p'⟩, .leaf name] from ?_) rfl
  rw [meanings, htrailed]
  rfl

end

/-- A text that is cut into a numeral, a point, a name and a semicolon is an access to a field. -/
theorem parseGrammarWith_numberField {engine : Engine} {source : String}
    (h : engine.Follows source) {ds : List Char} {x : String} {v : Float}
    (hcut : ∀ ls, Cut source.toList ls ↔ ls = [(.number, ds), (.mark .dot, ['.']), (.name, x.toList),
      (.mark .semicolon, [';'])])
    (hv : numeral? ds = some v) (hfinite : v.isInf = false) (limit : Option Int) :
    parseGrammarWith engine limit source = .ok [.expr (.field (.number v) (.text x))] := by
  let P : Derivation → Prop := fun d =>
    d.meaning limit = .ok (.stmts [.expr (.field (.number v) (.text x))])
  have hsingle : ∀ leaves : List Leaf, leaves.map (fun l => (l.terminal, l.text)) =
      [(.number, ds), (.mark .dot, ['.']), (.name, x.toList), (.mark .semicolon, [';'])] →
      ∃ d : Derivation, d.root = .rule .start ∧ d.follows = true ∧ d.yield = leaves ∧ P d := by
    intro leaves hleaves
    obtain ⟨number, _, rfl, hnumber, hleaves⟩ := List.map_eq_cons_iff.mp hleaves
    obtain ⟨dot, _, rfl, hdot, hleaves⟩ := List.map_eq_cons_iff.mp hleaves
    obtain ⟨name, _, rfl, hname, hleaves⟩ := List.map_eq_cons_iff.mp hleaves
    obtain ⟨semicolon, _, rfl, hsemicolon, hleaves⟩ := List.map_eq_cons_iff.mp hleaves
    obtain rfl := List.map_eq_nil_iff.mp hleaves
    rw [Prod.mk.injEq] at hnumber hdot hname hsemicolon
    obtain ⟨hnumber, rfl⟩ := hnumber
    have hspelling : name.name = .text x := by
      rw [Leaf.name, Leaf.spelling, hname.2, String.ofList_toList]
    have hfield : (numberField number dot name).meaning limit =
        .ok (.expr (.field (.number v) (.text x))) := by
      rw [← hspelling]
      exact meaning_numberField name hnumber hdot.1 hv hfinite
    have hfollows := follows_numberField hnumber hdot.1 hname.1
    exact ⟨single (operand (numberField number dot name)) semicolon, rfl,
      follows_single rfl (follows_operand rfl hfollows) hsemicolon.1, yield_single _ _ _ _,
      meaning_single (meaning_operand hfield) semicolon⟩
  obtain ⟨d, hd, hmeaning⟩ := h.exists_eq_ok hcut rfl numberFieldTable_settles (P := P) hsingle
  have hmeaning : d.meaning limit = .ok (.stmts [.expr (.field (.number v) (.text x))]) := hmeaning
  simp only [parseGrammarWith, hd, hmeaning]

end Grammar

section Divides

variable {ds : List Char} {v : Float} {x : String} (hds : AllDigits ds) (hv : numeral? ds = some v)
  (hfinite : v.isInf = false) (hx : isPlainName x = true) (limit : Option Int)
  {engine : Grammar.Engine}
include hds hv hfinite hx

/-- A numeral, a blank, a point and a name are an access to a field for the parser and for the grammar,
with every engine that takes the text apart by the rules. -/
theorem numeral_blank_point_agrees
    (hengine : engine.Follows (String.ofList (ds ++ ' ' :: '.' :: (x.toList ++ [';'])))) :
    parse limit (String.ofList (ds ++ ' ' :: '.' :: (x.toList ++ [';']))) =
        .ok [.expr (.field (.number v) (.text x))] ∧
      parseGrammarWith engine limit (String.ofList (ds ++ ' ' :: '.' :: (x.toList ++ [';']))) =
        .ok [.expr (.field (.number v) (.text x))] := by
  have hne : ds ≠ [] := by
    rintro rfl
    cases hv
  have hlexed := Lexer.lexes_blank_point hds hne hv hfinite hx
  constructor
  · rw [← String.toList_ofList (l := ds ++ ' ' :: '.' :: (x.toList ++ [';']))] at hlexed
    obtain ⟨q, hq⟩ := (Stream.spells_ofText_iff.mpr hlexed).begins
    exact Parser.parseStream_numeral_field hq
  · refine Grammar.parseGrammarWith_numberField hengine (fun ls => ?_) hv hfinite limit
    rw [String.toList_ofList]
    exact Grammar.cut_blank_point hds hne hx ls

/-- Without the blank they are two statements for the parser, and still an access to a field for the
grammar. -/
theorem numeral_point_divides
    (hengine : engine.Follows (String.ofList (ds ++ '.' :: (x.toList ++ [';'])))) :
    parse limit (String.ofList (ds ++ '.' :: (x.toList ++ [';']))) =
        .ok [.expr (.number v), .expr (.name (.text x))] ∧
      parseGrammarWith engine limit (String.ofList (ds ++ '.' :: (x.toList ++ [';']))) =
        .ok [.expr (.field (.number v) (.text x))] := by
  have hne : ds ≠ [] := by
    rintro rfl
    cases hv
  have hlexed := Lexer.lexes_point hds hne hv hfinite hx
  constructor
  · rw [← String.toList_ofList (l := ds ++ '.' :: (x.toList ++ [';']))] at hlexed
    obtain ⟨q, hq⟩ := (Stream.spells_ofText_iff.mpr hlexed).begins
    exact Parser.parseStream_numeral_name hq
  · refine Grammar.parseGrammarWith_numberField hengine (fun ls => ?_) hv hfinite limit
    rw [String.toList_ofList]
    exact Grammar.cut_point hds hne hx ls

end Divides

/-- The text `12.size;`, with the chart. -/
theorem numeral_point_divides_twelve :
    parse none "12.size;" =
        .ok [.expr (.number (ofDecimal 12 0)), .expr (.name (.text "size"))] ∧
      parseGrammarWith Grammar.chart none "12.size;" =
        .ok [.expr (.field (.number (ofDecimal 12 0)) (.text "size"))] := by
  have htext : String.ofList ("12".toList ++ '.' :: ("size".toList ++ [';'])) = "12.size;" := by
    decide +kernel
  have hds : AllDigits "12".toList := AllDigits.toDigits 12
  have hx : isPlainName "size" = true := by decide +kernel
  have hv : numeral? "12".toList = some (ofDecimal 12 0) := numeral?_whole (by decide) hds
  have hfinite : (ofDecimal 12 0).isInf = false := by decide +kernel
  have hcut := (Grammar.cut_point hds (by decide) hx _).mpr rfl
  rw [← String.toList_ofList (l := _ ++ _), htext] at hcut
  have hengine : Grammar.chart.Follows "12.size;" :=
    Grammar.follows_of_check hcut (by decide +kernel)
  rw [← htext] at hengine
  have h := numeral_point_divides hds hv hfinite hx none hengine
  rw [htext] at h
  exact h

end Scripting
