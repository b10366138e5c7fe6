import Mathlib.Data.List.Induction
import Scripting.Grammar.Reading
import Scripting.Proofs.Lexer.Spelling

/-!
Every text is a row of gaps and lexemes, up to its end or to the first part that is no token.
`Partition` takes a text apart into blanks, comments and the spellings of its tokens, and fixes the
position of each by the line feeds in front of it; `Partition.ofText` says that the lexer splits
every text so.
-/

namespace Scripting

namespace Position

def behind (cs : List Char) : Position :=
  ⟨1 + cs.count '\n', 1 + (cs.reverse.takeWhile (· != '\n')).length⟩

/-- Where a text ends: its number of lines, and one column after the last of them. -/
def textEnd (cs : List Char) : Position :=
  ⟨(cs.splitOn '\n').length, ((cs.splitOn '\n').getLast (List.splitOn_ne_nil _ _)).length + 1⟩

instance : LT Position := ⟨fun p q => p.line < q.line ∨ p.line = q.line ∧ p.column < q.column⟩

instance : LE Position := ⟨fun p q => p.line < q.line ∨ p.line = q.line ∧ p.column ≤ q.column⟩

theorem lt_iff {p q : Position} :
    p < q ↔ p.line < q.line ∨ p.line = q.line ∧ p.column < q.column := Iff.rfl

theorem le_iff {p q : Position} :
    p ≤ q ↔ p.line < q.line ∨ p.line = q.line ∧ p.column ≤ q.column := Iff.rfl

theorem le_refl (p : Position) : p ≤ p := .inr ⟨rfl, Nat.le_refl _⟩

theorem le_of_lt {p q : Position} (h : p < q) : p ≤ q := by
  rw [lt_iff] at h
  rw [le_iff]
  omega

theorem le_trans {p q r : Position} (h : p ≤ q) (h' : q ≤ r) : p ≤ r := by
  rw [le_iff] at h h' ⊢
  omega

theorem lt_of_lt_of_le {p q r : Position} (h : p < q) (h' : q ≤ r) : p < r := by
  rw [lt_iff] at h ⊢
  rw [le_iff] at h'
  omega

theorem not_lt_of_le {p q : Position} (h : p ≤ q) : ¬ q < p := by
  rw [le_iff] at h
  rw [lt_iff]
  omega

theorem next_newline (p : Position) : p.next '\n' = ⟨p.line + 1, 1⟩ := rfl

theorem next_of_ne (p : Position) {c : Char} (h : c ≠ '\n') :
    p.next c = ⟨p.line, p.column + 1⟩ := if_neg (by simpa using h)

theorem lt_next (p : Position) (c : Char) : p < p.next c := by
  rw [lt_iff, next]
  split
  · exact .inl (Nat.lt_succ_self _)
  · exact .inr ⟨rfl, Nat.lt_succ_self _⟩

theorem le_after (p : Position) (cs : List Char) : p ≤ p.after cs := by
  induction cs generalizing p with
  | nil => exact le_refl p
  | cons c cs ih => exact le_trans (le_of_lt (lt_next p c)) (ih (p.next c))

theorem lt_after (p : Position) {cs : List Char} (h : cs ≠ []) : p < p.after cs := by
  cases cs with
  | nil => exact absurd rfl h
  | cons c cs => exact lt_of_lt_of_le (lt_next p c) (le_after _ cs)

/-- Counting character by character gives the line feeds passed and the characters since. -/
theorem start_after (cs : List Char) : start.after cs = behind cs := by
  induction cs using List.reverseRecOn with
  | nil => rfl
  | append_singleton cs c ih =>
    rw [after_append, ih, after_cons, after_nil]
    by_cases hc : c = '\n'
    · subst hc
      simp [next_newline, behind, Nat.add_assoc]
    · simp [next_of_ne _ hc, behind, hc, Nat.add_assoc]

theorem one_le_textEnd_line (cs : List Char) : 1 ≤ (textEnd cs).line :=
  List.length_pos_iff.mpr (List.splitOn_ne_nil _ _)

theorem textEnd_newline (cs : List Char) :
    textEnd ('\n' :: cs) = ⟨(textEnd cs).line + 1, (textEnd cs).column⟩ := by
  simp [textEnd, List.splitOn_cons_eq_if_modifyHead, List.getLast_cons (List.splitOn_ne_nil _ _)]

theorem textEnd_cons {c : Char} (h : c ≠ '\n') (cs : List Char) :
    textEnd (c :: cs) = ⟨(textEnd cs).line,
      if (textEnd cs).line = 1 then (textEnd cs).column + 1 else (textEnd cs).column⟩ := by
  obtain ⟨l, ls, hsplit⟩ : ∃ l ls, cs.splitOn '\n' = l :: ls :=
    List.exists_cons_of_ne_nil (List.splitOn_ne_nil _ _)
  have hcons : (c :: cs).splitOn '\n' = (c :: l) :: ls := by
    rw [List.splitOn_cons_eq_if_modifyHead, if_neg (by simpa using h), hsplit, List.modifyHead_cons]
  cases ls with
  | nil => simp [textEnd, hcons, hsplit]
  | cons l' ls => simp [textEnd, hcons, hsplit]

theorem behind_append (cs ds : List Char) : behind (cs ++ ds) = (behind cs).after ds := by
  rw [← start_after, after_append, start_after]

/-- Passing a text goes down by its line feeds, to the end of its last line. -/
theorem after_eq (p : Position) (cs : List Char) :
    p.after cs = ⟨p.line + ((textEnd cs).line - 1),
      if (textEnd cs).line = 1 then p.column + ((textEnd cs).column - 1)
      else (textEnd cs).column⟩ := by
  induction cs generalizing p with
  | nil => rfl
  | cons c cs ih =>
    have hline := one_le_textEnd_line cs
    have hcolumn : 1 ≤ (textEnd cs).column := Nat.le_add_left _ _
    rw [after_cons, ih]
    by_cases hc : c = '\n'
    · subst hc
      rw [next_newline, textEnd_newline]
      simp only [mk.injEq]
      constructor
      · omega
      · split <;> split <;> omega
    · rw [next_of_ne _ hc, textEnd_cons hc]
      simp only [mk.injEq, true_and]
      split <;> omega

theorem start_after_textEnd (cs : List Char) : start.after cs = textEnd cs := by
  have hline := one_le_textEnd_line cs
  have hcolumn : 1 ≤ (textEnd cs).column := Nat.le_add_left _ _
  rw [after_eq, start]
  cases h : textEnd cs with
  | mk line column =>
    simp only [h, mk.injEq] at hline hcolumn ⊢
    split <;> omega

end Position

namespace Lexer

open Text

/-- A row of blanks and comments in front of the characters `more`. A comment opens with a hash or
two slashes and runs up to the end of its line, or of the text. -/
inductive Gap : List Char → List Char → Prop
  | nil (more : List Char) : Gap [] more
  | blank {c : Char} {gap more : List Char} (h : isBlank c = true) (rest : Gap gap more) :
      Gap (c :: gap) more
  | comment {opening body gap more : List Char} (opens : opening ∈ [['#'], ['/', '/']])
      (line : '\n' ∉ body) (ends : ∀ c, (gap ++ more).head? = some c → c = '\n')
      (rest : Gap gap more) : Gap (opening ++ body ++ gap) more

/-- A comment takes the rest of its line. -/
theorem gapLength_comment (cs : List Char) : gapLength true cs =
    (cs.takeWhile (· != '\n')).length + gapLength false (cs.dropWhile (· != '\n')) := by
  induction cs with
  | nil => rfl
  | cons c rest ih =>
    by_cases hc : c = '\n'
    · subst hc
      have hblank : isBlank '\n' = true := by decide
      simp [gapLength, hblank]
    · have hne : (c != '\n') = true := bne_iff_ne.mpr hc
      simp only [gapLength, if_true, List.takeWhile_cons, List.dropWhile_cons, hne, ih,
        List.length_cons]
      omega

def gapOf (cs : List Char) : List Char := cs.take (gapLength false cs)

def pastGap (cs : List Char) : List Char := cs.drop (gapLength false cs)

theorem gapOf_append_pastGap (cs : List Char) : gapOf cs ++ pastGap cs = cs :=
  List.take_append_drop _ _

theorem length_gapOf (cs : List Char) : (gapOf cs).length = gapLength false cs :=
  List.length_take_of_le (gapLength_le false cs)

theorem gap_blank {c : Char} {rest : List Char} (h : isBlank c = true)
    (hrest : Gap (gapOf rest) (pastGap rest)) : Gap (gapOf (c :: rest)) (pastGap (c :: rest)) := by
  have hlength : gapLength false (c :: rest) = gapLength false rest + 1 := by
    simp [gapLength, h, Nat.add_comm]
  rw [gapOf, pastGap, hlength, List.take_succ_cons, List.drop_succ_cons]
  exact .blank h hrest

/-- A comment at the front belongs to the gap. -/
theorem gap_comment {opening rest : List Char} (opens : opening ∈ [['#'], ['/', '/']])
    (hlength : gapLength false (opening ++ rest) = opening.length + gapLength true rest)
    (hrest : Gap (gapOf (rest.dropWhile (· != '\n'))) (pastGap (rest.dropWhile (· != '\n')))) :
    Gap (gapOf (opening ++ rest)) (pastGap (opening ++ rest)) := by
  have hsplit : rest.takeWhile (· != '\n') ++ rest.dropWhile (· != '\n') = rest :=
    List.takeWhile_append_dropWhile
  have hbody : '\n' ∉ rest.takeWhile (· != '\n') := fun h => by
    simpa using List.all_eq_true.mp List.all_takeWhile _ h
  have hends : ∀ c, (rest.dropWhile (· != '\n')).head? = some c → c = '\n' := fun c h => by
    have hstop := List.head?_dropWhile_not (· != '\n') rest
    rw [h] at hstop
    simpa using hstop
  rw [gapLength_comment] at hlength
  rw [gapOf, pastGap, hlength, List.take_length_add_append, List.drop_length_add_append]
  generalize rest.takeWhile (· != '\n') = body at *
  generalize rest.dropWhile (· != '\n') = tail at *
  subst hsplit
  rw [List.take_length_add_append, List.drop_length_add_append, ← List.append_assoc]
  refine .comment opens hbody (fun c hc => hends c ?_) hrest
  rwa [List.take_append_drop] at hc

/-- What `gapLength` measures is a gap. -/
theorem gap_gapOf (cs : List Char) : Gap (gapOf cs) (pastGap cs) := by
  induction hn : cs.length using Nat.strongRecOn generalizing cs with
  | ind n ih =>
  subst hn
  cases cs with
  | nil => exact .nil []
  | cons c rest =>
    -- the rest of the text behind the first character, or behind a comment
    have hrest (tail : List Char) (h : tail.length ≤ rest.length) : Gap (gapOf tail) (pastGap tail) :=
      ih tail.length (Nat.lt_succ_of_le h) tail rfl
    have hline (cs : List Char) (h : cs.length ≤ rest.length) :=
      hrest (cs.dropWhile (· != '\n')) (Nat.le_trans (List.dropWhile_sublist _).length_le h)
    by_cases hblank : isBlank c = true
    · exact gap_blank hblank (hrest rest (Nat.le_refl _))
    by_cases hhash : c = '#'
    · subst hhash
      refine @gap_comment ['#'] rest (by decide) ?_
        (hline rest (Nat.le_refl _))
      simp [gapLength, hblank]
    by_cases hslash : c = '/' ∧ rest.head? = some '/'
    · obtain ⟨rfl, hnext⟩ := hslash
      obtain ⟨rest, rfl⟩ := List.head?_eq_some_iff.mp hnext
      refine @gap_comment ['/', '/'] rest (by decide) ?_
        (hline rest (Nat.le_succ _))
      simp [gapLength, hblank]
      omega
    · have hlength : gapLength false (c :: rest) = 0 := by
        simp [gapLength, hblank, hhash]
        simpa using hslash
      rw [gapOf, pastGap, hlength]
      exact .nil _

/-- What stands between the quotes of a text, escapes included, and the text that it stands for. -/
inductive Quotes : List Char → List Char → Prop
  | nil : Quotes [] []
  | plain {c : Char} {raw cs : List Char} (quote : c ≠ '"') (escape : c ≠ '\\')
      (rest : Quotes raw cs) : Quotes (c :: raw) (c :: cs)
  | escape (c : Char) {raw cs : List Char} (rest : Quotes raw cs) :
      Quotes ('\\' :: c :: raw) (unescape c :: cs)

/-- The body of a text is what its quotes enclose. -/
theorem quotes_of_textBody? {cs : List Char} {x : List Char × Nat} (h : textBody? cs = some x) :
    ∃ raw, cs.take x.2 = raw ++ ['"'] ∧ Quotes raw x.1 := by
  fun_induction textBody? cs generalizing x with
  | case1 => cases h
  | case2 rest =>
    cases h
    exact ⟨[], rfl, .nil⟩
  | case3 c rest ih =>
    obtain ⟨y, hy, rfl⟩ := Option.map_eq_some_iff.mp h
    obtain ⟨raw, htake, hraw⟩ := ih hy
    exact ⟨'\\' :: c :: raw, by simp [htake], .escape c hraw⟩
  | case4 => cases h
  | case5 c rest hq _ hc ih =>
    obtain ⟨y, hy, rfl⟩ := Option.map_eq_some_iff.mp h
    obtain ⟨raw, htake, hraw⟩ := ih hy
    exact ⟨c :: raw, by simp [htake], .plain hq (by simpa using hc) hraw⟩

end Lexer

open Lexer

/-- Whether a lexeme spells a token: a name, keyword or mark letter by letter, a number by its
finite value, a text between quotes. -/
def Token.Kind.SpelledBy : Token.Kind → List Char → Prop
  | number x, lexeme => Number.numeral? lexeme = some x ∧ x.isInf = false
  | text s, lexeme => ∃ raw, lexeme = '"' :: raw ++ ['"'] ∧ Quotes raw s.toList
  | name s, lexeme => lexeme = s.toList
  | keyword k, lexeme => lexeme = k.text.toList
  | mark m, lexeme => lexeme = m.text.toList

namespace Lexer

open Text

theorem spelledBy_numeralKind {cs : List Char} {k : Token.Kind} (h : numeralKind cs = .ok k) :
    k.SpelledBy cs := by
  unfold numeralKind at h
  cases hx : Number.numeral? cs with
  | none =>
    rw [hx] at h
    cases h
  | some x =>
    simp only [hx] at h
    split at h
    · cases h
    · rename_i hfinite
      cases h
      exact ⟨hx, Bool.eq_false_iff.mpr hfinite⟩

theorem spelledBy_wordKind (cs : List Char) : (wordKind (String.ofList cs)).SpelledBy cs := by
  unfold wordKind
  cases hk : Keyword.ofText? (String.ofList cs) with
  | none => exact (String.toList_ofList).symm
  | some k =>
    have hfind : Keyword.all.find? (·.text == String.ofList cs) = some k := hk
    have htext : k.text = String.ofList cs := by simpa using List.find?_some hfind
    show cs = k.text.toList
    rw [htext, String.toList_ofList]

theorem text_ofPair? {c d : Char} {m : Mark} (h : Mark.ofPair? c d = some m) :
    m.text.toList = [c, d] := by
  unfold Mark.ofPair? at h
  split at h
  all_goals cases h
  all_goals rfl

theorem text_ofChar? {c : Char} {m : Mark} (h : Mark.ofChar? c = some m) : m.text.toList = [c] := by
  unfold Mark.ofChar? at h
  split at h
  all_goals cases h
  all_goals rfl

/-- A mark is spelled by the characters that are taken for it. -/
theorem spelledBy_scanMark {c : Char} {rest : List Char} {k : Token.Kind} {n : Nat}
    (h : scanMark c rest = ⟨.ok k, n⟩) : k.SpelledBy ((c :: rest).take n) := by
  unfold scanMark at h
  split at h
  · rename_i m hpair
    cases h
    obtain ⟨d, hd, hm⟩ := Option.bind_eq_some_iff.mp hpair
    obtain ⟨rest, rfl⟩ := List.head?_eq_some_iff.mp hd
    exact (text_ofPair? hm).symm
  · split at h
    · rename_i m hm
      cases h
      exact (text_ofChar? hm).symm
    · split at h <;> cases h

/-- The characters that a scan takes spell its token. -/
theorem spelledBy_scan {c : Char} {rest : List Char} {k : Token.Kind} {n : Nat}
    (h : scan c rest = ⟨.ok k, n⟩) : k.SpelledBy ((c :: rest).take n) := by
  unfold scan at h
  split at h
  · obtain ⟨hkind, rfl⟩ := Lexeme.mk.inj h
    exact spelledBy_numeralKind hkind
  split at h
  · obtain ⟨hkind, rfl⟩ := Lexeme.mk.inj h
    cases hkind
    rw [← List.prefix_iff_eq_take.mp (List.takeWhile_prefix isNamePart)]
    exact spelledBy_wordKind _
  split at h
  · rename_i hquote
    split at h
    · rename_i cs n hbody
      cases h
      obtain ⟨raw, htake, hraw⟩ := quotes_of_textBody? hbody
      refine ⟨raw, ?_, by rwa [String.toList_ofList]⟩
      rw [List.take_succ_cons, htake, eq_of_beq hquote]
      rfl
    · cases h
  · exact spelledBy_scanMark h

end Lexer

/-- The place of the end of the input, or of the first part that is no token. -/
def stopPlace : Except LexError Position → Position
  | .ok p => p
  | .error e => e.position

namespace Stream

def lexed : Stream → List Token
  | token t rest => t :: rest.lexed
  | _ => []

def stop : Stream → Except LexError Position
  | token _ rest => rest.stop
  | finish p => .ok p
  | invalid e => .error e

theorem tokens_eq (S : Stream) : S.tokens = S.stop.map fun p => (S.lexed, p) := by
  induction S with
  | token t rest ih =>
    rw [tokens, ih, stop, lexed]
    cases rest.stop <;> rfl
  | finish p => rfl
  | invalid e => rfl

theorem tokens_eq_ok_iff {S : Stream} {ts : List Token} {p : Position} :
    S.tokens = .ok (ts, p) ↔ S.lexed = ts ∧ S.stop = .ok p := by
  rw [tokens_eq]
  cases S.stop <;> simp [Except.map, and_comm]

theorem tokens_eq_error_iff {S : Stream} {e : LexError} : S.tokens = .error e ↔ S.stop = .error e := by
  rw [tokens_eq]
  cases S.stop <;> simp [Except.map]

end Stream

/-- How the characters `cs` behind the characters `before` fall apart into gaps and into the
lexemes of the tokens `ts`, up to the end of the text or to a part that is no token. Each position
is that behind all the characters in front. -/
inductive Partition :
    (before cs : List Char) → (ts : List Token) → (stop : Except LexError Position) → Prop
  | finish {before gap : List Char} (gaps : Gap gap []) :
      Partition before gap [] (.ok (.behind (before ++ gap)))
  | invalid {before gap more : List Char} {fault : LexFault} (gaps : Gap gap more)
      (some : more ≠ []) :
      Partition before (gap ++ more) [] (.error ⟨fault, .behind (before ++ gap)⟩)
  | token {before gap lexeme more : List Char} {kind : Token.Kind} {ts : List Token}
      {stop : Except LexError Position} (gaps : Gap gap (lexeme ++ more)) (some : lexeme ≠ [])
      (spelled : kind.SpelledBy lexeme) (rest : Partition (before ++ gap ++ lexeme) more ts stop) :
      Partition before (gap ++ lexeme ++ more) (⟨kind, .behind (before ++ gap)⟩ :: ts) stop

theorem Cursor.position_skip {c : Cursor} {before : List Char} (hp : c.position = .behind before)
    (n : Nat) : (c.skip n).position = .behind (before ++ c.rest.take n) := by
  rw [Position.behind_append, ← hp]
  rfl

theorem Cursor.position_skipGap {c : Cursor} {before : List Char}
    (hp : c.position = .behind before) : c.skipGap.position = .behind (before ++ gapOf c.rest) :=
  position_skip hp _

/-- In front of what a cursor finds next stands a gap. -/
theorem Cursor.exists_gap {c : Cursor} {before : List Char} (hp : c.position = .behind before) :
    ∃ gap, Gap gap c.skipGap.rest ∧ gap ++ c.skipGap.rest = c.rest ∧
      c.skipGap.position = .behind (before ++ gap) :=
  ⟨gapOf c.rest, gap_gapOf c.rest, gapOf_append_pastGap c.rest, position_skipGap hp⟩

namespace Partition

/-- The stream that a cursor finds follows a partition of the text behind it. -/
theorem of_finds {c : Cursor} {S : Stream} {before : List Char} (h : c.Finds S)
    (hp : c.position = .behind before) : Partition before c.rest S.lexed S.stop := by
  induction h generalizing before with
  | finish front =>
    obtain ⟨gap, hgap, hsplit, hposition⟩ := Cursor.exists_gap hp
    rw [front] at hgap hsplit
    change Partition before _ [] (.ok _)
    rw [hposition, ← hsplit, List.append_nil]
    exact .finish hgap
  | @invalid c d rest fault n front scanned =>
    obtain ⟨gap, hgap, hsplit, hposition⟩ := Cursor.exists_gap hp
    rw [front] at hgap hsplit
    change Partition before _ [] (.error _)
    rw [hposition, ← hsplit]
    exact .invalid hgap (List.cons_ne_nil d rest)
  | @token c d rest k n S front scanned next ih =>
    obtain ⟨gap, hgap, hsplit, hposition⟩ := Cursor.exists_gap hp
    have hmore : (c.skipGap.skip n).rest = (d :: rest).drop n := by
      rw [← front]
      rfl
    have hrest := ih (Cursor.position_skip hposition n)
    rw [front, ← List.take_append_drop n (d :: rest)] at hgap hsplit
    rw [front, hmore] at hrest
    have hsome : (d :: rest).take n ≠ [] := by
      obtain ⟨m, rfl⟩ := Nat.exists_eq_succ_of_ne_zero (Nat.ne_of_gt (pos_of_scan scanned))
      exact List.cons_ne_nil d _
    rw [Stream.lexed, Stream.stop, hposition, ← hsplit, ← List.append_assoc]
    exact .token hgap hsome (spelledBy_scan scanned) hrest

theorem ofText (s : String) :
    Partition [] s.toList (Stream.ofText s).lexed (Stream.ofText s).stop :=
  of_finds (Cursor.finds_ofText s) rfl

variable {before cs : List Char} {ts : List Token} {stop : Except LexError Position}

/-- The parts of a text stand one behind the other. -/
theorem increasing (h : Partition before cs ts stop) :
    (ts.map Token.position ++ [stopPlace stop]).Pairwise (· < ·) ∧
      ∀ p ∈ ts.map Token.position ++ [stopPlace stop], .behind before ≤ p := by
  induction h with
  | @finish before gap gaps =>
    refine ⟨List.pairwise_singleton _ _, fun p hp => ?_⟩
    rw [List.mem_singleton.mp hp, stopPlace, Position.behind_append]
    exact Position.le_after _ _
  | @invalid before gap more fault gaps some =>
    refine ⟨List.pairwise_singleton _ _, fun p hp => ?_⟩
    rw [List.mem_singleton.mp hp, stopPlace, Position.behind_append]
    exact Position.le_after _ _
  | @token before gap lexeme more kind ts stop gaps some spelled rest ih =>
    have hlexeme : Position.behind (before ++ gap) < .behind (before ++ gap ++ lexeme) := by
      rw [Position.behind_append (before ++ gap)]
      exact Position.lt_after _ some
    have hfirst : ∀ p ∈ ts.map Token.position ++ [stopPlace stop],
        Position.behind (before ++ gap) < p :=
      fun p hp => Position.lt_of_lt_of_le hlexeme (ih.2 p hp)
    have hbefore : Position.behind before ≤ .behind (before ++ gap) := by
      rw [Position.behind_append]
      exact Position.le_after _ _
    refine ⟨List.pairwise_cons.mpr ⟨hfirst, ih.1⟩, fun p hp => ?_⟩
    rcases List.mem_cons.mp hp with rfl | hp
    · exact hbefore
    · exact Position.le_trans hbefore (Position.le_of_lt (hfirst p hp))

/-- A text that is all tokens stops at its end. -/
theorem stop_eq {q : Position} (h : Partition before cs ts stop) (hq : stop = .ok q) :
    q = .behind (before ++ cs) := by
  induction h with
  | finish gaps =>
    cases hq
    rfl
  | invalid gaps some => cases hq
  | token gaps some spelled rest ih => rw [ih hq, ← List.append_assoc, ← List.append_assoc]

end Partition

/-- A text that the lexer accepts consists of gaps and of the spellings of its tokens, whose
positions increase strictly. The input ends where the text does, which is also where the grammar
misses the rest of an incomplete text. -/
theorem tokens_partition {s : String} {ts : List Token} {q : Position}
    (h : (Stream.ofText s).tokens = .ok (ts, q)) :
    Partition [] s.toList ts (.ok q) ∧
      (ts.map Token.position ++ [q]).Pairwise (· < ·) ∧
      q = .textEnd s.toList ∧
      ∀ engine limit, engine s = .error .incomplete →
        parseGrammarWith engine limit s = .error ⟨.incomplete, q⟩ := by
  obtain ⟨hts, hq⟩ := Stream.tokens_eq_ok_iff.mp h
  have hpartition := Partition.ofText s
  rw [hts, hq] at hpartition
  have hend : q = Position.start.after s.toList := by
    rw [hpartition.stop_eq rfl, List.nil_append, Position.start_after]
  refine ⟨hpartition, hpartition.increasing.1, ?_, fun engine limit hengine => ?_⟩
  · rw [hend, Position.start_after_textEnd]
  · rw [parseGrammarWith, hengine, hend]
    rfl

theorem tokens_partition_comments :
    Partition [] "x = \"a\n\\n\" # note\n  // end\nif y..z".toList
        [⟨.name "x", ⟨1, 1⟩⟩, ⟨.mark .assign, ⟨1, 3⟩⟩, ⟨.text "a\n\n", ⟨1, 5⟩⟩,
          ⟨.keyword .if_, ⟨4, 1⟩⟩, ⟨.name "y", ⟨4, 4⟩⟩, ⟨.mark .dots, ⟨4, 5⟩⟩, ⟨.name "z", ⟨4, 7⟩⟩]
        (.ok ⟨4, 8⟩) ∧
      (⟨4, 8⟩ : Position) = .textEnd "x = \"a\n\\n\" # note\n  // end\nif y..z".toList :=
  have h := tokens_partition (s := "x = \"a\n\\n\" # note\n  // end\nif y..z") rfl
  ⟨h.1, h.2.2.1⟩

end Scripting
