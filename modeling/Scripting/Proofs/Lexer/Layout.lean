import Scripting.Proofs.Lexer.Partition
import Scripting.Proofs.Lexer.Tokens

/-!
Blanks and comments between tokens do not matter. A token looks past its own end at one character,
and at two when the first is a point; blanks and hashes end every token, and the point that may
stand behind a numeral is never the first of two that belong to different tokens.
-/

namespace Scripting

namespace Lexer

open Text

/-- Blanks, and comments that open with a hash and end with their line. -/
inductive Layout : List Char → Prop
  | nil : Layout []
  | blank {c : Char} {g : List Char} (h : isBlank c = true) (rest : Layout g) : Layout (c :: g)
  | comment {body g : List Char} (line : '\n' ∉ body) (rest : Layout g) :
      Layout ('#' :: (body ++ '\n' :: g))

theorem numerals_no_blanks : Bounds.apart 2000 numeralBounds blankBounds = true := by
  decide

theorem isNamePart_of_isBlank {c : Char} (h : isBlank c = true) : isNamePart c = false := by
  by_contra hpart
  simp only [isNamePart, Bool.not_eq_false, Bool.or_eq_true, beq_iff_eq] at hpart
  have hno : isBlank c = false := by
    rcases hpart with (hletter | hnumeral) | rfl
    · exact Bounds.mem_of_apart letters_no_blanks hletter
    · exact Bounds.mem_of_apart numerals_no_blanks hnumeral
    · decide
  rw [h] at hno
  cases hno

/-- A blank ends every token in front of it. -/
theorem separates_of_isBlank {c : Char} (h : isBlank c = true) : Separates c where
  digit := by
    by_contra hdigit
    have hno : isBlank c = false :=
      Bounds.mem_of_apart digits_no_blanks (Bool.not_eq_false _ ▸ hdigit)
    rw [h] at hno
    cases hno
  point := fun hc => by
    subst hc
    cases h
  slash := fun hc => by
    subst hc
    cases h
  part := isNamePart_of_isBlank h
  pair d := by
    unfold Mark.ofPair?
    split <;> first | rfl | cases h

theorem separates_hash : Separates '#' where
  digit := by decide
  point := by decide
  slash := by decide
  part := by decide
  pair d := by
    unfold Mark.ofPair?
    split <;> first | rfl | contradiction

theorem Layout.separates {g : List Char} (hg : Layout g) {e : Char} (h : g.head? = some e) :
    Separates e := by
  cases hg with
  | nil => cases h
  | blank hblank =>
    cases h
    exact separates_of_isBlank hblank
  | comment =>
    cases h
    exact separates_hash

/-- A comment takes its line. -/
theorem gapLength_line {body : List Char} (h : '\n' ∉ body) (more : List Char) :
    gapLength true (body ++ '\n' :: more) = body.length + 1 + gapLength false more := by
  induction body with
  | nil => simp [gapLength]
  | cons c body ih =>
    rw [List.mem_cons, not_or] at h
    obtain ⟨hc, hbody⟩ := h
    have hne : (c != '\n') = true := bne_iff_ne.mpr (Ne.symm hc)
    simp only [List.cons_append, gapLength, if_true, hne, ih hbody, List.length_cons]
    omega

/-- Layout belongs to the gap in front of what follows. -/
theorem Layout.gapLength_append {g : List Char} (hg : Layout g) (more : List Char) :
    gapLength false (g ++ more) = g.length + gapLength false more := by
  induction hg with
  | nil => simp
  | @blank c g hblank _ ih =>
    simp only [List.cons_append, gapLength, hblank, if_true, ih, List.length_cons]
    simp only [Bool.false_eq_true, if_false]
    omega
  | @comment body g line _ ih =>
    have hopen : gapLength false ('#' :: (body ++ '\n' :: (g ++ more))) =
        1 + gapLength true (body ++ '\n' :: (g ++ more)) := rfl
    have hsplit : '#' :: (body ++ '\n' :: g) ++ more = '#' :: (body ++ '\n' :: (g ++ more)) := by
      simp
    rw [hsplit, hopen, gapLength_line line, ih]
    simp only [List.length_cons, List.length_append]
    omega

/-- Layout inside a comment goes on with the comment, and with the gap when that ends. -/
theorem Layout.gapLength_comment {g : List Char} (hg : Layout g) : gapLength true g = g.length := by
  have hplain : ∀ {g : List Char}, Layout g → gapLength false g = g.length := fun h => by
    simpa [gapLength] using h.gapLength_append []
  induction hg with
  | nil => rfl
  | @blank c g _ rest ih =>
    have hrest : gapLength (c != '\n') g = g.length := by
      cases c != '\n' with
      | true => exact ih
      | false => exact hplain rest
    simp only [gapLength, if_true, hrest, List.length_cons]
    omega
  | @comment body g line rest _ =>
    have hopen : gapLength true ('#' :: (body ++ '\n' :: g)) =
        1 + gapLength true (body ++ '\n' :: g) := rfl
    rw [hopen, gapLength_line line, hplain rest]
    simp only [List.length_cons, List.length_append]
    omega

/-- Layout at the end of a gap makes the gap longer. -/
theorem Layout.gapLength_insert {inComment : Bool} {a b g : List Char} (hg : Layout g)
    (h : gapLength inComment (a ++ b) = a.length) :
    gapLength inComment (a ++ (g ++ b)) = a.length + g.length := by
  -- only the end of the text leaves a comment open
  have hopen : ∀ {b : List Char}, gapLength true b = 0 → b = [] := fun {b} h => by
    cases b with
    | nil => rfl
    | cons d b =>
      simp only [gapLength, if_true] at h
      omega
  induction a generalizing inComment with
  | nil =>
    simp only [List.nil_append, List.length_nil, Nat.zero_add] at h ⊢
    cases inComment with
    | false => rw [hg.gapLength_append, h, Nat.add_zero]
    | true =>
      obtain rfl := hopen h
      rw [List.append_nil, hg.gapLength_comment]
  | cons d a ih =>
    rw [List.cons_append, List.length_cons] at h ⊢
    cases hstep : gapStep inComment d (a ++ b).head? with
    | none =>
      rw [gapLength_of_none hstep] at h
      cases h
    | some opened =>
      rw [gapLength_of_some hstep] at h
      have hlength : gapLength opened (a ++ b) = a.length := Nat.succ.inj h
      have hstep' : gapStep inComment d (a ++ (g ++ b)).head? = some opened := by
        refine gapStep_some hstep fun hopened hslash => ?_
        cases a with
        | cons c a => exact hslash
        | nil =>
          subst hopened
          obtain rfl : b = [] := hopen hlength
          cases hslash
      rw [gapLength_of_some hstep', ih hlength]
      omega

theorem textBody?_pos {cs : List Char} {x : List Char × Nat} (h : textBody? cs = some x) :
    0 < x.2 := by
  fun_induction textBody? cs generalizing x with
  | case1 => cases h
  | case2 rest =>
    cases h
    exact Nat.one_pos
  | case3 c rest ih =>
    obtain ⟨y, hy, rfl⟩ := Option.map_eq_some_iff.mp h
    exact Nat.succ_pos _
  | case4 => cases h
  | case5 c rest _ _ _ ih =>
    obtain ⟨y, hy, rfl⟩ := Option.map_eq_some_iff.mp h
    exact Nat.succ_pos _

/-- A text literal does not look past its closing quote. -/
theorem textBody?_of_append {l t : List Char} {x : List Char × Nat}
    (h : textBody? (l ++ t) = some x) (hx : x.2 ≤ l.length) : textBody? l = some x := by
  fun_induction textBody? l generalizing x with
  | case1 => exact absurd (textBody?_pos h) (Nat.not_lt.mpr hx)
  | case2 rest => exact h
  | case3 c rest ih =>
    obtain ⟨y, hy, rfl⟩ := Option.map_eq_some_iff.mp h
    rw [ih hy (by simpa using hx)]
    rfl
  | case4 c rest hq hb hc =>
    -- a backslash at the end takes the character behind it
    obtain rfl : c = '\\' := by simpa using hc
    cases rest with
    | cons d rest => exact (hb d rest rfl rfl).elim
    | nil =>
      cases t with
      | nil => cases h
      | cons e u =>
        obtain ⟨y, hy, rfl⟩ := Option.map_eq_some_iff.mp h
        simp only [List.length_singleton] at hx
        omega
  | case5 c rest hq hb hc ih =>
    rw [List.cons_append, textBody?_cons hq (by simpa using hc)] at h
    obtain ⟨y, hy, rfl⟩ := Option.map_eq_some_iff.mp h
    rw [ih hy (by simpa using hx)]
    rfl

/-- Where a token that ends in front of `t` ends in front of `t'` as well: nothing follows, or a
separator, or the same character, behind which a second point is not missing. -/
def Follows (t t' : List Char) : Prop :=
  ∀ e u', t' = e :: u' → Separates e ∨
    ∃ u, t = e :: u ∧ (e = '.' → u.head? = some '.' → u'.head? = some '.')

namespace Follows

variable {t t' : List Char} (h : Follows t t')
include h

theorem numeralLength_zero (ht : numeralLength t = 0) : numeralLength t' = 0 := by
  cases t' with
  | nil => rfl
  | cons e u' =>
    rcases h e u' rfl with hsep | ⟨u, rfl, hpoint⟩
    · simp [numeralLength, hsep.digit, hsep.point]
    · simp only [numeralLength] at ht ⊢
      split at ht
      · omega
      · rename_i hstop
        rw [if_neg]
        intro hgo
        apply hstop
        rw [Bool.or_eq_true, Bool.and_eq_true, beq_iff_eq, bne_iff_ne] at hgo ⊢
        exact hgo.imp_right fun hpt => ⟨hpt.1, fun hu => hpt.2 (hpoint hpt.1 hu)⟩

theorem head?_eq {c : Char} (hc : ¬ Separates c) (ht' : t'.head? = some c) : t.head? = some c := by
  cases t' with
  | nil => cases ht'
  | cons e u' =>
    cases ht'
    rcases h c u' rfl with hsep | ⟨u, rfl, -⟩
    · exact absurd hsep hc
    · rfl

/-- A numeral that ends in front of one text ends in front of the other. -/
theorem numeralLength_eq {l : List Char} (hl : numeralLength (l ++ t) = l.length) :
    numeralLength (l ++ t') = l.length := by
  induction l with
  | nil => exact h.numeralLength_zero hl
  | cons c l ih =>
    simp only [List.cons_append, numeralLength, List.length_cons] at hl ⊢
    split at hl
    · rename_i hgo
      rw [if_pos, ih (by omega)]
      · omega
      · rw [Bool.or_eq_true, Bool.and_eq_true, beq_iff_eq, bne_iff_ne] at hgo ⊢
        refine hgo.imp_right (And.imp_right fun hne hpoint => hne ?_)
        cases l with
        | nil => exact h.head?_eq (fun hsep => hsep.point rfl) hpoint
        | cons d l => exact hpoint
    · omega

/-- A word that ends in front of one text ends in front of the other. -/
theorem takeWhile_eq {l : List Char} (hl : ((l ++ t).takeWhile isNamePart).length = l.length) :
    (l ++ t).takeWhile isNamePart = l ∧ (l ++ t').takeWhile isNamePart = l := by
  induction l with
  | nil =>
    have ht : t.takeWhile isNamePart = [] := List.length_eq_zero_iff.mp hl
    refine ⟨ht, ?_⟩
    cases t' with
    | nil => rfl
    | cons e u' =>
      rcases h e u' rfl with hsep | ⟨u, rfl, -⟩
      · simp [hsep.part]
      · have hpart : isNamePart e = false := by
          by_contra hpart
          rw [Bool.not_eq_false] at hpart
          rw [List.takeWhile_cons_of_pos hpart] at ht
          cases ht
        simp [hpart]
  | cons c l ih =>
    by_cases hc : isNamePart c = true
    · simp only [List.cons_append, List.takeWhile_cons_of_pos hc, List.length_cons] at hl ⊢
      obtain ⟨ht, ht'⟩ := ih (by omega)
      exact ⟨by rw [ht], by rw [ht']⟩
    · rw [List.cons_append, List.takeWhile_cons_of_neg hc] at hl
      cases hl

/-- A mark that ends in front of one text ends in front of the other. -/
theorem scanMark_eq {d : Char} {l : List Char} {k : Token.Kind}
    (hl : scanMark d (l ++ t) = ⟨.ok k, l.length + 1⟩) :
    scanMark d (l ++ t') = ⟨.ok k, l.length + 1⟩ := by
  unfold scanMark at hl ⊢
  cases l with
  | cons c l => exact hl
  | nil =>
    simp only [List.nil_append, List.length_nil] at hl ⊢
    -- a pair would be longer
    have hpair : t.head?.bind (Mark.ofPair? d) = none := by
      cases hm : t.head?.bind (Mark.ofPair? d) with
      | none => rfl
      | some m =>
        rw [hm] at hl
        cases (Lexeme.mk.inj hl).2
    have hpair' : t'.head?.bind (Mark.ofPair? d) = none := by
      cases t' with
      | nil => rfl
      | cons e u' =>
        rcases h e u' rfl with hsep | ⟨u, rfl, -⟩
        · exact hsep.pair d
        · exact hpair
    rw [hpair] at hl
    rw [hpair']
    exact hl

/-- A token that ends in front of `t` is the same in front of `t'`. -/
theorem scan_eq {d : Char} {l : List Char} {k : Token.Kind}
    (hl : scan d (l ++ t) = ⟨.ok k, l.length + 1⟩) : scan d (l ++ t') = ⟨.ok k, l.length + 1⟩ := by
  unfold scan at hl ⊢
  split
  · rename_i hd
    rw [if_pos hd] at hl
    obtain ⟨hkind, hlength⟩ := Lexeme.mk.inj hl
    have htake : (d :: (l ++ t)).take (l.length + 1) = d :: l := by simp
    have htake' : (d :: (l ++ t')).take (l.length + 1) = d :: l := by simp
    rw [hlength, htake] at hkind
    have hlength' := h.numeralLength_eq (l := d :: l) hlength
    simp only [List.cons_append, List.length_cons] at hlength'
    simp only [hlength', htake', hkind]
  · rename_i hd
    rw [if_neg hd] at hl
    split
    · rename_i hstart
      rw [if_pos hstart] at hl
      obtain ⟨hkind, hlength⟩ := Lexeme.mk.inj hl
      obtain ⟨hword, hword'⟩ := h.takeWhile_eq (l := d :: l) hlength
      simp only [List.cons_append] at hword hword'
      rw [hword] at hkind
      simp only [hword', hkind, List.length_cons]
    · rename_i hstart
      rw [if_neg hstart] at hl
      split
      · rename_i hquote
        rw [if_pos hquote] at hl
        cases hbody : textBody? (l ++ t) with
        | none =>
          rw [hbody] at hl
          cases (Lexeme.mk.inj hl).1
        | some x =>
          obtain ⟨cs, n⟩ := x
          rw [hbody] at hl
          obtain ⟨hkind, hlength⟩ := Lexeme.mk.inj hl
          obtain rfl : n = l.length := Nat.succ.inj hlength
          rw [textBody?_append (textBody?_of_append hbody (Nat.le_refl _)) t']
          exact hl
      · rename_i hquote
        rw [if_neg hquote] at hl
        exact h.scanMark_eq hl

end Follows

/-- Whether a character opens a comment is decided by the one behind it. -/
theorem gapLength_eq_of_slash {inComment : Bool} {gap x y : List Char} {d : Char}
    (h : gapLength inComment (gap ++ d :: x) = gap.length)
    (hslash : y.head? = some '/' → x.head? = some '/') :
    gapLength inComment (gap ++ d :: y) = gap.length := by
  induction gap generalizing inComment with
  | nil =>
    rw [List.nil_append, List.length_nil] at h ⊢
    cases hstep : gapStep inComment d x.head? with
    | none => exact gapLength_of_none (gapStep_none hstep hslash)
    | some opened =>
      rw [gapLength_of_some hstep] at h
      cases h
  | cons c gap ih =>
    have hhead : (gap ++ d :: y).head? = (gap ++ d :: x).head? := by
      cases gap <;> rfl
    rw [List.cons_append, List.length_cons] at h ⊢
    cases hstep : gapStep inComment c (gap ++ d :: x).head? with
    | none =>
      rw [gapLength_of_none hstep] at h
      cases h
    | some opened =>
      rw [gapLength_of_some hstep] at h
      have hstep' : gapStep inComment c (gap ++ d :: y).head? = some opened := hhead ▸ hstep
      rw [gapLength_of_some hstep', ih (Nat.succ.inj h)]

/-- The text `a` ends in front of a token of `a ++ b`, or it is all of that text. -/
inductive Between : List Char → List Char → Prop
  | gap {a b : List Char} (gap : gapLength false (a ++ b) = a.length) : Between a b
  | token {gap l a b : List Char} {d : Char} {k : Token.Kind}
      (gaps : gapLength false (gap ++ d :: (l ++ (a ++ b))) = gap.length)
      (scanned : scan d (l ++ (a ++ b)) = ⟨.ok k, l.length + 1⟩) (rest : Between a b) :
      Between (gap ++ d :: (l ++ a)) b

namespace Between

variable {a b g : List Char}

/-- Two points belong to one token. -/
theorem head?_ne_point (h : Between ['.'] b) : b.head? ≠ some '.' := by
  intro hb
  obtain ⟨u, rfl⟩ : ∃ u, b = '.' :: u := by
    cases b with
    | nil => cases hb
    | cons e u =>
      cases hb
      exact ⟨u, rfl⟩
  generalize ha : ['.'] = a at h
  cases h with
  | gap hgap =>
    subst ha
    cases hgap
  | @token gap l a _ d k gaps scanned rest =>
    obtain ⟨rfl, rfl, rfl, rfl⟩ : gap = [] ∧ d = '.' ∧ l = [] ∧ a = [] := by
      cases gap with
      | nil => simpa [eq_comm] using ha
      | cons c gap => simp at ha
    have hdots : scan '.' ('.' :: u) = ⟨.ok (.mark .dots), 2⟩ := rfl
    cases (Lexeme.mk.inj (hdots.symm.trans scanned)).2

/-- What a token in front of `a` sees is the same with layout between `a` and `b`. -/
theorem follows (h : Between a b) (hg : Layout g) : Follows (a ++ b) (a ++ (g ++ b)) := by
  intro e u' hu'
  cases a with
  | nil =>
    cases g with
    | nil => exact .inr ⟨u', hu', fun _ hpoint => hpoint⟩
    | cons c g =>
      cases hu'
      exact .inl (hg.separates rfl)
  | cons c a =>
    cases hu'
    refine .inr ⟨a ++ b, rfl, fun hc hpoint => ?_⟩
    subst hc
    cases a with
    | nil => exact absurd hpoint h.head?_ne_point
    | cons c' a => exact hpoint

/-- Layout between two tokens changes neither. -/
theorem lexes (h : Between a b) (hg : Layout g) {ks : List Token.Kind} (hl : Lexes (a ++ b) ks) :
    Lexes (a ++ (g ++ b)) ks := by
  induction h generalizing ks with
  | @gap a b hgap =>
    have hinsert := hg.gapLength_insert hgap
    have hdrop : (a ++ b).drop (gapLength false (a ++ b)) = b := by rw [hgap, List.drop_left]
    have hdrop' : (a ++ (g ++ b)).drop (gapLength false (a ++ (g ++ b))) = b := by
      rw [hinsert, ← List.append_assoc, ← List.length_append, List.drop_left]
    cases hl with
    | finish hend =>
      refine .finish ?_
      have hb : b.length = 0 := by
        rw [hgap, List.length_append] at hend
        omega
      rw [hinsert, List.length_append, List.length_append, hb, Nat.add_zero]
    | token hnext scanned next => exact .token (hdrop'.trans (hdrop.symm.trans hnext)) scanned next
  | @token gap l a b d k gaps scanned rest ih =>
    have hfollows := rest.follows hg
    have hsplit : ∀ c, gap ++ d :: (l ++ a) ++ c = gap ++ d :: (l ++ (a ++ c)) := fun c => by simp
    rw [hsplit] at hl ⊢
    have hgaps : gapLength false (gap ++ d :: (l ++ (a ++ (g ++ b)))) = gap.length := by
      refine gapLength_eq_of_slash gaps fun hslash => ?_
      cases l with
      | nil => exact hfollows.head?_eq (fun hsep => hsep.slash rfl) hslash
      | cons c l => exact hslash
    have hmore : ∀ c, (d :: (l ++ c)).drop (l.length + 1) = c := fun c => by simp
    cases hl with
    | finish hend =>
      rw [gaps, List.length_append, List.length_cons] at hend
      omega
    | token hnext hscan next =>
      rw [gaps, List.drop_left] at hnext
      cases hnext
      cases scanned.symm.trans hscan
      rw [hmore] at next
      refine .token (by rw [hgaps, List.drop_left]) (hfollows.scan_eq scanned) ?_
      rw [hmore]
      exact ih next

end Between

end Lexer

namespace Position

/-- Two fronts of one text that end at the same position are the same. -/
theorem eq_of_behind {before a a' more more' : List Char} (h : a ++ more = a' ++ more')
    (hp : behind (before ++ a) = behind (before ++ a')) : a = a' := by
  have hnil : ∀ {xs ys : List Char}, behind xs = behind (xs ++ ys) → ys = [] := by
    intro xs ys hxs
    by_contra hys
    have hlt := lt_after (behind xs) hys
    rw [← behind_append, ← hxs] at hlt
    exact not_lt_of_le (le_refl _) hlt
  rcases List.append_eq_append_iff.mp h with ⟨z, rfl, -⟩ | ⟨z, rfl, -⟩
  · rw [← List.append_assoc] at hp
    rw [hnil hp, List.append_nil]
  · rw [← List.append_assoc] at hp
    rw [hnil hp.symm, List.append_nil]

/-- Of two fronts of one text, the one that ends later is the longer one. -/
theorem exists_of_behind_le {before a a' more more' : List Char} (h : a ++ more = a' ++ more')
    (hp : behind (before ++ a') ≤ behind (before ++ a)) :
    ∃ z, a = a' ++ z ∧ more' = z ++ more := by
  rcases List.append_eq_append_iff.mp h with ⟨z, rfl, hz⟩ | ⟨z, rfl, hz⟩
  · by_cases hz' : z = []
    · subst hz'
      exact ⟨[], by simp, by simpa using hz.symm⟩
    · have hlt := lt_after (behind (before ++ a)) hz'
      rw [← behind_append, List.append_assoc] at hlt
      exact absurd hlt (not_lt_of_le hp)
  · exact ⟨z, rfl, hz⟩

end Position

namespace Lexer

/-- In front of what a cursor finds next, no token has started. -/
theorem Between.first {c : Cursor} {before a more : List Char}
    (hp : c.position = .behind before) (ha : c.rest = a ++ more)
    (h : .behind (before ++ a) = c.skipGap.position) : Between a more := by
  rw [Cursor.position_skipGap hp] at h
  obtain rfl : a = gapOf c.rest :=
    Position.eq_of_behind (ha.symm.trans (gapOf_append_pastGap c.rest).symm) h
  exact .gap (by rw [← ha, length_gapOf])

/-- The places at which tokens start, and the end of the text, are between tokens. -/
theorem Between.of_finds {c : Cursor} {S : Stream} {before a more : List Char} {q : Position}
    (h : c.Finds S) (hp : c.position = .behind before) (ha : c.rest = a ++ more)
    (hstop : S.stop = .ok q)
    (hplace : .behind (before ++ a) ∈ S.lexed.map Token.position ++ [q]) : Between a more := by
  induction h generalizing before a with
  | finish front =>
    cases hstop
    exact .first hp ha (List.mem_singleton.mp hplace)
  | invalid => cases hstop
  | @token c d rest k n S front scanned next ih =>
    rcases List.mem_cons.mp hplace with hplace | hplace
    · exact .first hp ha hplace
    have hle : n ≤ (d :: rest).length := by
      have := scan_length_le d rest
      rwa [scanned] at this
    obtain ⟨m, rfl⟩ := Nat.exists_eq_succ_of_ne_zero (Nat.ne_of_gt (pos_of_scan scanned))
    have hsplit := gapOf_append_pastGap c.rest
    have hpast : pastGap c.rest = d :: rest := front
    rw [hpast] at hsplit
    have hnext := Cursor.position_skip (Cursor.position_skipGap hp) (m + 1)
    have hmore : (c.skipGap.skip (m + 1)).rest = rest.drop m := by
      rw [← List.drop_succ_cons, ← front]
      rfl
    rw [front, List.take_succ_cons, List.append_assoc] at hnext
    -- later tokens start behind this one
    have hbehind := (Partition.of_finds next hnext).increasing.2 (.behind (before ++ a)) (by
      rw [show S.stop = .ok q from hstop]
      exact hplace)
    have hsplit' : gapOf c.rest ++ d :: rest.take m ++ rest.drop m = c.rest := by
      rw [List.append_assoc, List.cons_append, List.take_append_drop, hsplit]
    obtain ⟨a', rfl, ha'⟩ := Position.exists_of_behind_le (ha.symm.trans hsplit'.symm) hbehind
    have hrest := ih hnext (hmore.trans ha') hstop (by rwa [List.append_assoc])
    have hword : rest.take m ++ (a' ++ more) = rest := by rw [← ha', List.take_append_drop]
    have htake : (rest.take m).length = m :=
      List.length_take_of_le (Nat.le_of_succ_le_succ hle)
    rw [List.append_assoc, List.cons_append]
    refine .token (k := k) ?_ ?_ hrest
    · rw [hword, hsplit, length_gapOf]
    · rw [hword, htake, scanned]

end Lexer

namespace Stream

/-- A stream spells the kinds of its tokens if it reaches the end of the input. -/
theorem spells_iff {ks : List Token.Kind} {S : Stream} :
    Spells ks S ↔ ∃ ts q, S.tokens = .ok (ts, q) ∧ ts.map Token.kind = ks := by
  simp only [tokens_eq_ok_iff]
  constructor
  · intro h
    induction h with
    | finish p => exact ⟨[], p, ⟨rfl, rfl⟩, rfl⟩
    | token k p rest ih =>
      obtain ⟨ts, q, ⟨hts, hq⟩, rfl⟩ := ih
      exact ⟨⟨k, p⟩ :: ts, q, ⟨by rw [lexed, hts], hq⟩, rfl⟩
  · rintro ⟨ts, q, ⟨rfl, hq⟩, rfl⟩
    induction S with
    | token t rest ih => exact .token t.kind t.position (ih hq)
    | finish p => exact .finish p
    | invalid e => cases hq

/-- Layout in front of a token, or at the end of the text, leaves the tokens as they are. -/
theorem spells_layout {s₁ s₂ g : String} {ts : List Token} {q : Position}
    (h : (ofText (s₁ ++ s₂)).tokens = .ok (ts, q))
    (hplace : .behind s₁.toList ∈ ts.map Token.position ++ [q]) (hg : Lexer.Layout g.toList) :
    Spells (ts.map Token.kind) (ofText (s₁ ++ g ++ s₂)) := by
  have hspells : Spells (ts.map Token.kind) (ofText (s₁ ++ s₂)) := spells_iff.mpr ⟨ts, q, h, rfl⟩
  obtain ⟨hts, hq⟩ := tokens_eq_ok_iff.mp h
  have hstart : Position.behind ([] ++ s₁.toList) ∈
      (ofText (s₁ ++ s₂)).lexed.map Token.position ++ [q] := hts ▸ hplace
  rw [spells_ofText_iff, String.toList_append] at hspells
  rw [spells_ofText_iff, String.toList_append, String.toList_append, List.append_assoc]
  exact (Lexer.Between.of_finds (Cursor.finds_ofText (s₁ ++ s₂)) rfl
    String.toList_append hq hstart).lexes hg hspells

end Stream

end Scripting
