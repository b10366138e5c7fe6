import Scripting.Lexer

/-!
Which tokens a text spells, without their positions. `Lexer.Lexes` takes a text apart into gaps and
tokens; the stream of a text holds the tokens of that relation.
-/

namespace Scripting

/-- A stream of tokens of the given kinds up to the end of the input. -/
inductive Stream.Spells : List Token.Kind → Stream → Prop
  | finish (p : Position) : Spells [] (.finish p)
  | token {ks : List Token.Kind} {S : Stream} (k : Token.Kind) (p : Position) (rest : Spells ks S) :
      Spells (k :: ks) (.token ⟨k, p⟩ S)

namespace Lexer

open Text

/-- A text that consists of gaps and of tokens of the given kinds. -/
inductive Lexes : List Char → List Token.Kind → Prop
  | finish {cs : List Char} (gap : gapLength false cs = cs.length) : Lexes cs []
  | token {cs rest : List Char} {d : Char} {k : Token.Kind} {n : Nat} {ks : List Token.Kind}
      (gap : cs.drop (gapLength false cs) = d :: rest) (scanned : scan d rest = ⟨.ok k, n⟩)
      (next : Lexes ((d :: rest).drop n) ks) : Lexes cs (k :: ks)

/-- Whether a character belongs to a gap, where `next` comes behind it, and whether that leaves a
comment open. -/
def gapStep (inComment : Bool) (c : Char) (next : Option Char) : Option Bool :=
  if inComment then some (c != '\n')
  else if isBlank c then some false
  else if c == '#' || (c == '/' && next == some '/') then some true
  else none

section Gaps

variable {inComment opened : Bool} {c : Char} {next next' : Option Char} {rest : List Char}

theorem gapLength_cons (inComment : Bool) (c : Char) (rest : List Char) :
    gapLength inComment (c :: rest) =
      (gapStep inComment c rest.head?).elim 0 fun opened => gapLength opened rest + 1 := by
  unfold gapStep
  rw [gapLength]
  split
  · exact Nat.add_comm _ _
  split
  · exact Nat.add_comm _ _
  split
  · exact Nat.add_comm _ _
  · rfl

theorem gapLength_of_some (h : gapStep inComment c rest.head? = some opened) :
    gapLength inComment (c :: rest) = gapLength opened rest + 1 := by
  rw [gapLength_cons, h, Option.elim_some]

theorem gapLength_of_none (h : gapStep inComment c rest.head? = none) :
    gapLength inComment (c :: rest) = 0 := by
  rw [gapLength_cons, h, Option.elim_none]

/-- Only whether a comment opens depends on the character behind. -/
theorem gapStep_some (h : gapStep inComment c next = some opened)
    (hslash : opened = true → next = some '/' → next' = some '/') :
    gapStep inComment c next' = some opened := by
  unfold gapStep at h ⊢
  split at h
  · rw [if_pos ‹_›, h]
  rw [if_neg ‹_›]
  split at h
  · rw [if_pos ‹_›, h]
  rw [if_neg ‹_›]
  split at h
  · rename_i hstart
    obtain rfl := Option.some.inj h
    rw [if_pos]
    rw [Bool.or_eq_true, Bool.and_eq_true, beq_iff_eq (a := next)] at hstart
    rw [Bool.or_eq_true, Bool.and_eq_true, beq_iff_eq (a := next')]
    exact hstart.imp_right (And.imp_right (hslash rfl))
  · cases h

theorem gapStep_none (h : gapStep inComment c next = none)
    (hslash : next' = some '/' → next = some '/') : gapStep inComment c next' = none := by
  cases h' : gapStep inComment c next' with
  | none => rfl
  | some opened => exact h.symm.trans (gapStep_some h' fun _ => hslash) ▸ rfl

end Gaps

theorem gapLength_le (inComment : Bool) (cs : List Char) : gapLength inComment cs ≤ cs.length := by
  induction cs generalizing inComment with
  | nil => exact Nat.le_refl 0
  | cons c rest ih =>
    cases hstep : gapStep inComment c rest.head? with
    | none => exact gapLength_of_none hstep ▸ Nat.zero_le _
    | some opened => exact gapLength_of_some hstep ▸ Nat.succ_le_succ (ih opened)

theorem isNamePart_of_isNameStart {c : Char} (h : isNameStart c = true) : isNamePart c = true := by
  simp only [isNameStart, isNamePart, Bool.or_eq_true] at h ⊢
  rcases h with h | h
  · exact .inl (.inl h)
  · exact .inr h

/-- Every token takes a character. -/
theorem scan_length_pos {c : Char} {rest : List Char} {k : Token.Kind}
    (h : (scan c rest).outcome = .ok k) : 0 < (scan c rest).length := by
  unfold scan at h ⊢
  split at h
  · rename_i hc
    simp only [hc, if_true, numeralLength, Bool.true_or]
    omega
  · rename_i hd
    simp only [hd, Bool.false_eq_true, if_false]
    split at h
    · rename_i hc
      simp [hc, isNamePart_of_isNameStart hc]
    · rename_i hn
      simp only [hn, Bool.false_eq_true, if_false]
      split at h
      · rename_i hq
        simp only [hq, if_true]
        split <;> exact Nat.succ_pos _
      · rename_i hq
        simp only [hq, Bool.false_eq_true, if_false]
        unfold scanMark at h ⊢
        split
        · exact Nat.succ_pos _
        · rename_i hp
          simp only [hp] at h
          split
          · exact Nat.succ_pos _
          · rename_i hm
            simp only [hm] at h
            split at h <;> cases h

theorem pos_of_scan {c : Char} {rest : List Char} {k : Token.Kind} {n : Nat}
    (h : scan c rest = ⟨.ok k, n⟩) : 0 < n := by
  have hok : (scan c rest).outcome = .ok k := by rw [h]
  have hpos := scan_length_pos hok
  rwa [h] at hpos

/-- Characters that end every token in front of them. -/
structure Separates (e : Char) : Prop where
  digit : isDigit e = false
  point : e ≠ '.'
  slash : e ≠ '/'
  part : isNamePart e = false
  pair : ∀ c, Mark.ofPair? c e = none

theorem separates_of_mem {e : Char} (h : e ∈ ['\n', ' ', ',', ']']) : Separates e := by
  simp only [List.mem_cons, List.not_mem_nil, or_false] at h
  rcases h with rfl | rfl | rfl | rfl
  all_goals
    refine ⟨by decide, by decide, by decide, by decide, fun c => ?_⟩
    unfold Mark.ofPair?
    split <;> first | rfl | contradiction

/-- A text that no token in front of it goes on into. -/
def Separated (cs : List Char) : Prop := ∀ e, cs.head? = some e → Separates e

section Append

variable {e : Char} (he : Separates e) (more : List Char)
include he

theorem numeralLength_append (cs : List Char) :
    numeralLength (cs ++ e :: more) = numeralLength cs := by
  induction cs with
  | nil => simp [numeralLength, he.digit, he.point]
  | cons c rest ih =>
    have hhead : ((rest ++ e :: more).head? != some '.') = (rest.head? != some '.') := by
      cases rest with
      | nil =>
        have hne : (some e != some '.') = true := bne_iff_ne.mpr fun h => he.point (Option.some.inj h)
        exact hne
      | cons d rest => rfl
    simp only [List.cons_append, numeralLength, hhead, ih]

omit he in
theorem numeralLength_le (cs : List Char) : numeralLength cs ≤ cs.length := by
  induction cs with
  | nil => exact Nat.le_refl 0
  | cons c rest ih =>
    simp only [numeralLength, List.length_cons]
    split <;> omega

theorem takeWhile_append (cs : List Char) :
    (cs ++ e :: more).takeWhile isNamePart = cs.takeWhile isNamePart := by
  induction cs with
  | nil => simp [he.part]
  | cons c rest ih => simp only [List.cons_append, List.takeWhile_cons, ih]

omit he in
theorem textBody?_cons {c : Char} (hq : c ≠ '"') (hb : c ≠ '\\') (rest : List Char) :
    textBody? (c :: rest) = (textBody? rest).map fun (cs, n) => (c :: cs, n + 1) := by
  rw [textBody?]
  · simp [hb]
  · exact hq
  · exact fun d rest' h => absurd h hb

omit he in
theorem textBody?_append {cs : List Char} {x : List Char × Nat} (h : textBody? cs = some x)
    (ds : List Char) : textBody? (cs ++ ds) = some x := by
  fun_induction textBody? cs generalizing x with
  | case1 => cases h
  | case2 rest => exact h
  | case3 c rest ih =>
    obtain ⟨y, hy, rfl⟩ := Option.map_eq_some_iff.mp h
    simp only [List.cons_append, textBody?, ih hy, Option.map_some]
  | case4 c rest hq hb hc => cases h
  | case5 c rest hq _ hc ih =>
    obtain ⟨y, hy, rfl⟩ := Option.map_eq_some_iff.mp h
    rw [List.cons_append, textBody?_cons hq (by simpa using hc), ih hy]
    rfl

/-- A token is the same when a separator follows the text. -/
theorem scan_append {c : Char} {rest : List Char} {k : Token.Kind}
    (h : (scan c rest).outcome = .ok k) : scan c (rest ++ e :: more) = scan c rest := by
  unfold scan at h ⊢
  split
  · have hn := numeralLength_append he more (c :: rest)
    have ht : (c :: rest ++ e :: more).take (numeralLength (c :: rest)) =
        (c :: rest).take (numeralLength (c :: rest)) :=
      List.take_append_of_le_length (numeralLength_le _)
    rw [List.cons_append] at hn ht
    simp only [hn, ht]
  · rename_i hd
    simp only [hd, Bool.false_eq_true, if_false] at h
    split
    · have ht := takeWhile_append he more (c :: rest)
      rw [List.cons_append] at ht
      rw [ht]
    · rename_i hn
      simp only [hn, Bool.false_eq_true, if_false] at h
      split
      · rename_i hq
        simp only [hq, if_true] at h
        cases hb : textBody? rest with
        | none =>
          rw [hb] at h
          cases h
        | some x => rw [textBody?_append hb]
      · cases rest with
        | nil => simp [scanMark, he.pair c]
        | cons d rest => rfl

/-- A gap that ends in a text does not depend on what follows. -/
theorem gapLength_append_of_lt {inComment : Bool} {cs : List Char}
    (h : gapLength inComment cs < cs.length) :
    gapLength inComment (cs ++ e :: more) = gapLength inComment cs := by
  induction cs generalizing inComment with
  | nil => exact absurd h (Nat.not_lt_zero _)
  | cons c rest ih =>
    have hslash : (rest ++ e :: more).head? = some '/' → rest.head? = some '/' := by
      cases rest with
      | nil => exact fun h => absurd (Option.some.inj h) he.slash
      | cons d rest => exact id
    cases hstep : gapStep inComment c rest.head? with
    | none =>
      have hstep' := gapStep_none hstep hslash
      rw [List.cons_append, gapLength_of_none hstep, gapLength_of_none hstep']
    | some opened =>
      have hstep' : gapStep inComment c (rest ++ e :: more).head? = some opened :=
        gapStep_some hstep fun _ h => by simp [h]
      rw [gapLength_of_some hstep] at h ⊢
      rw [List.cons_append, gapLength_of_some hstep', ih (Nat.lt_of_succ_lt_succ h)]

end Append

/-- A line feed ends the gap in front of it, comments included. -/
theorem gapLength_append_newline {inComment : Bool} {cs : List Char} (ds : List Char)
    (h : gapLength inComment cs = cs.length) :
    gapLength inComment (cs ++ '\n' :: ds) = cs.length + 1 + gapLength false ds := by
  induction cs generalizing inComment with
  | nil =>
    have hblank : isBlank '\n' = true := by decide
    simp [gapLength, hblank]
  | cons c rest ih =>
    cases hstep : gapStep inComment c rest.head? with
    | none =>
      rw [gapLength_of_none hstep] at h
      cases h
    | some opened =>
      have hstep' : gapStep inComment c (rest ++ '\n' :: ds).head? = some opened :=
        gapStep_some hstep fun _ h => by simp [h]
      rw [gapLength_of_some hstep] at h
      rw [List.cons_append, gapLength_of_some hstep', ih (Nat.succ.inj h), List.length_cons]
      omega

theorem textBody?_length {cs : List Char} {x : List Char × Nat} (h : textBody? cs = some x) :
    x.2 ≤ cs.length := by
  fun_induction textBody? cs generalizing x with
  | case1 => cases h
  | case2 rest =>
    cases h
    exact Nat.succ_le_succ (Nat.zero_le _)
  | case3 c rest ih =>
    obtain ⟨y, hy, rfl⟩ := Option.map_eq_some_iff.mp h
    exact Nat.add_le_add_right (ih hy) 2
  | case4 => cases h
  | case5 c rest _ _ _ ih =>
    obtain ⟨y, hy, rfl⟩ := Option.map_eq_some_iff.mp h
    exact Nat.succ_le_succ (ih hy)

theorem scan_length_le (c : Char) (rest : List Char) : (scan c rest).length ≤ rest.length + 1 := by
  unfold scan
  split
  · exact numeralLength_le (c :: rest)
  · split
    · exact (List.takeWhile_sublist _).length_le
    · split
      · cases hb : textBody? rest with
        | none => exact Nat.le_refl _
        | some x => exact Nat.succ_le_succ (textBody?_length hb)
      · unfold scanMark
        split
        · rename_i hp
          cases rest with
          | nil => cases hp
          | cons d rest => simp
        · split
          · simp
          · split <;> simp

/-- Two texts with a line feed between them spell their tokens one after the other. -/
theorem Lexes.append_newline {cs ds : List Char} {ks ls : List Token.Kind} (hc : Lexes cs ks)
    (hd : Lexes ds ls) : Lexes (cs ++ '\n' :: ds) (ks ++ ls) := by
  induction hc with
  | @finish cs gap =>
    have hgap := gapLength_append_newline ds gap
    cases hd with
    | finish gap' => exact .finish (by rw [hgap, gap']; simp; omega)
    | token gap' scanned next =>
      refine .token ?_ scanned next
      rw [hgap, ← gap', Nat.add_assoc, ← List.drop_drop, List.drop_left, Nat.add_comm, List.drop_succ_cons]
  | @token cs rest d k n ks gap scanned next ih =>
    have hsep : Separates '\n' := separates_of_mem (by decide)
    have hlt : gapLength false cs < cs.length := by
      refine Nat.lt_of_not_le fun hge => ?_
      rw [List.drop_eq_nil_iff.mpr hge] at gap
      cases gap
    have hle : n ≤ (d :: rest).length := by
      have := scan_length_le d rest
      rwa [scanned] at this
    have hgap : (cs ++ '\n' :: ds).drop (gapLength false (cs ++ '\n' :: ds)) =
        d :: (rest ++ '\n' :: ds) := by
      rw [gapLength_append_of_lt hsep ds hlt,
        List.drop_append_of_le_length (Nat.le_of_lt hlt), gap]
      rfl
    have hscan : scan d (rest ++ '\n' :: ds) = ⟨.ok k, n⟩ := by
      rw [scan_append hsep ds (k := k) (by rw [scanned]), scanned]
    have hnext : (d :: (rest ++ '\n' :: ds)).drop n = (d :: rest).drop n ++ '\n' :: ds := by
      rw [← List.cons_append, List.drop_append_of_le_length hle]
    exact .token hgap hscan (hnext ▸ ih)

theorem lexes_semicolon : Lexes [';'] [.mark .semicolon] := by
  have hgap : [';'].drop (gapLength false [';']) = [';'] := by decide
  exact .token hgap rfl (.finish rfl)

/-- Blanks and comments alone hold no token. -/
theorem lexes_nil_iff {cs : List Char} {ks : List Token.Kind}
    (hd : cs.drop (gapLength false cs) = []) : Lexes cs ks ↔ ks = [] := by
  constructor
  · intro h
    cases h with
    | finish => rfl
    | token gap =>
      rw [hd] at gap
      cases gap
  · rintro rfl
    exact .finish (Nat.le_antisymm (gapLength_le false cs) (List.drop_eq_nil_iff.mp hd))

/-- What is left behind a gap starts with a token. -/
theorem lexes_cons_iff {cs rest : List Char} {ks : List Token.Kind} {d : Char}
    (hd : cs.drop (gapLength false cs) = d :: rest) :
    Lexes cs ks ↔ ∃ k n ls, scan d rest = ⟨.ok k, n⟩ ∧ Lexes ((d :: rest).drop n) ls ∧
      ks = k :: ls := by
  constructor
  · intro h
    cases h with
    | finish gap =>
      rw [gap, List.drop_length] at hd
      cases hd
    | token gap scanned next =>
      cases hd.symm.trans gap
      exact ⟨_, _, _, scanned, next, rfl⟩
  · rintro ⟨k, n, ls, scanned, next, rfl⟩
    exact .token hd scanned next

end Lexer

namespace Cursor

open Lexer

/-- The stream that a cursor finds: the end of the text, a part that is no token, or a token and
what the cursor finds behind it. -/
inductive Finds : Cursor → Stream → Prop
  | finish {c : Cursor} (front : c.skipGap.rest = []) : Finds c (.finish c.skipGap.position)
  | invalid {c : Cursor} {d : Char} {rest : List Char} {fault : LexFault} {n : Nat}
      (front : c.skipGap.rest = d :: rest) (scanned : scan d rest = ⟨.error fault, n⟩) :
      Finds c (.invalid ⟨fault, c.skipGap.position⟩)
  | token {c : Cursor} {d : Char} {rest : List Char} {k : Token.Kind} {n : Nat} {S : Stream}
      (front : c.skipGap.rest = d :: rest) (scanned : scan d rest = ⟨.ok k, n⟩)
      (next : Finds (c.skipGap.skip n) S) : Finds c (.token ⟨k, c.skipGap.position⟩ S)

variable {c : Cursor}

/-- Behind a token, less of the text is left. -/
theorem length_skip_lt {d : Char} {rest : List Char} {n : Nat} {k : Token.Kind}
    (h : c.skipGap.rest = d :: rest) (hs : scan d rest = ⟨.ok k, n⟩) :
    (c.skipGap.skip n).rest.length < c.rest.length := by
  have hn := pos_of_scan hs
  have hlength : c.skipGap.rest.length = rest.length + 1 := by rw [h, List.length_cons]
  have hle : c.skipGap.rest.length ≤ c.rest.length := by
    rw [Cursor.skipGap, Cursor.skip, List.length_drop]
    exact Nat.sub_le _ _
  have hrest : (c.skipGap.skip n).rest.length = c.skipGap.rest.length - n := List.length_drop
  omega

/-- As many tokens as there are characters, and one more for the end, are enough. -/
theorem finds_ofCursor {b : Nat} (hb : c.rest.length < b) : c.Finds (Stream.ofCursor b c) := by
  induction b generalizing c with
  | zero => exact absurd hb (Nat.not_lt_zero _)
  | succ b ih =>
    cases hd : c.skipGap.rest with
    | nil =>
      simp only [Stream.ofCursor, Cursor.next, hd]
      exact .finish hd
    | cons d rest =>
      cases hs : scan d rest with
      | mk outcome n =>
        simp only [Stream.ofCursor, Cursor.next, hd, hs]
        cases outcome with
        | error fault => exact .invalid hd hs
        | ok k =>
          have hless := length_skip_lt hd hs
          exact .token hd hs (ih (by omega))

theorem finds_ofText (s : String) : (Cursor.ofText s).Finds (Stream.ofText s) :=
  finds_ofCursor (Nat.lt_succ_self _)

namespace Finds

variable {S S' : Stream}

/-- A cursor finds one stream. -/
theorem unique (h : c.Finds S) (h' : c.Finds S') : S = S' := by
  induction h generalizing S' with
  | finish front =>
    cases h' with
    | finish => rfl
    | invalid front' => cases front.symm.trans front'
    | token front' => cases front.symm.trans front'
  | invalid front scanned =>
    cases h' with
    | finish front' => cases front.symm.trans front'
    | invalid front' scanned' =>
      cases front.symm.trans front'
      cases scanned.symm.trans scanned'
      rfl
    | token front' scanned' =>
      cases front.symm.trans front'
      cases scanned.symm.trans scanned'
  | token front scanned _ ih =>
    cases h' with
    | finish front' => cases front.symm.trans front'
    | invalid front' scanned' =>
      cases front.symm.trans front'
      cases scanned.symm.trans scanned'
    | token front' scanned' next' =>
      cases front.symm.trans front'
      cases scanned.symm.trans scanned'
      rw [ih next']

/-- The tokens that are found are those that the text spells. -/
theorem spells_iff {ks : List Token.Kind} (h : c.Finds S) : Stream.Spells ks S ↔ Lexes c.rest ks := by
  induction h generalizing ks with
  | finish front =>
    rw [lexes_nil_iff front]
    constructor
    · intro h
      cases h
      rfl
    · rintro rfl
      exact .finish _
  | invalid front scanned =>
    rw [lexes_cons_iff front]
    constructor
    · intro h
      cases h
    · rintro ⟨k, n, ls, scanned', -, -⟩
      cases scanned.symm.trans scanned'
  | @token c d rest k n S front scanned next ih =>
    have hrest : (c.skipGap.skip n).rest = (d :: rest).drop n := by
      rw [← front]
      rfl
    rw [lexes_cons_iff front]
    constructor
    · intro h
      cases h with
      | token _ _ rest => exact ⟨k, n, _, scanned, hrest ▸ ih.mp rest, rfl⟩
    · rintro ⟨k, n, ls, scanned', hls, rfl⟩
      cases scanned.symm.trans scanned'
      exact .token _ _ (ih.mpr (hrest ▸ hls))

end Finds

end Cursor

namespace Stream

/-- The stream of a text holds the tokens that the text spells. -/
theorem spells_ofText_iff {s : String} {ks : List Token.Kind} :
    Spells ks (ofText s) ↔ Lexer.Lexes s.toList ks :=
  (Cursor.finds_ofText s).spells_iff

end Stream

end Scripting
