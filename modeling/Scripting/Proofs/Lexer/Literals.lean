import Scripting.Proofs.Lexer.Partition
import Scripting.Proofs.Lexer.Tokens
import Scripting.Value.Text

/-!
Literals of texts. The lexer undoes escapes on its way to the closing quote, while the grammar takes
a whole leaf and undoes the escapes between its quotes afterwards. Both follow `Lexer.Quotes`, which
says what stands between the quotes of a text, so they agree on every leaf; and both undo the escapes
with which a text is written.
-/

namespace Scripting

namespace Text

def replace (cs : List Char) (c : Char) (new : List Char) : List Char :=
  cs.flatMap fun d => if d == c then new else [d]

/-- Escaping by five replacements one after the other. The backslash comes first, since the others put
in backslashes that have to stay. -/
def escaped (cs : List Char) : List Char :=
  [('\\', ['\\', '\\']), ('"', ['\\', '"']), ('\n', ['\\', 'n']), ('\r', ['\\', 'r']),
    ('\t', ['\\', 't'])].foldl (fun cs (c, new) => replace cs c new) cs

/-- Escaping character by character comes to the same. -/
theorem flatMap_literalChar (cs : List Char) : cs.flatMap literalChar = escaped cs := by
  induction cs with
  | nil => rfl
  | cons c cs ih =>
    simp only [escaped, List.foldl_cons, List.foldl_nil, replace] at ih ⊢
    simp only [List.flatMap_cons, List.flatMap_append, ih, List.append_cancel_right_eq]
    unfold literalChar
    split_ifs <;> simp_all

end Text

namespace Lexer

open Text

theorem scan_quote (rest : List Char) :
    scan '"' rest = match textBody? rest with
      | some (cs, n) => ⟨.ok (.text (String.ofList cs)), n + 1⟩
      | none => ⟨.error .unterminated, rest.length + 1⟩ := by
  rfl

/-- What stands between quotes gives its text when the escapes are undone from left to right. -/
theorem Quotes.unescaped_eq {raw cs : List Char} (h : Quotes raw cs) :
    Grammar.unescaped raw = cs := by
  induction h with
  | nil => rfl
  | plain quote escape rest ih =>
    rw [Grammar.unescaped, ih]
    exact fun d rest' h => absurd h escape
  | escape c rest ih => rw [Grammar.unescaped, ih]

/-- The value of a leaf that the lexer reads as a token is the text of the token. -/
theorem kind_of_scan {t more : List Char} {k : Token.Kind} {n : Nat}
    (h : scan '"' (t ++ more) = ⟨.ok k, n⟩) (hn : n = t.length + 1) {l : Grammar.Leaf}
    (hl : l.text = '"' :: t) : k = .text l.value := by
  rw [scan_quote] at h
  cases hbody : textBody? (t ++ more) with
  | none =>
    rw [hbody] at h
    cases h
  | some x =>
    obtain ⟨cs, m⟩ := x
    rw [hbody] at h
    obtain ⟨hkind, hlength⟩ := Lexeme.mk.inj h
    cases hkind
    obtain ⟨raw, htake, hraw⟩ := quotes_of_textBody? hbody
    have ht : t = raw ++ ['"'] := by
      rw [← htake]
      dsimp only
      rw [show m = t.length by omega, List.take_left]
    rw [Grammar.Leaf.value, hl, ht, List.drop_one, List.tail_cons, List.dropLast_concat,
      hraw.unescaped_eq]

end Lexer

namespace Cursor

variable {before more : List Char} {p : Position}

/-- A leaf that a cursor in front of a quote passes as one token. -/
theorem kind_of_next {t : List Char} {token : Token} {c : Cursor} {l : Grammar.Leaf}
    (hquote : t.head? = some '"') (hnext : next ⟨before, t ++ more, p⟩ = (.token token, c))
    (hrest : c.rest = more) (hl : l.text = t) : token.kind = .text l.value := by
  obtain ⟨t, rfl⟩ := List.head?_eq_some_iff.mp hquote
  rw [List.cons_append, next_eq_token_iff rfl] at hnext
  obtain ⟨-, n, hscan, rfl⟩ := hnext
  refine Lexer.kind_of_scan hscan ?_ hl
  -- what is left behind the token gives the number of characters that it took
  have hle := Lexer.scan_length_le '"' (t ++ more)
  have hlength := congrArg List.length hrest
  simp only [hscan, skip, List.length_drop, List.length_cons, List.length_append] at hle hlength
  omega

/-- In front of a literal a cursor reads its text and stands behind the literal then. -/
theorem next_literal (v : String) : next ⟨before, (Text.literal v).toList ++ more, p⟩ =
    (.token ⟨.text v, p⟩, ⟨(Text.literal v).toList.reverse ++ before, more,
      p.after (Text.literal v).toList⟩) := by
  have htext : (Text.literal v).toList ++ more =
      '"' :: (v.toList.flatMap Text.literalChar ++ '"' :: more) := by
    simp [Text.literal]
  rw [htext, next_eq_token_iff rfl]
  refine ⟨rfl, _, Lexer.scan_literal v more, ?_⟩
  rw [← htext, skip]
  simp only [List.take_left, List.drop_left]

end Cursor

/-- A text between quotes has the same value for the lexer as for the grammar: if the lexer stands in
front of a quote and its next token takes exactly the characters of a leaf, then the token is the text
that the grammar makes of the leaf. And texts are written, with their escapes put in by replacements,
so that both read them back: in front of the literal of a text the lexer finds this text and stands
behind the literal then, whatever follows, and for the grammar a leaf that is the literal has this text
as its value. -/
theorem text_literals_agree :
    (∀ (before t more : List Char) (p : Position) (token : Token) (c : Cursor) (l : Grammar.Leaf),
      t.head? = some '"' → Cursor.next ⟨before, t ++ more, p⟩ = (.token token, c) → c.rest = more →
        l.text = t → token.kind = .text l.value) ∧
    ∀ v : String, ∃ w, (Value.text v).literal? = some w ∧
      w.toList = '"' :: Text.escaped v.toList ++ ['"'] ∧
      (∀ before more p, Cursor.next ⟨before, w.toList ++ more, p⟩ =
        (.token ⟨.text v, p⟩, ⟨w.toList.reverse ++ before, more, p.after w.toList⟩)) ∧
      ∀ l : Grammar.Leaf, l.text = w.toList → l.value = v := by
  refine ⟨fun _ _ _ _ _ _ _ hquote hnext hrest hl => Cursor.kind_of_next hquote hnext hrest hl,
    fun v => ⟨Text.literal v, rfl, ?_, fun _ _ _ => Cursor.next_literal v, fun l hl => ?_⟩⟩
  · rw [Text.literal, String.toList_ofList, Text.flatMap_literalChar]
  · have hquote : (Text.literal v).toList.head? = some '"' := by simp [Text.literal]
    have hnext : Cursor.next ⟨[], (Text.literal v).toList ++ [], .start⟩ = _ :=
      Cursor.next_literal v
    exact (Token.Kind.text.inj (Cursor.kind_of_next hquote hnext rfl hl)).symm

/-- A leaf with an unknown escape, an escaped quote behind a backslash, and a line feed; and the same
text written as a literal. -/
theorem text_literals_agree_escapes :
    let v := "q\\\"\n"
    let t : List Char := "\"\\q\\\\\\\"\n\"".toList
    let c := (Cursor.mk [] (t ++ ['x']) .start).skip t.length
    Cursor.next ⟨[], t ++ ['x'], .start⟩ = (.token ⟨.text v, .start⟩, c) ∧
      Token.Kind.text v = .text (Grammar.Leaf.mk .text t .start).value ∧
      ∃ w, (Value.text v).literal? = some w ∧ w.toList ≠ t ∧
        (Grammar.Leaf.mk .text w.toList .start).value = v := by
  intro v t c
  have hnext : Cursor.next ⟨[], t ++ ['x'], .start⟩ = (.token ⟨.text v, .start⟩, c) := rfl
  have hvalue := text_literals_agree.1 [] t ['x'] .start _ c (.mk .text t .start) rfl hnext rfl rfl
  obtain ⟨w, hw, htext, -, hleaf⟩ := text_literals_agree.2 v
  refine ⟨hnext, hvalue, w, hw, ?_, hleaf _ rfl⟩
  rw [htext]
  decide

end Scripting
