import Scripting.Proofs.Lexer.Tokens
import Scripting.Proofs.Number.Unsigned
import Scripting.Proofs.Parser.Image
import Scripting.Proofs.Parser.Separation

/-!
What is read can be written. The lexer makes numbers without a sign and names that are spelled like
names, and what the parser makes of such tokens is well formed.
-/

namespace Scripting

namespace Lexer

open Text

theorem isWritten_wordKind {cs : List Char} (hstart : cs.head?.any isNameStart = true)
    (hpart : cs.all isNamePart = true) : (wordKind (String.ofList cs)).isWritten = true := by
  unfold wordKind
  cases hk : Keyword.ofText? (String.ofList cs) with
  | some k => rfl
  | none => simp only [Token.Kind.isWritten, isIdentifier, String.toList_ofList, hstart, hpart, hk,
      Bool.and_self, Option.isNone_none]

theorem isWritten_numeralKind {cs : List Char} {k : Token.Kind} (h : numeralKind cs = .ok k) :
    k.isWritten = true := by
  unfold numeralKind at h
  cases hx : Number.numeral? cs with
  | none =>
    rw [hx] at h
    cases h
  | some x =>
    simp only [hx] at h
    split at h
    · cases h
    · rename_i hfinite
      cases h
      exact Number.isUnsigned_numeral hx (Bool.eq_false_iff.mpr hfinite)

/-- Every token that is read can be written. -/
theorem isWritten_scan {c : Char} {rest : List Char} {k : Token.Kind}
    (h : (scan c rest).outcome = .ok k) : k.isWritten = true := by
  unfold scan at h
  split at h
  · exact isWritten_numeralKind h
  split at h
  · rename_i hstart
    cases h
    refine isWritten_wordKind ?_ List.all_takeWhile
    rw [List.takeWhile_cons_of_pos (isNamePart_of_isNameStart hstart)]
    exact hstart
  split at h
  · split at h
    · cases h
      rfl
    · cases h
  · unfold scanMark at h
    split at h
    · cases h
      rfl
    · split at h
      · cases h
        rfl
      · split at h <;> cases h

end Lexer

/-- What holds of every token that is scanned holds of all tokens that are found. -/
theorem Cursor.Finds.all {T : Token.Kind → Bool} {c : Cursor} {S : Stream} (h : c.Finds S)
    (hT : ∀ d rest k, (Lexer.scan d rest).outcome = .ok k → T k = true) : S.All T := by
  induction h with
  | finish => trivial
  | invalid => trivial
  | @token _ d rest k _ _ _ scanned _ ih => exact ⟨hT d rest k (by rw [scanned]), ih⟩

/-- Every token of a text can be written. -/
theorem Stream.all_written (s : String) : (ofText s).All Token.Kind.isWritten :=
  (Cursor.finds_ofText s).all fun _ _ _ h => Lexer.isWritten_scan h

/-- Every program that is parsed can be written down. -/
theorem parse_wellFormed {limit : Option Int} {source : String} {p : Program}
    (h : parse limit source = .ok p) : p.wellFormed = true :=
  Parser.made_of_parseStream (Stream.all_written source) h

theorem parse_wellFormed_nested :
    ∃ p, parse none "print (É { x: 0.5 }, { -7. }); fn _a() {}" = .ok p ∧
      p.wellFormed = true := by
  have h : (parse none
      "print (É { x: 0.5 }, { -7. }); fn _a() {}").isOk = true := by
    decide +kernel
  exact ⟨_, eq_ok_of_isOk h, parse_wellFormed (eq_ok_of_isOk h)⟩

end Scripting
