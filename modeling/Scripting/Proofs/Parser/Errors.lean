import Scripting.Proofs.Lexer.Partition
import Scripting.Proofs.Parser.Progress
import Scripting.Proofs.Parser.Suffix

/-!
Where syntax errors stand. A parser never passes what is no token, so a program is read only from a
text that is all tokens, and an error stands at a token in front of the first lexical error, at that
error, or at the end of the input.
-/

namespace Scripting

namespace Stream

variable {R S : Stream} {e : SyntaxError}

theorem Suffix.stop_eq (h : R.Suffix S) : R.stop = S.stop := by
  induction h with
  | refl => rfl
  | token _ ih => exact ih

/-- What an error about a stream is about. -/
theorem Blames.cases (h : S.Blames e) :
    (∃ t ∈ S.lexed, e.position = t.position ∧ e.fault.kind ≠ .unexpectedEnd) ∨
      (S.stop = .ok e.position ∧ e.fault.kind = .unexpectedEnd) ∨
      ∃ f, S.stop = .error f ∧ e = ⟨.lexical f.fault, f.position⟩ := by
  induction h with
  | @token t S place kind => exact .inl ⟨t, List.mem_cons_self, place, kind⟩
  | finish kind => exact .inr (.inl ⟨rfl, kind⟩)
  | @invalid f lexical => exact .inr (.inr ⟨f, rfl, lexical⟩)
  | later _ ih =>
    rcases ih with ⟨t, ht, h⟩ | h
    · exact .inl ⟨t, List.mem_cons_of_mem _ ht, h⟩
    · exact .inr h

theorem ofText_lexed_lt {s : String} {t : Token} (h : t ∈ (ofText s).lexed) :
    t.position < stopPlace (ofText s).stop :=
  (List.pairwise_append.mp (Partition.ofText s).increasing.1).2.2 _ (List.mem_map_of_mem h) _
    (List.mem_singleton_self _)

end Stream

namespace Parser

variable {limit : Option Int} {S : Stream}

/-- A program is read from tokens only. -/
theorem parseStream_stop {p : Program} (h : parseStream limit S = .ok p) : ∃ q, S.stop = .ok q := by
  obtain ⟨R, hR⟩ := program_of_parseStream h
  have hsuffix := (Takes.program (taking_sorts limit _ _) _).suffix hR
  obtain ⟨q, rfl⟩ := program_rest hR
  exact ⟨q, hsuffix.stop_eq.symm⟩

/-- A syntax error is about the text. -/
theorem parseStream_blames {e : SyntaxError} (h : parseStream limit S = .error e) : S.Blames e := by
  have hanswer := Takes.program (taking_sorts limit (enough S) (enough S)) (enough S) S
  rw [program_of_parseStream_error h] at hanswer
  exact hanswer.resolve_left (parseStream_ne_outOfSteps limit S e h)

end Parser

/-- A text with a program is all tokens. An error stands at a token, at the end of the input or at
the first lexical error and never behind that one; there it is the lexical error itself, and it is
of an unfinished input exactly if the text is all tokens and it stands at their end. -/
theorem syntax_errors_placed (limit : Option Int) (s : String) :
    (∀ p, parse limit s = .ok p → ∃ ts q, (Stream.ofText s).tokens = .ok (ts, q)) ∧
      ∀ e, parse limit s = .error e →
        ((∃ t ∈ (Stream.ofText s).lexed, e.position = t.position) ∨
          (∃ ts, (Stream.ofText s).tokens = .ok (ts, e.position)) ∨
          ∃ f, (Stream.ofText s).tokens = .error f ∧ e.position = f.position) ∧
        (∀ f, (Stream.ofText s).tokens = .error f → e.position ≤ f.position ∧
          (e.position = f.position →
            e.fault.kind = .custom ∧ e.fault.message = f.fault.message)) ∧
        (e.fault.kind = .unexpectedEnd ↔
          ∃ ts, (Stream.ofText s).tokens = .ok (ts, e.position)) := by
  simp only [Stream.tokens_eq_ok_iff, Stream.tokens_eq_error_iff]
  constructor
  · intro p hp
    obtain ⟨q, hq⟩ := Parser.parseStream_stop hp
    exact ⟨_, q, rfl, hq⟩
  intro e he
  rcases (Parser.parseStream_blames he).cases with
    ⟨t, ht, hplace, hkind⟩ | ⟨hstop, hkind⟩ | ⟨f, hstop, rfl⟩
  · -- a token stands in front of whatever stops the lexer
    have hlt := Stream.ofText_lexed_lt ht
    rw [← hplace] at hlt
    refine ⟨.inl ⟨t, ht, hplace⟩, fun f hf => ?_, fun h => absurd h hkind, ?_⟩
    · rw [hf, stopPlace] at hlt
      exact ⟨Position.le_of_lt hlt, fun h => absurd hlt (Position.not_lt_of_le (h ▸ Position.le_refl _))⟩
    · rintro ⟨ts, -, hstop⟩
      rw [hstop, stopPlace] at hlt
      exact absurd hlt (Position.not_lt_of_le (Position.le_refl _))
  · refine ⟨.inr (.inl ⟨_, rfl, hstop⟩), fun f hf => ?_, fun _ => ⟨_, rfl, hstop⟩, fun _ => hkind⟩
    rw [hstop] at hf
    cases hf
  · refine ⟨.inr (.inr ⟨f, hstop, rfl⟩), fun g hg => ?_, fun h => ?_, ?_⟩
    · rw [hstop] at hg
      cases hg
      exact ⟨Position.le_refl _, fun _ => ⟨rfl, rfl⟩⟩
    · cases h
    · rintro ⟨ts, -, h⟩
      rw [hstop] at h
      cases h

theorem syntax_errors_placed_undoubled :
    ∃ e, parse none "f(a & b" = .error e ∧ e.position = ⟨1, 5⟩ ∧ e.fault.kind = .custom ∧
      e.fault.message = "unexpected character '&' (did you mean '&&'?)" := by
  have hcheck : (match parse none "f(a & b" with
      | .error e => some e.position
      | .ok _ => none) = some (⟨1, 5⟩ : Position) := by decide +kernel
  have hplaced := (syntax_errors_placed none "f(a & b").2
  cases h : parse none "f(a & b" with
  | ok p =>
    rw [h] at hcheck
    cases hcheck
  | error e =>
    rw [h] at hcheck
    have hposition : e.position = ⟨1, 5⟩ := Option.some.inj hcheck
    exact ⟨e, rfl, hposition, ((hplaced e h).2.1 ⟨.undoubled '&', ⟨1, 5⟩⟩ rfl).2 hposition⟩

end Scripting
