import Scripting.Proofs.Parser.Composed

/-!
Parsers only take tokens off the front and only blame what they have seen: what a parser leaves is
a suffix of what it was given, and its error stands at a token, at the end of the input or at the
first part of the text that is no token.
-/

namespace Scripting

/-- `R` is what is left of `S` without some of its first tokens. -/
inductive Stream.Suffix (R : Stream) : Stream → Prop
  | refl : Suffix R R
  | token {t : Token} {S : Stream} (rest : Suffix R S) : Suffix R (.token t S)

theorem Stream.Suffix.trans {R S U : Stream} (h₁ : R.Suffix S) (h₂ : S.Suffix U) : R.Suffix U := by
  induction h₂ with
  | refl => exact h₁
  | token _ ih => exact ih.token

/-- An error is about a stream: about one of its tokens, about its end, or about what is no token.
Only at the end is the input unfinished. -/
inductive Stream.Blames (e : SyntaxError) : Stream → Prop
  | token {t : Token} {S : Stream} (place : e.position = t.position)
      (kind : e.fault.kind ≠ .unexpectedEnd) : Blames e (.token t S)
  | finish (kind : e.fault.kind = .unexpectedEnd) : Blames e (.finish e.position)
  | invalid {f : LexError} (lexical : e = ⟨.lexical f.fault, f.position⟩) : Blames e (.invalid f)
  | later {t : Token} {S : Stream} (rest : Blames e S) : Blames e (.token t S)

theorem Stream.Suffix.blames {e : SyntaxError} {R S : Stream} (h : R.Suffix S)
    (he : R.Blames e) : S.Blames e := by
  induction h with
  | refl => exact he
  | token _ ih => exact ih.later

def Stream.Holds (q : Position) (S : Stream) : Prop :=
  ∃ t R, (Stream.token t R).Suffix S ∧ t.position = q

/-- What a parser may answer to a stream: a suffix, or an error about it. -/
def Stream.Answers {α : Type} (S : Stream) : Except SyntaxError (α × Stream) → Prop
  | .ok x => x.2.Suffix S
  | .error e => e.fault = .outOfSteps ∨ S.Blames e

theorem Stream.Answers.mono {α : Type} {R S : Stream} {x : Except SyntaxError (α × Stream)}
    (h : R.Suffix S) (hx : R.Answers x) : S.Answers x := by
  cases x with
  | ok x => exact Stream.Suffix.trans hx h
  | error e => exact hx.imp_right h.blames

namespace Parser

variable {σ α β : Type}

/-- What a parser answers from any place in `S` on is an answer to `S`. -/
def Within (S : Stream) (p : Parser α) : Prop := ∀ R, R.Suffix S → S.Answers (p R)

/-- What a parser answers is an answer to what it was given. -/
def Takes (p : Parser α) : Prop := ∀ S : Stream, S.Answers (p S)

theorem Takes.within {p : Parser α} (hp : Takes p) (S : Stream) : Within S p :=
  fun R h => (hp R).mono h

theorem Takes.of_within {p : Parser α} (h : ∀ S, Within S p) : Takes p :=
  fun S => h S S .refl

theorem Takes.suffix {p : Parser α} (hp : Takes p) {S : Stream} {x : α × Stream}
    (h : p S = .ok x) : x.2.Suffix S := by
  have hanswer := hp S
  rwa [h] at hanswer

theorem Takes.pure (a : α) : Takes (pure a) := fun _ => .refl

theorem Takes.exhausted : Takes (exhausted : Parser α) := fun _ => .inl rfl

theorem Takes.refuse (w : Wanted) : Takes (refuse w : Parser α) := by
  intro S
  cases S with
  | token t S => exact .inr (.token rfl (by simp [SyntaxFault.kind]))
  | finish p => exact .inr (.finish (e := ⟨.unfinished w, p⟩) rfl)
  | invalid f => exact .inr (.invalid rfl)

theorem Takes.lookKind : Takes lookKind := by
  intro S
  cases S with
  | invalid f => exact .inr (.invalid rfl)
  | _ => exact .refl

theorem Takes.advance : Takes advance := by
  intro S
  cases S with
  | token t S => exact .token .refl
  | finish p => exact .refl
  | invalid f => exact .inr (.invalid rfl)

theorem Takes.atFunction : Takes atFunction := by
  intro S
  unfold Parser.atFunction
  split
  · exact .refl
  · exact .inr (.invalid rfl)
  · exact .refl

section Within

variable {S : Stream}

theorem Within.bind {p : Parser α} {f : α → Parser β} (hp : Within S p)
    (hf : ∀ a, Within S (f a)) : Within S (p >>= f) := by
  intro R hR
  have hanswer := hp R hR
  cases h : p R with
  | error e =>
    rw [h] at hanswer
    rw [bind_of_error h]
    exact hanswer
  | ok x =>
    rw [h] at hanswer
    rw [bind_of_ok h]
    exact hf x.1 x.2 hanswer

/-- A fault at a token of the stream. -/
theorem Within.fault {f : SyntaxFault} {q : Position} (hq : S.Holds q)
    (hf : f.kind ≠ .unexpectedEnd) : Within S (fault f q : Parser α) := by
  obtain ⟨t, R, hR, rfl⟩ := hq
  exact fun _ _ => .inr (hR.blames (.token rfl hf))

theorem Within.checkLength {r : Sorts} {name : String} {first last : Position}
    (h : S.Holds first) : Within S (checkLength r name first last) := by
  unfold Parser.checkLength
  split
  · exact (Takes.pure _).within S
  · dsimp only
    split
    · exact .fault h (by simp [SyntaxFault.kind])
    · exact (Takes.pure _).within S

/-- A token that has been looked at is one of the stream. -/
theorem Within.look {f : Option Token → Parser α} (hfinish : Within S (f none))
    (htoken : ∀ k q, S.Holds q → Within S (f (some ⟨k, q⟩))) : Within S (look >>= f) := by
  intro R hR
  cases R with
  | token t R => exact htoken t.kind t.position ⟨t, R, hR, rfl⟩ _ hR
  | finish p => exact hfinish _ hR
  | invalid e => exact .inr (hR.blames (.invalid rfl))

theorem Takes.expect (m : Mark) : Takes (expect m) := by
  refine .of_within fun S => Within.look ((Takes.refuse _).within S) fun k q _ => ?_
  split
  · split
    · exact (Takes.advance.within S).bind fun _ => (Takes.pure _).within S
    · exact (Takes.refuse _).within S
  · exact (Takes.refuse _).within S

/-- A mark that has been taken was one of the stream. -/
theorem Within.expect {m : Mark} {f : Position → Parser α}
    (hf : ∀ q, S.Holds q → Within S (f q)) : Within S (expect m >>= f) := by
  intro R hR
  have hanswer := (Takes.expect m).within S R hR
  cases h : Parser.expect m R with
  | error e =>
    rw [h] at hanswer
    rw [bind_of_error h]
    exact hanswer
  | ok x =>
    rw [h] at hanswer
    rw [bind_of_ok h]
    exact hf x.1 ⟨⟨.mark m, x.1⟩, x.2, expect_eq_ok h ▸ hR, rfl⟩ x.2 hanswer

theorem Within.rounds {round : σ → Parser (Round σ α)} (h : ∀ s, Within S (round s)) (b : Nat)
    (s : σ) : Within S (rounds round b s) := by
  induction b generalizing s with
  | zero => exact Takes.exhausted.within S
  | succ b ih =>
    refine (h s).bind fun x => ?_
    cases x with
    | stop a => exact (Takes.pure a).within S
    | again s f => exact (ih s).bind fun _ => (Takes.pure _).within S

end Within

structure Taking (r : Sorts) : Prop where
  expression : ∀ records, Takes (r.expression records)
  statement : Takes r.statement

/-- What is composed of parsers that leave suffixes leaves a suffix. -/
theorem Composed.within {r r' : Sorts} (hr : Taking r) {seen : Sightings}
    {p p' : Parser α} (h : Composed r r' seen p p') {S : Stream}
    (hseen : ∀ q ∈ seen, S.Holds q.1) : Within S p := by
  induction h with
  | pure a => exact (Takes.pure a).within S
  | bind _ _ ihp ihf => exact (ihp hseen).bind fun a => ihf a hseen
  | refuse w => exact (Takes.refuse w).within S
  | lookKind => exact Takes.lookKind.within S
  | advance => exact Takes.advance.within S
  | atFunction => exact Takes.atFunction.within S
  | look _ _ ihfinish ihtoken =>
    exact .look (ihfinish hseen) fun k q hq => ihtoken k q q (List.forall_mem_cons.mpr ⟨hq, hseen⟩)
  | expect _ ih => exact .expect fun q hq => ih q q (List.forall_mem_cons.mpr ⟨hq, hseen⟩)
  | fault hq hf => exact .fault (hseen _ hq) hf
  | checkLength hp _ => exact .checkLength (hseen _ hp)
  | expression records => exact (hr.expression records).within S
  | statement => exact hr.statement.within S
  | rounds _ _ s ih => exact .rounds (fun s => ih s hseen) _ s

theorem Taking.takes {r : Sorts} (hr : Taking r) {p : Parser α} (h : Composed r r [] p p) :
    Takes p := .of_within fun _ => h.within hr (List.forall_mem_nil _)

theorem taking_sorts (limit : Option Int) (b n : Nat) :
    Taking ⟨expression limit b, statement limit b, limit, n⟩ :=
  sorts_induction (fun _ => ⟨fun _ => .exhausted, .exhausted⟩)
    (fun _ _ hr => ⟨fun records => hr.takes (.assignment records), hr.takes .statementOf⟩) b n

theorem Takes.program {r : Sorts} (hr : Taking r) (b : Nat) : Takes (program r b) :=
  hr.takes (.program (.same b))

/-- A program is read up to the end of the input. -/
theorem program_rest {r : Sorts} {b : Nat} {s : Stream} {x : Program × Stream}
    (h : program r b s = .ok x) : ∃ p, x.2 = .finish p := by
  induction b generalizing s x with
  | zero => exact absurd h exhausted_ne_ok
  | succ b ih =>
    cases s with
    | invalid e => cases h
    | finish p =>
      cases h
      exact ⟨p, rfl⟩
    | token t s =>
      obtain ⟨k, p⟩ := t
      by_cases hk : k = .mark .semicolon
      · subst hk
        exact ih h
      · rw [program_statement _ _ _ _ hk] at h
        obtain ⟨first, s₁, -, h⟩ := bind_eq_ok h
        obtain ⟨rest, s₂, hrest, h⟩ := bind_eq_ok h
        cases h
        exact ih (x := (rest, s₂)) hrest

end Parser

end Scripting
