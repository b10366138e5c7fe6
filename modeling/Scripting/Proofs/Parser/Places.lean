import Scripting.Proofs.Lexer.Layout
import Scripting.Proofs.Parser.Composed
import Scripting.Proofs.Parser.Separation

/-!
Parsers do not see positions. On a stream without positions they make the same trees and report the
same faults, so layout between the tokens of a text changes neither its program nor its fault.

The positions of tokens go into errors only, and without a limit on the length of functions so do
those that a parser gives: `Unplaces` relates what follows a position to what follows any other.
-/

namespace Scripting

/-- The stream with every position at the start. -/
def Stream.unplaced : Stream → Stream
  | token t rest => token ⟨t.kind, .start⟩ rest.unplaced
  | finish _ => finish .start
  | invalid e => invalid ⟨e.fault, .start⟩

theorem Stream.length_unplaced (S : Stream) : S.unplaced.length = S.length := by
  induction S with
  | token t rest ih => exact congrArg Nat.succ ih
  | _ => rfl

theorem Stream.front?_unplaced (S : Stream) : S.unplaced.front? = S.front? := by
  cases S <;> rfl

/-- Streams without positions are told apart by their kinds alone. -/
theorem Stream.Spells.unplaced_eq {ks : List Token.Kind} {S S' : Stream} (h : Spells ks S)
    (h' : Spells ks S') : S.unplaced = S'.unplaced := by
  induction h generalizing S' with
  | finish p =>
    cases h'
    rfl
  | token k p _ ih =>
    cases h' with
    | token _ q rest' => rw [unplaced, unplaced, ih rest']

namespace Parser

variable {σ α β : Type}

def unplacedAnswer : Except SyntaxError (α × Stream) → Except SyntaxError (α × Stream)
  | .ok (a, S) => .ok (a, S.unplaced)
  | .error e => .error ⟨e.fault, .start⟩

/-- Without positions, `p'` answers what `p` answers with them. -/
def Unplaces (p p' : Parser α) : Prop := ∀ S : Stream, p' S.unplaced = unplacedAnswer (p S)

/-- A parser that does not see positions. -/
def Blind (p : Parser α) : Prop := Unplaces p p

namespace Unplaces

theorem pure (a : α) : Unplaces (pure a) (pure a) := fun _ => rfl

theorem exhausted : Unplaces (exhausted : Parser α) exhausted := fun _ => rfl

theorem refuse (w : Wanted) : Unplaces (refuse w : Parser α) (refuse w) := fun S => by
  cases S <;> rfl

theorem fault (f : SyntaxFault) (p : Position) :
    Unplaces (fault f p : Parser α) (Parser.fault f .start) := fun _ => rfl

theorem lookKind : Unplaces lookKind lookKind := fun S => by cases S <;> rfl

theorem advance : Unplaces advance advance := fun S => by cases S <;> rfl

theorem atFunction : Unplaces atFunction atFunction := by
  intro S
  cases S with
  | finish p => rfl
  | invalid e => rfl
  | token t rest =>
    obtain ⟨k, p⟩ := t
    rw [Stream.unplaced, atFunction_token, atFunction_token, rest.front?_unplaced]
    rfl

theorem bind {p p' : Parser α} {f f' : α → Parser β} (hp : Unplaces p p')
    (hf : ∀ a, Unplaces (f a) (f' a)) : Unplaces (p >>= f) (p' >>= f') := by
  intro S
  cases h : p S with
  | error e =>
    have h' : p' S.unplaced = .error ⟨e.fault, .start⟩ := by rw [hp, h]; rfl
    rw [bind_of_error h, bind_of_error h']
    rfl
  | ok x =>
    have h' : p' S.unplaced = .ok (x.1, x.2.unplaced) := by rw [hp, h]; rfl
    rw [bind_of_ok (a := x.1) h, bind_of_ok h']
    exact hf x.1 x.2

/-- Behind a look at a token, its position may be used. -/
theorem look {f f' : Option Token → Parser α} (hfinish : Unplaces (f none) (f' none))
    (htoken : ∀ k p, Unplaces (f (some ⟨k, p⟩)) (f' (some ⟨k, .start⟩))) :
    Unplaces (look >>= f) (Parser.look >>= f') := by
  intro S
  cases S with
  | token t rest => exact htoken t.kind t.position (.token t rest)
  | finish p => exact hfinish (.finish p)
  | invalid e => rfl

end Unplaces

theorem expect_of_ne {m : Mark} {k : Token.Kind} (hk : k ≠ .mark m) (p : Position) (S : Stream) :
    expect m (.token ⟨k, p⟩ S) = .error ⟨.mismatch (.token (.mark m)) k, p⟩ := by
  unfold expect
  rw [bind_of_ok (look_token k p S)]
  cases k with
  | mark m' =>
    have hm : (m' == m) = false := beq_eq_false_iff_ne.mpr fun h => hk (congrArg _ h)
    simp only [hm, Bool.false_eq_true, if_false]
    rfl
  | _ => rfl

namespace Unplaces

/-- Behind a mark, its position may be used. -/
theorem expect {m : Mark} {f f' : Position → Parser α}
    (hf : ∀ p, Unplaces (f p) (f' .start)) : Unplaces (expect m >>= f) (Parser.expect m >>= f') := by
  intro S
  cases S with
  | finish p => rfl
  | invalid e => rfl
  | token t rest =>
    obtain ⟨k, p⟩ := t
    rw [Stream.unplaced]
    by_cases hk : k = .mark m
    · subst hk
      rw [bind_of_ok (expect_mark p rest m), bind_of_ok (expect_mark .start rest.unplaced m)]
      exact hf p rest
    · rw [bind_of_error (expect_of_ne hk p rest),
        bind_of_error (expect_of_ne hk .start rest.unplaced)]
      rfl

theorem rounds {round round' : σ → Parser (Round σ α)} (h : ∀ s, Unplaces (round s) (round' s))
    (b : Nat) (s : σ) : Unplaces (rounds round b s) (Parser.rounds round' b s) := by
  induction b generalizing s with
  | zero => exact exhausted
  | succ b ih =>
    refine (h s).bind fun x => ?_
    cases x with
    | stop a => exact pure a
    | again s f => exact (ih s).bind fun _ => pure _

end Unplaces

structure Blinds (r : Sorts) : Prop where
  expression : ∀ records, Blind (r.expression records)
  statement : Blind r.statement
  limit : r.limit = none

/-- What follows any positions that are seen is what follows the start. -/
theorem Composed.unplaces {r : Sorts} (hr : Blinds r) {seen : Sightings}
    {p p' : Parser α} (h : Composed r r seen p p') (hseen : ∀ q ∈ seen, q.2 = .start) :
    Unplaces p p' := by
  induction h with
  | pure a => exact .pure a
  | bind _ _ ihp ihf => exact (ihp hseen).bind fun a => ihf a hseen
  | refuse w => exact .refuse w
  | lookKind => exact .lookKind
  | advance => exact .advance
  | atFunction => exact .atFunction
  | look _ _ ihfinish ihtoken =>
    exact .look (ihfinish hseen) fun k p =>
      ihtoken k p .start (List.forall_mem_cons.mpr ⟨rfl, hseen⟩)
  | expect _ ih => exact .expect fun p => ih p .start (List.forall_mem_cons.mpr ⟨rfl, hseen⟩)
  | @fault _ _ f q q' hq _ =>
    obtain rfl : q' = .start := hseen _ hq
    exact .fault f q
  | checkLength _ _ =>
    simp only [Parser.checkLength, hr.limit]
    exact .pure ()
  | expression records => exact hr.expression records
  | statement => exact hr.statement
  | @rounds _ _ _ _ _ b b' _ hb s ih =>
    obtain rfl : b = b' := hb.elim id fun h => h.1.trans h.2.symm
    exact .rounds (fun s => ih s hseen) b s

theorem Blinds.blind {r : Sorts} (hr : Blinds r) {p : Parser α} (h : Composed r r [] p p) :
    Blind p := h.unplaces hr (List.forall_mem_nil _)

theorem blinds_sorts (b n : Nat) : Blinds ⟨expression none b, statement none b, none, n⟩ :=
  sorts_induction (fun _ => ⟨fun _ => Unplaces.exhausted, Unplaces.exhausted, rfl⟩)
    (fun _ _ hr =>
      ⟨fun records => hr.blind (.assignment records), hr.blind .statementOf, rfl⟩) b n

/-- Without positions the program is the same, and so is the fault. -/
theorem parseStream_unplaced (S : Stream) :
    (parseStream none S.unplaced).mapError SyntaxError.fault =
      (parseStream none S).mapError SyntaxError.fault := by
  have hbound : enough S.unplaced = enough S := by rw [enough, S.length_unplaced, enough]
  have hblind := (blinds_sorts (enough S) (enough S)).blind (.program (.same (enough S))) S
  rw [parseStream, hbound, hblind, parseStream]
  cases program ⟨expression none (enough S), statement none (enough S), none, enough S⟩
    (enough S) S <;> rfl

end Parser

/-- Blanks and comments in front of a token, or at the end of the text, change neither the tokens
nor the program nor the fault. -/
theorem parse_layout {s₁ s₂ g : String} {ts : List Token} {q : Position}
    (h : (Stream.ofText (s₁ ++ s₂)).tokens = .ok (ts, q))
    (hplace : .behind s₁.toList ∈ ts.map Token.position ++ [q]) (hg : Lexer.Layout g.toList) :
    (∃ ts' q', (Stream.ofText (s₁ ++ g ++ s₂)).tokens = .ok (ts', q') ∧
        ts'.map Token.kind = ts.map Token.kind) ∧
      (parse none (s₁ ++ g ++ s₂)).mapError SyntaxError.fault =
        (parse none (s₁ ++ s₂)).mapError SyntaxError.fault := by
  have hspells := Stream.spells_layout h hplace hg
  have hbefore : Stream.Spells (ts.map Token.kind) (Stream.ofText (s₁ ++ s₂)) :=
    Stream.spells_iff.mpr ⟨ts, q, h, rfl⟩
  refine ⟨Stream.spells_iff.mp hspells, ?_⟩
  rw [parse, parse, ← Parser.parseStream_unplaced, hspells.unplaced_eq hbefore,
    Parser.parseStream_unplaced]

theorem parse_layout_range :
    (∃ ts' q', (Stream.ofText ("for i in 1" ++ " # note\n\t" ++ "..2 {}")).tokens =
        .ok (ts', q') ∧
        ts'.map Token.kind =
          (Stream.ofText ("for i in 1" ++ "..2 {}")).lexed.map Token.kind) ∧
      (parse none ("for i in 1" ++ " # note\n\t" ++ "..2 {}")).mapError SyntaxError.fault =
        (parse none ("for i in 1" ++ "..2 {}")).mapError SyntaxError.fault := by
  have hstop : (Stream.ofText ("for i in 1" ++ "..2 {}")).stop = .ok ⟨1, 17⟩ := by
    decide
  have hlayout : Lexer.Layout (' ' :: '#' :: (" note".toList ++ '\n' :: ['\t'])) :=
    .blank (by decide) (.comment (by decide) (.blank (by decide) .nil))
  exact parse_layout (Stream.tokens_eq_ok_iff.mpr ⟨rfl, hstop⟩) (by decide) hlayout

end Scripting
