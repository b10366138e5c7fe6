import Scripting.Proofs.Parser.Image
import Scripting.Proofs.Parser.Progress
import Scripting.Proofs.Parser.Rounds
import Scripting.Proofs.Parser.Separation

/-!
Parsers on a stream that is cut off. As long as there are tokens, a parser does the same on the cut
stream as on the whole one. When it comes to the end of the cut stream it may succeed with something
else, or it asks for more; where the whole stream is accepted, it reports nothing else.
-/

namespace Scripting

/-- The first stream is the second one, cut off behind some of its tokens. -/
inductive Stream.Cut : Stream → Stream → Prop
  | finish (p : Position) (S : Stream) : Cut (.finish p) S
  | token (t : Token) {S₁ S : Stream} (rest : Cut S₁ S) : Cut (.token t S₁) (.token t S)

theorem Stream.Cut.length_le {S₁ S : Stream} (h : S₁.Cut S) : S₁.length ≤ S.length := by
  induction h with
  | finish p S => exact Nat.zero_le _
  | token t _ ih => exact Nat.succ_le_succ ih

theorem Stream.tokens_token_eq_ok {t : Token} {rest : Stream} {ts : List Token} {e : Position}
    (h : (Stream.token t rest).tokens = .ok (ts, e)) :
    ∃ ts', rest.tokens = .ok (ts', e) ∧ ts = t :: ts' := by
  rw [Stream.tokens] at h
  cases hrest : rest.tokens with
  | error e =>
    rw [hrest] at h
    cases h
  | ok x =>
    rw [hrest] at h
    cases h
    exact ⟨x.1, rfl, rfl⟩

namespace Parser

variable {σ α β : Type}

/-- An outcome that is an error at the end of the input. The bound of the cut stream is smaller, so
that running out of steps has to be ruled out apart. -/
def Unfinished (x : Except SyntaxError (α × Stream)) : Prop :=
  ∃ e, x = .error e ∧ (e.fault.kind = .unexpectedEnd ∨ e.fault = .outOfSteps)

/-- An outcome that is a success at the end of the input. -/
def AtEnd (x : Except SyntaxError (α × Stream)) : Prop := ∃ a p, x = .ok (a, .finish p)

def Coincides (x₁ : Except SyntaxError (α × Stream)) (x : α × Stream) : Prop :=
  ∃ R, x₁ = .ok (x.1, R) ∧ R.Cut x.2

/-- Where the whole stream is accepted, the outcome on the cut one is the same, or it is one at the
end of the input. -/
def Follows (p₁ p : Parser α) : Prop :=
  ∀ S₁ S x, S₁.Cut S → p S = .ok x →
    Coincides (p₁ S₁) x ∨ AtEnd (p₁ S₁) ∨ Unfinished (p₁ S₁)

/-- A parser of the cut stream that follows the one of the whole stream and does not go wrong at the
end of the input. -/
structure Viable (p₁ p : Parser α) : Prop where
  atFinish : ∀ q, AtEnd (p₁ (.finish q)) ∨ Unfinished (p₁ (.finish q))
  follows : Follows p₁ p

/-- A parser that needs a token at its end, and so does the same as on the whole stream when it
succeeds. -/
structure Firm (p₁ p : Parser α) : Prop where
  atFinish : ∀ q, Unfinished (p₁ (.finish q))
  follows : ∀ S₁ S x, S₁.Cut S → p S = .ok x → Coincides (p₁ S₁) x ∨ Unfinished (p₁ S₁)

theorem Firm.viable {p₁ p : Parser α} (h : Firm p₁ p) : Viable p₁ p where
  atFinish q := .inr (h.atFinish q)
  follows S₁ S x hS hx := (h.follows S₁ S x hS hx).imp_right .inr

theorem Unfinished.bind {p : Parser α} {f : α → Parser β} {S : Stream} (h : Unfinished (p S)) :
    Unfinished ((p >>= f) S) := by
  obtain ⟨e, he, hkind⟩ := h
  exact ⟨e, bind_of_error he, hkind⟩

theorem AtEnd.bind {p : Parser α} {f : α → Parser β} {S : Stream} (h : AtEnd (p S))
    (hf : ∀ a q, AtEnd (f a (.finish q)) ∨ Unfinished (f a (.finish q))) :
    AtEnd ((p >>= f) S) ∨ Unfinished ((p >>= f) S) := by
  obtain ⟨a, q, ha⟩ := h
  rw [bind_of_ok ha]
  exact hf a q

theorem Viable.bind {p₁ p : Parser α} {f₁ f : α → Parser β} (hp : Viable p₁ p)
    (hf : ∀ a, Viable (f₁ a) (f a)) : Viable (p₁ >>= f₁) (p >>= f) where
  atFinish q := by
    rcases hp.atFinish q with h | h
    · exact h.bind fun a q => (hf a).atFinish q
    · exact .inr h.bind
  follows S₁ S x hS hx := by
    obtain ⟨a, R, ha, hx⟩ := bind_eq_ok hx
    rcases hp.follows S₁ S (a, R) hS ha with ⟨R₁, h₁, hR⟩ | h | h
    · rw [bind_of_ok h₁]
      exact (hf a).follows R₁ R x hR hx
    · exact .inr (h.bind fun a q => (hf a).atFinish q)
    · exact .inr (.inr h.bind)

/-- Behind a firm parser the answers agree, so that the rest has to follow only for this answer. -/
theorem Firm.bind {p₁ p : Parser α} {f₁ f : α → Parser β} (hp : Firm p₁ p)
    (hf : ∀ a, Follows (f₁ a) (f a)) : Viable (p₁ >>= f₁) (p >>= f) where
  atFinish q := .inr (hp.atFinish q).bind
  follows S₁ S x hS hx := by
    obtain ⟨a, R, ha, hx⟩ := bind_eq_ok hx
    rcases hp.follows S₁ S (a, R) hS ha with ⟨R₁, h₁, hR⟩ | h
    · rw [bind_of_ok h₁]
      exact hf a R₁ R x hR hx
    · exact .inr (.inr h.bind)

/-- A firm parser at the end makes the whole firm. -/
theorem Viable.bind_firm {p₁ p : Parser α} {f₁ f : α → Parser β} (hp : Viable p₁ p)
    (hf : ∀ a, Firm (f₁ a) (f a)) : Firm (p₁ >>= f₁) (p >>= f) where
  atFinish q := by
    rcases hp.atFinish q with ⟨a, q', h⟩ | h
    · rw [bind_of_ok h]
      exact (hf a).atFinish q'
    · exact h.bind
  follows S₁ S x hS hx := by
    obtain ⟨a, R, ha, hx⟩ := bind_eq_ok hx
    rcases hp.follows S₁ S (a, R) hS ha with ⟨R₁, h₁, hR⟩ | ⟨a', q, h⟩ | h
    · rw [bind_of_ok h₁]
      exact (hf a).follows R₁ R x hR hx
    · rw [bind_of_ok h]
      exact .inr ((hf a').atFinish q)
    · exact .inr h.bind

theorem Firm.bind_pure {p₁ p : Parser α} (hp : Firm p₁ p) (f : α → β) :
    Firm (p₁ >>= fun a => pure (f a)) (p >>= fun a => pure (f a)) where
  atFinish q := (hp.atFinish q).bind
  follows S₁ S x hS hx := by
    obtain ⟨a, R, ha, hx⟩ := bind_eq_ok hx
    cases hx
    rcases hp.follows S₁ S (a, R) hS ha with ⟨R₁, h₁, hR⟩ | h
    · exact .inl ⟨R₁, by rw [bind_of_ok h₁]; rfl, hR⟩
    · exact .inr h.bind

theorem Viable.pure (a : α) : Viable (pure a) (pure a) where
  atFinish q := .inl ⟨a, q, rfl⟩
  follows S₁ S x hS hx := by
    cases hx
    exact .inl ⟨S₁, rfl, hS⟩

theorem Viable.exhausted (p : Parser α) : Viable exhausted p where
  atFinish _ := .inr ⟨_, rfl, .inr rfl⟩
  follows _ _ _ _ _ := .inr (.inr ⟨_, rfl, .inr rfl⟩)

/-- A parser that never succeeds is followed by every one that does not go wrong at the end. -/
theorem Firm.refuse (w : Wanted) : Firm (refuse w : Parser α) (refuse w) where
  atFinish _ := ⟨_, rfl, .inl rfl⟩
  follows _ _ _ _ h := absurd h refuse_ne_ok

theorem Viable.ite {c : Bool} {p₁ p q₁ q : Parser α} (hp : Viable p₁ p) (hq : Viable q₁ q) :
    Viable (if c then p₁ else q₁) (if c then p else q) := by
  cases c
  · exact hq
  · exact hp

/-- Rounds of the cut stream follow those of the whole one, of which there may be more. -/
theorem Viable.rounds {round₁ round : σ → Parser (Round σ α)}
    (h : ∀ s, Viable (round₁ s) (round s)) {b₁ b : Nat} (hb : b₁ ≤ b) (s : σ) :
    Viable (rounds round₁ b₁ s) (rounds round b s) := by
  induction b₁ generalizing b s with
  | zero => exact .exhausted _
  | succ b₁ ih =>
    obtain ⟨b, rfl⟩ : ∃ c, b = c + 1 := ⟨b - 1, by omega⟩
    refine (h s).bind fun x => ?_
    cases x with
    | stop a => exact .pure a
    | again s f => exact (ih (by omega) s).bind fun _ => .pure _

/-- At the end of the cut stream there is nothing to look at; before it both streams have the same
token. -/
theorem Viable.look_bind {f₁ f : Option Token → Parser α}
    (hfinish : ∀ q, AtEnd (f₁ none (.finish q)) ∨ Unfinished (f₁ none (.finish q)))
    (htoken : ∀ t, Follows (f₁ (some t)) (f (some t))) : Viable (look >>= f₁) (look >>= f) where
  atFinish q := hfinish q
  follows S₁ S x hS hx := by
    cases hS with
    | finish p S => exact .inr (hfinish p)
    | token t rest => exact htoken t _ _ x (.token t rest) hx

theorem Viable.lookKind_bind {f₁ f : Option Token.Kind → Parser α}
    (hfinish : ∀ q, AtEnd (f₁ none (.finish q)) ∨ Unfinished (f₁ none (.finish q)))
    (htoken : ∀ k, Follows (f₁ (some k)) (f (some k))) :
    Viable (lookKind >>= f₁) (lookKind >>= f) where
  atFinish q := hfinish q
  follows S₁ S x hS hx := by
    cases hS with
    | finish p S => exact .inr (hfinish p)
    | token t rest => exact htoken t.kind _ _ x (.token t rest) hx

theorem Viable.advance : Viable advance advance where
  atFinish q := .inl ⟨(), q, rfl⟩
  follows S₁ S x hS hx := by
    cases hS with
    | finish p S => exact .inr (.inl ⟨(), p, rfl⟩)
    | token t rest =>
      cases hx
      exact .inl ⟨_, rfl, rest⟩

theorem Viable.atMark (m : Mark) : Viable (atMark m) (atMark m) := by
  refine Viable.lookKind_bind (fun q => .inl ⟨_, q, rfl⟩) fun k => Viable.follows ?_
  split <;> exact .pure _

theorem Viable.atKeyword (w : Keyword) : Viable (atKeyword w) (atKeyword w) := by
  refine Viable.lookKind_bind (fun q => .inl ⟨_, q, rfl⟩) fun k => Viable.follows ?_
  split <;> exact .pure _

theorem Viable.accept (m : Mark) : Viable (accept m) (accept m) :=
  (Viable.atMark m).bind fun _ => .ite (Viable.advance.bind fun _ => .pure _) (.pure _)

theorem Viable.acceptKeyword (w : Keyword) : Viable (acceptKeyword w) (acceptKeyword w) :=
  (Viable.atKeyword w).bind fun _ => .ite (Viable.advance.bind fun _ => .pure _) (.pure _)

/-- A parser that takes exactly one token. -/
theorem Firm.of_token {p : Parser α} (hfinish : ∀ q, Unfinished (p (.finish q)))
    (htoken : ∀ t S x, p (.token t S) = .ok x → x.2 = S ∧ ∀ S', p (.token t S') = .ok (x.1, S')) :
    Firm p p where
  atFinish := hfinish
  follows S₁ S x hS hx := by
    cases hS with
    | finish q S => exact .inr (hfinish q)
    | token t rest =>
      obtain ⟨hx₂, hsame⟩ := htoken t _ x hx
      exact .inl ⟨_, hsame _, hx₂ ▸ rest⟩

theorem Firm.expect (m : Mark) : Firm (expect m) (expect m) := by
  refine Firm.of_token (fun _ => ⟨_, rfl, .inl rfl⟩) fun t S x hx => ?_
  cases expect_eq_ok hx
  exact ⟨rfl, fun S' => expect_mark x.1 S' m⟩

theorem Firm.expectKeyword (w : Keyword) : Firm (expectKeyword w) (expectKeyword w) := by
  refine Firm.of_token (fun _ => ⟨_, rfl, .inl rfl⟩) fun t S x hx => ?_
  obtain ⟨k, q⟩ := t
  unfold Parser.expectKeyword at hx ⊢
  rw [bind_of_ok (atKeyword_token k q S w)] at hx
  cases hk : k.isKeyword w with
  | false =>
    rw [hk] at hx
    cases hx
  | true =>
    rw [hk] at hx
    cases hx
    refine ⟨rfl, fun S' => ?_⟩
    rw [bind_of_ok (atKeyword_token k q S' w), hk]
    rfl

theorem Firm.expectName (w : Wanted) : Firm (expectName w) (expectName w) := by
  refine Firm.of_token (fun _ => ⟨_, rfl, .inl rfl⟩) fun t S x hx => ?_
  obtain ⟨k, q⟩ := t
  cases k with
  | name n =>
    cases hx
    exact ⟨rfl, fun S' => rfl⟩
  | _ => cases hx

theorem Firm.expectText : Firm expectText expectText := by
  refine Firm.of_token (fun _ => ⟨_, rfl, .inl rfl⟩) fun t S x hx => ?_
  obtain ⟨k, q⟩ := t
  cases k with
  | text v =>
    cases hx
    exact ⟨rfl, fun S' => rfl⟩
  | _ => cases hx

theorem Viable.expect (m : Mark) : Viable (expect m) (expect m) := (Firm.expect m).viable

theorem Viable.expectKeyword (w : Keyword) : Viable (expectKeyword w) (expectKeyword w) :=
  (Firm.expectKeyword w).viable

theorem Viable.expectName (w : Wanted) : Viable (expectName w) (expectName w) :=
  (Firm.expectName w).viable

theorem Viable.refuse (w : Wanted) : Viable (refuse w : Parser α) (refuse w) :=
  (Firm.refuse w).viable

theorem Viable.endStatement : Viable endStatement endStatement :=
  (Viable.accept _).bind fun _ => .pure _

theorem Viable.typeNote : Viable typeNote typeNote := by
  refine (Viable.accept _).bind fun _ => .ite ?_ (.pure _)
  refine Viable.lookKind_bind (fun q => .inl ⟨_, q, rfl⟩) fun k => Viable.follows ?_
  split
  · exact Viable.advance
  · exact .pure _

theorem Viable.paramsRest {b₁ b : Nat} (hb : b₁ ≤ b) : Viable (paramsRest b₁) (paramsRest b) := by
  rw [paramsRest_eq, paramsRest_eq]
  refine .rounds (fun _ => (Viable.atMark _).bind fun _ => .ite (.pure _) ?_) hb ()
  refine (Viable.expectName _).bind fun p => (Viable.accept _).bind fun _ => .ite (.pure _) ?_
  exact (Viable.atMark _).bind fun _ => .ite (.pure _) (.refuse _)

theorem Viable.params {b₁ b : Nat} (hb : b₁ ≤ b) : Viable (params b₁) (params b) :=
  (Viable.expect _).bind fun _ => (Viable.paramsRest hb).bind fun _ =>
    (Viable.expect _).bind fun _ => .pure _

/-- The sorts of the cut stream follow those of the whole stream. A function literal that is cut off
behind its keyword is unfinished: with the name that may come it would be a named function. -/
structure Prefixed (r₁ r : Sorts) : Prop where
  expression : ∀ records, Viable (r₁.expression records) (r.expression records)
  statement : Viable r₁.statement r.statement
  limit : r₁.limit = r.limit
  bound : r₁.bound ≤ r.bound
  literal : ∀ records p q,
    Unfinished (r₁.expression records (.token ⟨.keyword .fn, p⟩ (.finish q)))

section Sorts

variable {r₁ r : Sorts} (hr : Prefixed r₁ r)
include hr

theorem Viable.statements {b₁ b : Nat} (hb : b₁ ≤ b) :
    Viable (statements r₁ b₁) (statements r b) := by
  rw [statements_eq, statements_eq]
  refine .rounds (fun _ => Viable.lookKind_bind (fun q => .inl ⟨_, q, rfl⟩) fun k =>
    Viable.follows ?_) hb ()
  split
  · contradiction
  · exact .pure _
  · exact Viable.advance.bind fun _ => .pure _
  · exact hr.statement.bind fun _ => .pure _

omit hr in
/-- The verdict on the length of a function does not depend on what follows it. -/
theorem checkLength_eq_ok {name : String} {first last : Position} {S : Stream} {x : Unit × Stream}
    (h : checkLength r name first last S = .ok x) :
    x.2 = S ∧ ∀ T, checkLength r name first last T = .ok ((), T) := by
  unfold checkLength at h ⊢
  generalize r.limit = bound at h ⊢
  cases bound with
  | none =>
    cases h
    exact ⟨rfl, fun _ => rfl⟩
  | some limit =>
    dsimp only at h ⊢
    by_cases hlimit : limit < ((last.line - first.line : Nat) : Int)
    · rw [if_pos hlimit] at h
      cases h
    · rw [if_neg hlimit] at h ⊢
      cases h
      exact ⟨rfl, fun _ => rfl⟩

theorem Firm.braced : Firm (braced r₁) (braced r) :=
  (Viable.expect _).bind_firm fun _ => (Viable.statements hr hr.bound).bind_firm fun _ =>
    (Firm.expect _).bind_pure _

theorem Viable.block : Viable (block r₁) (block r) := (Firm.braced hr).viable.bind fun _ => .pure _

/-- The lines between the braces are the same, and so is the verdict on them. -/
theorem Viable.functionBody (name : String) :
    Viable (functionBody r₁ name) (functionBody r name) := by
  refine (Firm.braced hr).bind fun x => ?_
  obtain ⟨body, first, last⟩ := x
  intro S₁ S y hS hy
  have hcheck : checkLength r₁ name first last = checkLength r name first last := by
    unfold checkLength
    rw [hr.limit]
  obtain ⟨u, R, hlength, hy⟩ := bind_eq_ok hy
  cases hy
  obtain ⟨hR, hpass⟩ := checkLength_eq_ok hlength
  refine .inl ⟨S₁, ?_, hR ▸ hS⟩
  show (checkLength r₁ name first last >>= fun _ => Pure.pure body) S₁ = _
  rw [hcheck, bind_of_ok (hpass S₁)]
  rfl

theorem Viable.expressions (c : Mark) {b₁ b : Nat} (hb : b₁ ≤ b) :
    Viable (expressions r₁ c b₁) (expressions r c b) := by
  rw [expressions_eq, expressions_eq]
  refine .rounds (fun _ => (Viable.atMark _).bind fun _ => .ite (.pure _) ?_) hb ()
  exact (hr.expression _).bind fun _ => (Viable.accept _).bind fun _ => .ite (.pure _) (.pure _)

theorem Viable.recordFields {b₁ b : Nat} (hb : b₁ ≤ b) :
    Viable (recordFields r₁ b₁) (recordFields r b) := by
  rw [recordFields_eq, recordFields_eq]
  refine .rounds (fun _ => (Viable.atMark _).bind fun _ => .ite (.pure _) ?_) hb ()
  refine (Viable.expectName _).bind fun _ => (Viable.expect _).bind fun _ => ?_
  exact (hr.expression _).bind fun _ => (Viable.accept _).bind fun _ => .ite (.pure _) (.pure _)

theorem Viable.commaExpressions {b₁ b : Nat} (hb : b₁ ≤ b) :
    Viable (commaExpressions r₁ b₁) (commaExpressions r b) := by
  rw [commaExpressions_eq, commaExpressions_eq]
  refine .rounds (fun _ => (Viable.accept _).bind fun _ => .ite ?_ (.pure _)) hb ()
  exact (hr.expression _).bind fun _ => .pure _

theorem Viable.commaPairs {b₁ b : Nat} (hb : b₁ ≤ b) :
    Viable (commaPairs r₁ b₁) (commaPairs r b) := by
  rw [commaPairs_eq, commaPairs_eq]
  refine .rounds (fun _ => (Viable.accept _).bind fun _ => .ite ?_ (.pure _)) hb ()
  refine (Viable.atMark _).bind fun _ => .ite (.pure _) ((hr.expression _).bind fun _ => ?_)
  exact (Viable.expect _).bind fun _ => (hr.expression _).bind fun _ => .pure _

theorem Viable.group : Viable (group r₁) (group r) := by
  refine (Viable.expect _).bind fun _ => (hr.expression _).bind fun _ => ?_
  refine (Viable.commaExpressions hr hr.bound).bind fun es => ?_
  split <;> exact (Viable.expect _).bind fun _ => .pure _

theorem Viable.list : Viable (list r₁) (list r) :=
  (Viable.expect _).bind fun _ => (Viable.expressions hr _ hr.bound).bind fun _ =>
    (Viable.expect _).bind fun _ => .pure _

theorem Viable.record (type : String) : Viable (record r₁ type) (record r type) :=
  (Viable.expect _).bind fun _ => (Viable.recordFields hr hr.bound).bind fun _ =>
    (Viable.expect _).bind fun _ => .pure _

omit hr in
/-- Two tokens tell a named function from a function literal. Where the stream is cut between them,
the literal is read, which is unfinished. -/
theorem Viable.lookahead {L : Parser Bool} {g : Token.Kind → Bool} {p₁ p q₁ q : Parser α}
    (hfinish : ∀ e, L (.finish e) = .ok (false, .finish e))
    (htoken : ∀ k e S, L (.token ⟨k, e⟩ S) =
      .ok (g k || (k.isKeyword .fn && S.front?.any Token.Kind.isName), .token ⟨k, e⟩ S))
    (hp : Follows p₁ p) (hq : Viable q₁ q)
    (hliteral : ∀ e e', Unfinished (q₁ (.token ⟨.keyword .fn, e⟩ (.finish e')))) :
    Viable (L >>= fun c => if c then p₁ else q₁) (L >>= fun c => if c then p else q) where
  atFinish e := by
    rw [bind_of_ok (hfinish e)]
    exact hq.atFinish e
  follows S₁ S x hS hx := by
    cases hS with
    | finish e S =>
      rw [bind_of_ok (hfinish e)]
      exact .inr (hq.atFinish e)
    | token t rest =>
      rename_i T₁ T
      obtain ⟨k, e⟩ := t
      rw [bind_of_ok (htoken k e T)] at hx
      rw [bind_of_ok (htoken k e T₁)]
      have hS := Stream.Cut.token ⟨k, e⟩ rest
      have hbranch : ∀ c : Bool, Follows (if c then p₁ else q₁) (if c then p else q) := by
        intro c
        cases c with
        | true => exact hp
        | false => exact hq.follows
      cases rest with
      | token t rest =>
        -- The two streams go on with the same token.
        exact hbranch _ _ _ x hS hx
      | finish e' T =>
        simp only [Stream.front?, Option.any_none, Bool.and_false, Bool.or_false]
        cases hg : g k with
        | true =>
          rw [hg, Bool.true_or, if_pos rfl] at hx
          exact hp _ _ x hS hx
        | false =>
          rw [if_neg Bool.false_ne_true]
          cases hfn : k.isKeyword .fn with
          | true =>
            obtain rfl := Token.Kind.isKeyword_iff.mp hfn
            exact .inr (.inr (hliteral e e'))
          | false =>
            rw [hg, hfn, Bool.false_and, Bool.false_or, if_neg Bool.false_ne_true] at hx
            exact hq.follows _ _ x hS hx

theorem Viable.brace : Viable (brace r₁) (brace r) := by
  refine (Viable.expect _).bind fun _ => (Viable.accept _).bind fun _ => .ite (.pure _) ?_
  refine Viable.lookahead (g := startsStatement) (fun _ => rfl) atStatement_token ?_ ?_ ?_
  · exact Viable.follows ((Viable.statements hr hr.bound).bind fun _ =>
      (Viable.expect _).bind fun _ => .pure _)
  · refine (hr.expression _).bind fun _ => (Viable.accept _).bind fun _ => .ite ?_ ?_
    · exact (hr.expression _).bind fun _ => (Viable.commaPairs hr hr.bound).bind fun _ =>
        (Viable.expect _).bind fun _ => .pure _
    · exact Viable.endStatement.bind fun _ => (Viable.statements hr hr.bound).bind fun _ =>
        (Viable.expect _).bind fun _ => .pure _
  · exact fun e e' => (hr.literal true e e').bind

theorem Viable.lambda : Viable (lambda r₁) (lambda r) := by
  refine (Viable.expectKeyword _).bind fun _ => (Viable.params hr.bound).bind fun _ => ?_
  refine Viable.typeNote.bind fun _ => (Viable.atMark _).bind fun _ => .ite ?_ ?_
  · exact (Viable.functionBody hr _).bind fun _ => .pure _
  · exact hr.statement.bind fun _ => .pure _

theorem Viable.primary (records : Bool) : Viable (primary r₁ records) (primary r records) := by
  have hone : ∀ e : Expr, Viable (Parser.advance >>= fun _ => Pure.pure e)
      (Parser.advance >>= fun _ => Pure.pure e) := fun e => Viable.advance.bind fun _ => .pure e
  refine Viable.lookKind_bind (fun q => (Viable.refuse _).atFinish q) fun k => Viable.follows ?_
  split
  · exact hone _
  · exact hone _
  · exact hone _
  · exact hone _
  · refine Viable.advance.bind fun _ => .ite ?_ (.pure _)
    exact (Viable.atMark _).bind fun _ => .ite (Viable.record hr _) (.pure _)
  · exact Viable.group hr
  · exact Viable.list hr
  · exact Viable.brace hr
  · exact Viable.lambda hr
  · exact .refuse _

theorem Viable.trailers {b₁ b : Nat} (hb : b₁ ≤ b) (e : Expr) :
    Viable (trailers r₁ b₁ e) (trailers r b e) := by
  rw [trailers_eq, trailers_eq]
  refine .rounds (fun e => Viable.lookKind_bind (fun q => .inl ⟨_, q, rfl⟩) fun k =>
    Viable.follows ?_) hb e
  split
  · exact Viable.advance.bind fun _ => (Viable.expressions hr _ hr.bound).bind fun _ =>
      (Viable.expect _).bind fun _ => .pure _
  · exact Viable.advance.bind fun _ => (Viable.expectName _).bind fun _ => .pure _
  · exact Viable.advance.bind fun _ => (hr.expression _).bind fun _ =>
      (Viable.expect _).bind fun _ => .pure _
  · exact .pure _

theorem Viable.signed (records : Bool) {b₁ b : Nat} (hb : b₁ ≤ b) :
    Viable (signed r₁ records b₁) (signed r records b) := by
  rw [signed_eq, signed_eq]
  refine .rounds (fun _ => (Viable.accept _).bind fun _ => .ite (.pure _) ?_) hb ()
  refine (Viable.accept _).bind fun _ => .ite (.pure _) (Viable.bind ?_ fun _ => .pure _)
  exact (Viable.primary hr records).bind fun _ => Viable.trailers hr hr.bound _

theorem Viable.power (records : Bool) {b₁ b : Nat} (hb : b₁ ≤ b) :
    Viable (power r₁ records b₁) (power r records b) := by
  rw [power_eq, power_eq]
  refine .rounds (fun _ => (Viable.signed hr records hr.bound).bind fun _ => ?_) hb ()
  exact (Viable.accept _).bind fun _ => .ite (.pure _) (.pure _)

theorem Viable.level {op? : Mark → Option BinaryOp} {operand₁ operand : Parser Expr}
    (ho : Viable operand₁ operand) : Viable (level r₁ op? operand₁) (level r op? operand) := by
  refine ho.bind fun e => ?_
  rw [chain_eq, chain_eq]
  refine .rounds (fun e => Viable.lookKind_bind (fun q => .inl ⟨_, q, rfl⟩) fun k =>
    Viable.follows ?_) hr.bound e
  split
  · split
    · exact Viable.advance.bind fun _ => ho.bind fun _ => .pure _
    · exact .pure _
  · exact .pure _

theorem Viable.disjunction (records : Bool) :
    Viable (disjunction r₁ records) (disjunction r records) := by
  have hproduct : Viable (product r₁ records) (product r records) :=
    Viable.level hr (Viable.power hr records hr.bound)
  have hequality : Viable (equality r₁ records) (equality r records) :=
    Viable.level hr (Viable.level hr (Viable.level hr hproduct))
  exact Viable.level hr (Viable.level hr hequality)

/-- What is assigned to is known when the value is read, as a token comes between. -/
theorem Viable.assignment (records : Bool) :
    Viable (assignment r₁ records) (assignment r records) := by
  refine (Viable.disjunction hr records).bind fun target => ?_
  refine Viable.look_bind (fun q => .inl ⟨_, q, rfl⟩) fun t => ?_
  split
  · cases target with
    | name n =>
      exact Viable.follows (Viable.advance.bind fun _ => (hr.expression _).bind fun _ => .pure _)
    | _ =>
      intro S₁ S x hS hx
      obtain ⟨u, R, -, hx⟩ := bind_eq_ok hx
      obtain ⟨v, R', -, hx⟩ := bind_eq_ok hx
      cases hx
  · exact Viable.follows (.pure _)

omit hr in
/-- Behind a last `fn` a name may come, so that the input is unfinished. -/
theorem unfinished_literal (r : Sorts) (records : Bool) (p q : Position) :
    Unfinished (assignment r records (.token ⟨.keyword .fn, p⟩ (.finish q))) := by
  have hprimary : Unfinished (primary r records (.token ⟨.keyword .fn, p⟩ (.finish q))) :=
    ⟨_, rfl, .inl rfl⟩
  have hsigned : ∀ b, Unfinished (signed r records b (.token ⟨.keyword .fn, p⟩ (.finish q))) := by
    intro b
    cases b with
    | zero => exact ⟨_, rfl, .inr rfl⟩
    | succ b => exact hprimary.bind (f := fun e => trailers r r.bound e)
  have hpower : ∀ b, Unfinished (power r records b (.token ⟨.keyword .fn, p⟩ (.finish q))) := by
    intro b
    cases b with
    | zero => exact ⟨_, rfl, .inr rfl⟩
    | succ b => exact (hsigned r.bound).bind
  have hproduct : Unfinished (product r records (.token ⟨.keyword .fn, p⟩ (.finish q))) :=
    (hpower r.bound).bind
  have hequality : Unfinished (equality r records (.token ⟨.keyword .fn, p⟩ (.finish q))) :=
    hproduct.bind.bind.bind
  exact hequality.bind.bind.bind

theorem Viable.binding (w : Wanted) : Viable (binding r₁ w) (binding r w) :=
  (Viable.expectName _).bind fun _ => Viable.typeNote.bind fun _ => (Viable.expect _).bind fun _ =>
    (hr.expression _).bind fun _ => Viable.endStatement.bind fun _ => .pure _

theorem Viable.function : Viable (function r₁) (function r) :=
  (Viable.expectKeyword _).bind fun _ => (Viable.expectName _).bind fun _ =>
    (Viable.params hr.bound).bind fun _ => Viable.typeNote.bind fun _ =>
      (Viable.functionBody hr _).bind fun _ => .pure _

theorem Viable.returned : Viable (returned r₁) (returned r) := by
  have hend : ∀ v, Viable (Parser.endStatement >>= fun _ => Pure.pure (Stmt.return_ v))
      (Parser.endStatement >>= fun _ => Pure.pure (Stmt.return_ v)) :=
    fun v => Viable.endStatement.bind fun _ => .pure _
  refine Viable.lookKind_bind (fun q => (hend none).atFinish q) fun k => Viable.follows ?_
  split
  · contradiction
  · exact hend none
  · exact hend none
  · rw [map_eq_pure_bind, map_eq_pure_bind]
    exact ((hr.expression _).bind fun _ => .pure _).bind hend

theorem Viable.conditional : Viable (conditional r₁) (conditional r) := by
  refine (hr.expression _).bind fun _ => (Viable.block hr).bind fun _ => ?_
  refine (Viable.acceptKeyword _).bind fun _ => .ite ?_ (.pure _)
  refine (Viable.atKeyword _).bind fun _ => .ite ?_ ?_
  · exact hr.statement.bind fun _ => .pure _
  · exact (Viable.block hr).bind fun _ => .pure _

theorem Viable.whileLoop : Viable (whileLoop r₁) (whileLoop r) :=
  (hr.expression _).bind fun _ => (Viable.block hr).bind fun _ => .pure _

theorem Viable.forLoop : Viable (forLoop r₁) (forLoop r) :=
  (Viable.expectName _).bind fun _ => (Viable.expectKeyword _).bind fun _ =>
    (hr.expression _).bind fun _ => (Viable.expect _).bind fun _ =>
      (hr.expression _).bind fun _ => (Viable.block hr).bind fun _ => .pure _

theorem Viable.printed : Viable (printed r₁) (printed r) :=
  (hr.expression _).bind fun _ => (Viable.commaExpressions hr hr.bound).bind fun _ =>
    Viable.endStatement.bind fun _ => .pure _

theorem Viable.typeMembers (type : String) {b₁ b : Nat} (hb : b₁ ≤ b) :
    Viable (typeMembers r₁ type b₁) (typeMembers r type b) := by
  rw [typeMembers_eq, typeMembers_eq]
  refine .rounds (fun _ => Viable.lookKind_bind (fun q => (Viable.refuse _).atFinish q) fun k =>
    Viable.follows ?_) hb ()
  split
  · exact .pure _
  · exact Viable.advance.bind fun _ => .pure _
  · exact Viable.advance.bind fun _ => .pure _
  · exact (Viable.function hr).bind fun _ => .pure _
  · exact Viable.advance.bind fun _ => (Viable.expect _).bind fun _ =>
      (hr.expression _).bind fun _ => .pure _
  · exact .refuse _

theorem Viable.typeDeclaration : Viable (typeDeclaration r₁) (typeDeclaration r) :=
  (Viable.expectName _).bind fun _ => (Viable.expect _).bind fun _ =>
    (Viable.typeMembers hr _ hr.bound).bind fun _ => (Viable.expect _).bind fun _ => .pure _

theorem Viable.keywordStatement (w : Keyword) :
    (keywordStatement? r₁ w = none ∧ keywordStatement? r w = none) ∨
      ∃ p₁ p, keywordStatement? r₁ w = some p₁ ∧ keywordStatement? r w = some p ∧ Viable p₁ p := by
  have hend : ∀ s : Stmt, Viable (Parser.endStatement >>= fun _ => Pure.pure s)
      (Parser.endStatement >>= fun _ => Pure.pure s) :=
    fun s => Viable.endStatement.bind fun _ => .pure s
  cases w with
  | let_ => exact .inr ⟨_, _, rfl, rfl, (Viable.binding hr _).bind fun _ => .pure _⟩
  | const => exact .inr ⟨_, _, rfl, rfl, (Viable.binding hr _).bind fun _ => .pure _⟩
  | return_ => exact .inr ⟨_, _, rfl, rfl, Viable.returned hr⟩
  | if_ => exact .inr ⟨_, _, rfl, rfl, Viable.conditional hr⟩
  | while_ => exact .inr ⟨_, _, rfl, rfl, Viable.whileLoop hr⟩
  | for_ => exact .inr ⟨_, _, rfl, rfl, Viable.forLoop hr⟩
  | import_ => exact .inr ⟨_, _, rfl, rfl, Firm.expectText.viable.bind fun _ => hend _⟩
  | break_ => exact .inr ⟨_, _, rfl, rfl, hend _⟩
  | continue_ => exact .inr ⟨_, _, rfl, rfl, hend _⟩
  | print => exact .inr ⟨_, _, rfl, rfl, Viable.printed hr⟩
  | type => exact .inr ⟨_, _, rfl, rfl, Viable.typeDeclaration hr⟩
  | _ => exact .inl ⟨rfl, rfl⟩

/-- A statement on a stream that is cut off goes on like the whole one, or is unfinished. -/
theorem Viable.statementOf : Viable (statementOf r₁) (statementOf r) := by
  have hexpr : Viable (expressionStatement r₁) (expressionStatement r) :=
    (hr.expression _).bind fun _ => Viable.endStatement.bind fun _ => .pure _
  refine Viable.look_bind (fun q => hexpr.atFinish q) fun t => ?_
  split
  · rename_i w e _
    rcases Viable.keywordStatement hr w with ⟨h₁, h⟩ | ⟨p₁, p, h₁, h, hp⟩
    · simp only [h₁, h]
      split
      · intro S₁ S x hS hx
        cases hx
      · refine Viable.follows (Viable.lookahead (g := fun _ => false) (fun _ => rfl) ?_ ?_ hexpr ?_)
        · intro k e S
          rw [Bool.false_or, atFunction_token]
        · exact (Viable.function hr).follows
        · exact fun e e' => (hr.literal true e e').bind
    · simp only [h₁, h]
      exact Viable.follows (Viable.advance.bind fun _ => hp)
  · exact Viable.follows ((Viable.block hr).bind fun _ => .pure _)
  · exact hexpr.follows

end Sorts

/-- Both sorts at once, by induction on the smaller depth. -/
theorem prefixed_sorts (limit : Option Int) {b₁ b : Nat} (hb : b₁ ≤ b) :
    Prefixed ⟨expression limit b₁, statement limit b₁, limit, b₁⟩
      ⟨expression limit b, statement limit b, limit, b⟩ := by
  induction b₁ generalizing b with
  | zero =>
    refine ⟨fun records => ?_, ?_, rfl, hb, fun records p q => ?_⟩
    · simp only [expression]
      exact .exhausted _
    · simp only [statement]
      exact .exhausted _
    · exact ⟨_, rfl, .inr rfl⟩
  | succ b₁ ih =>
    obtain ⟨b, rfl⟩ : ∃ c, b = c + 1 := ⟨b - 1, by omega⟩
    have hr := ih (b := b) (by omega)
    refine ⟨fun records => ?_, ?_, rfl, hb, fun records p q => ?_⟩
    · simp only [expression]
      exact Viable.assignment hr records
    · simp only [statement]
      exact Viable.statementOf hr
    · simp only [expression]
      exact unfinished_literal _ records p q

theorem Viable.program {r₁ r : Sorts} (hr : Prefixed r₁ r) {b₁ b : Nat} (hb : b₁ ≤ b) :
    Viable (program r₁ b₁) (program r b) := by
  rw [program_eq, program_eq]
  refine .rounds (fun _ => Viable.lookKind_bind (fun q => .inl ⟨_, q, rfl⟩) fun k =>
    Viable.follows ?_) hb ()
  split
  · contradiction
  · exact Viable.advance.bind fun _ => .pure _
  · exact hr.statement.bind fun _ => .pure _

/-- Where the whole stream is accepted, a stream that is cut off is accepted or unfinished. -/
theorem parseStream_cut {limit : Option Int} {S₁ S : Stream} (hS : S₁.Cut S) {p : Program}
    (h : parseStream limit S = .ok p) :
    (∃ p₁, parseStream limit S₁ = .ok p₁) ∨
      ∃ e, parseStream limit S₁ = .error e ∧ e.fault.kind = .unexpectedEnd := by
  have hbound : enough S₁ ≤ enough S := by
    have hlength := hS.length_le
    unfold enough
    omega
  obtain ⟨R, hR⟩ := program_of_parseStream h
  have hviable := Viable.program (prefixed_sorts limit hbound) hbound
  have hsafe := parseStream_ne_outOfSteps limit S₁
  unfold parseStream at hsafe ⊢
  dsimp only at hsafe ⊢
  rcases hviable.follows S₁ S _ hS hR with ⟨R₁, h₁, -⟩ | ⟨p₁, q, h₁⟩ | ⟨e, h₁, hkind⟩
  · exact .inl ⟨p, by rw [h₁]; rfl⟩
  · exact .inl ⟨p₁, by rw [h₁]; rfl⟩
  · rw [h₁] at hsafe ⊢
    rcases hkind with hkind | hkind
    · exact .inr ⟨e, rfl, hkind⟩
    · exact absurd hkind (hsafe e rfl)

end Parser

/-- A stream whose tokens are the first ones of another is that one, cut off. -/
theorem Stream.cut_of_tokens {S₁ S : Stream} {ts us : List Token} {e₁ e : Position}
    (h₁ : S₁.tokens = .ok (ts, e₁)) (h : S.tokens = .ok (ts ++ us, e)) : S₁.Cut S := by
  induction S₁ generalizing S ts with
  | finish p => exact .finish p S
  | invalid e => cases h₁
  | token t rest ih =>
    obtain ⟨ts', hrest, rfl⟩ := tokens_token_eq_ok h₁
    cases S with
    | token t' rest' =>
      obtain ⟨ts'', hrest', heq⟩ := tokens_token_eq_ok h
      obtain ⟨rfl, rfl⟩ := List.cons.inj heq
      exact .token t (ih hrest hrest')
    | finish p => cases h
    | invalid e => cases h

/-- A text that is cut between two tokens of a program is a program or unfinished: nothing in it
is out of place. -/
theorem parse_cut {limit : Option Int} {s s₁ : String} {p : Program} {ts us : List Token}
    {e e₁ : Position} (h : parse limit s = .ok p)
    (htokens : (Stream.ofText s).tokens = .ok (ts ++ us, e))
    (htokens₁ : (Stream.ofText s₁).tokens = .ok (ts, e₁)) :
    (∃ p₁, parse limit s₁ = .ok p₁) ∨
      ∃ err, parse limit s₁ = .error err ∧ err.fault.kind = .unexpectedEnd :=
  Parser.parseStream_cut (Stream.cut_of_tokens htokens₁ htokens) h

/-- Behind the keyword of a named function, where two tokens have to be looked at. -/
theorem parse_cut_function :
    (∃ p₁, parse (some 0) "fn" = .ok p₁) ∨
      ∃ err, parse (some 0) "fn" = .error err ∧ err.fault.kind = .unexpectedEnd := by
  have htokens : (Stream.ofText "fn f() {}").tokens =
      .ok ([⟨.keyword .fn, ⟨1, 1⟩⟩] ++ [⟨.name "f", ⟨1, 4⟩⟩, ⟨.mark .lparen, ⟨1, 5⟩⟩,
        ⟨.mark .rparen, ⟨1, 6⟩⟩, ⟨.mark .lbrace, ⟨1, 8⟩⟩, ⟨.mark .rbrace, ⟨1, 9⟩⟩], ⟨1, 10⟩) := rfl
  have hparse : (parse (some 0) "fn f() {}").isOk = true := by decide +kernel
  exact parse_cut (eq_ok_of_isOk hparse) htokens (show (Stream.ofText "fn").tokens = .ok (_, ⟨1, 3⟩) from rfl)

end Scripting
