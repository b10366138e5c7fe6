import Scripting.Proofs.Parser.Levels
import Scripting.Proofs.Parser.Progress
import Scripting.Proofs.Parser.Suffix

/-!
Every loop moves. A round after which the loop goes on has taken a token; so there is none at the end of
the input, nor in front of what is no token.
-/

namespace Scripting

/-! ### Tokens that are taken -/

/-- `R` stands behind the first token of the other stream, or further on. -/
def Stream.Behind (R : Stream) : Stream → Prop
  | token _ S => R.Suffix S
  | finish _ | invalid _ => False

namespace Stream

theorem Suffix.length_le {R S : Stream} (h : R.Suffix S) : R.length ≤ S.length := by
  induction h with
  | refl => exact Nat.le_refl _
  | token _ ih => exact Nat.le_succ_of_le ih

theorem Behind.suffix {R S : Stream} (h : R.Behind S) : R.Suffix S := by
  cases S with
  | token t S => exact .token h
  | finish p => exact h.elim
  | invalid e => exact h.elim

theorem Behind.length_lt {R S : Stream} (h : R.Behind S) : R.length < S.length := by
  cases S with
  | token t S => exact Nat.lt_succ_of_le (Suffix.length_le h)
  | finish p => exact h.elim
  | invalid e => exact h.elim

theorem Suffix.behind {R S : Stream} (h : R.Suffix S) (hlt : R.length < S.length) : R.Behind S := by
  cases h with
  | refl => exact absurd hlt (Nat.lt_irrefl _)
  | token h => exact h

theorem Suffix.trans_behind {R S U : Stream} (h : R.Suffix S) (h' : S.Behind U) : R.Behind U := by
  cases U with
  | token t U => exact h.trans h'
  | finish p => exact h'.elim
  | invalid e => exact h'.elim

theorem Behind.trans_suffix {R S U : Stream} (h : R.Behind S) (h' : S.Suffix U) : R.Behind U :=
  (h.suffix.trans h').behind (Nat.lt_of_lt_of_le h.length_lt h'.length_le)

end Stream

namespace Parser

variable {σ α β : Type}

/-- A parser that takes a token or more when it succeeds. -/
def Consumes (p : Parser α) : Prop := ∀ S x, p S = .ok x → x.2.Behind S

/-- A round that has taken a token or more when the loop goes on. -/
def Moves (p : Parser (Round σ α)) : Prop :=
  ∀ S x, p S = .ok x → x.2.Suffix S ∧ (x.1.goesOn = true → x.2.Behind S)

def MovesAt (p : Parser (Round σ α)) : Prop :=
  ∀ t S x, p (.token t S) = .ok x →
    x.2.Suffix (.token t S) ∧ (x.1.goesOn = true → x.2.Behind (.token t S))

theorem Consumes.of_safe {p : Parser α} (htakes : Takes p) (hsafe : ∀ n, Safe n 1 p) :
    Consumes p := by
  intro S x hx
  have hsound := hsafe S.length S (Nat.le_refl _)
  rw [hx] at hsound
  exact (htakes.suffix hx).behind hsound

theorem Consumes.bind {p : Parser α} {f : α → Parser β} (hp : Consumes p) (hf : ∀ a, Takes (f a)) :
    Consumes (p >>= f) := by
  intro S x hx
  obtain ⟨a, R, ha, hx⟩ := bind_eq_ok hx
  exact ((hf a).suffix hx).trans_behind (hp S _ ha)

namespace Moves

theorem stop (a : α) : Moves (pure (.stop a) : Parser (Round σ α)) := by
  intro S x hx
  cases hx
  exact ⟨.refl, nofun⟩

theorem refuse (w : Wanted) : Moves (refuse w : Parser (Round σ α)) := by
  intro S x hx
  cases S <;> cases hx

theorem ite {c : Bool} {p q : Parser (Round σ α)} (hp : Moves p) (hq : Moves q) :
    Moves (if c then p else q) := by
  cases c
  · exact hq
  · exact hp

theorem bind {p : Parser α} {f : α → Parser (Round σ β)} (hp : Takes p) (hf : ∀ a, Moves (f a)) :
    Moves (p >>= f) := by
  intro S x hx
  obtain ⟨a, R, ha, hx⟩ := bind_eq_ok hx
  obtain ⟨hsuffix, hbehind⟩ := hf a R x hx
  exact ⟨hsuffix.trans (hp.suffix ha), fun h => (hbehind h).trans_suffix (hp.suffix ha)⟩

theorem of_consumes {p : Parser (Round σ α)} (hp : Consumes p) : Moves p :=
  fun S x hx => ⟨(hp S x hx).suffix, fun _ => hp S x hx⟩

/-- Behind a mark that is taken, the loop may go on. -/
theorem accept_bind {m : Mark} {f : Bool → Parser (Round σ α)} (htrue : Takes (f true))
    (hfalse : Moves (f false)) : Moves (accept m >>= f) := by
  intro S x hx
  cases S with
  | finish p => exact hfalse _ x hx
  | invalid e => cases hx
  | token t rest =>
    obtain ⟨k, p⟩ := t
    rw [bind_of_ok (accept_token k p rest m)] at hx
    cases hm : k.isMark m with
    | false =>
      rw [hm] at hx
      exact hfalse _ x hx
    | true =>
      rw [hm] at hx
      have hsuffix := htrue.suffix hx
      exact ⟨hsuffix.token, fun _ => hsuffix⟩

/-- In front of the end the loop stops; in front of a token the round may take it. -/
theorem lookKind_bind {f : Option Token.Kind → Parser (Round σ α)} (hfinish : Moves (f none))
    (htoken : ∀ k, MovesAt (f (some k))) : Moves (lookKind >>= f) := by
  intro S x hx
  cases S with
  | token t rest => exact htoken t.kind t rest x hx
  | finish p => exact hfinish _ x hx
  | invalid e => cases hx

theorem at_token {p : Parser (Round σ α)} (hp : Moves p) : MovesAt p := fun _ _ => hp _

end Moves

theorem MovesAt.advance_bind {f : Unit → Parser (Round σ α)} (hf : Takes (f ())) :
    MovesAt (advance >>= f) := by
  intro t S x hx
  rw [bind_of_ok (advance_token t.kind t.position S)] at hx
  exact ⟨(hf.suffix hx).token, fun _ => hf.suffix hx⟩

/-! ### Every loop moves -/

/-- The loop is made of these rounds, and behind a round it goes on only if that took a token. -/
structure LoopOf (round : σ → Parser (Round σ α)) (loop : Nat → σ → Parser α) : Prop where
  eq_rounds : ∀ b s, loop b s = rounds round b s
  moves : ∀ s, Moves (round s)

structure Consuming (r : Sorts) : Prop where
  expression : ∀ records, Consumes (r.expression records)
  statement : Consumes r.statement

/-- The loops of the parser. -/
structure Loops (r : Sorts) : Prop where
  params : LoopOf (fun _ => paramRound) fun b _ => paramsRest b
  statements : LoopOf (fun _ => statementRound r) fun b _ => statements r b
  program : LoopOf (fun _ => programRound r) fun b _ => program r b
  typeMembers : ∀ type, LoopOf (fun _ => memberRound r type) fun b _ => typeMembers r type b
  expressions : ∀ closing,
    LoopOf (fun _ => expressionRound r closing) fun b _ => expressions r closing b
  recordFields : LoopOf (fun _ => fieldRound r) fun b _ => recordFields r b
  commaExpressions : LoopOf (fun _ => commaExpressionRound r) fun b _ => commaExpressions r b
  commaPairs : LoopOf (fun _ => commaPairRound r) fun b _ => commaPairs r b
  trailers : LoopOf (trailerRound r) (trailers r)
  /-- Each of the levels that group to the left. -/
  operators : ∀ records n,
    LoopOf (chainRound (levelOp? n) (onLevel r records r.bound (n + 1)))
      (chain (levelOp? n) (onLevel r records r.bound (n + 1)))
  signs : ∀ records, LoopOf (fun _ => signRound r records) fun b _ => signed r records b
  powers : ∀ records, LoopOf (fun _ => powerRound r records) fun b _ => power r records b

section Sorts

variable {r : Sorts} (ht : Taking r) (hr : Consuming r)

section Statements

include hr

theorem Moves.statementRound : Moves (statementRound r) := by
  refine Moves.lookKind_bind (.stop _) fun k => ?_
  split
  · contradiction
  · exact Moves.at_token (.stop _)
  · exact MovesAt.advance_bind (.pure _)
  · exact Moves.at_token (.of_consumes (hr.statement.bind fun _ => .pure _))

theorem Moves.programRound : Moves (programRound r) := by
  refine Moves.lookKind_bind (.stop _) fun k => ?_
  split
  · contradiction
  · exact MovesAt.advance_bind (.pure _)
  · exact Moves.at_token (.of_consumes (hr.statement.bind fun _ => .pure _))

end Statements

include ht

theorem Consumes.expectKeyword (w : Keyword) : Consumes (expectKeyword w) :=
  .of_safe (ht.takes (.expectKeyword w)) fun _ => Safe.expectKeyword w

theorem Consumes.expectName (w : Wanted) : Consumes (expectName w) :=
  .of_safe (ht.takes (.expectName w)) fun _ => Safe.expectName w

theorem Consumes.function : Consumes (function r) :=
  (Consumes.expectKeyword ht _).bind fun _ => ht.takes <| .bind (.expectName _) fun _ =>
    .bind (.params .own) fun _ => .bind .typeNote fun _ => .bind (.functionBody _) fun _ => .pure _

theorem Moves.paramRound : Moves paramRound := by
  refine Moves.bind (ht.takes (.atMark _)) fun _ => .ite (.stop _) ?_
  refine .of_consumes ((Consumes.expectName ht _).bind fun p => ht.takes ?_)
  refine .bind (.accept _) fun _ => .ite (.pure _) ?_
  exact .bind (.atMark _) fun _ => .ite (.pure _) (.refuse _)

include hr in
theorem Moves.expressionRound (closing : Mark) : Moves (expressionRound r closing) := by
  refine Moves.bind (ht.takes (.atMark _)) fun _ => .ite (.stop _) ?_
  refine .of_consumes ((hr.expression true).bind fun _ => ht.takes ?_)
  exact .bind (.accept _) fun _ => .ite (.pure _) (.pure _)

theorem Moves.memberRound (type : String) : Moves (memberRound r type) := by
  refine Moves.lookKind_bind (.refuse _) fun k => ?_
  split
  · exact Moves.at_token (.stop _)
  · exact MovesAt.advance_bind (.pure _)
  · exact MovesAt.advance_bind (.pure _)
  · exact Moves.at_token (.of_consumes ((Consumes.function ht).bind fun _ => .pure _))
  · exact MovesAt.advance_bind (ht.takes (.expect fun _ _ => .bind (.expression _) fun _ => .pure _))
  · exact Moves.at_token (.refuse _)

theorem Moves.fieldRound : Moves (fieldRound r) := by
  refine Moves.bind (ht.takes (.atMark _)) fun _ => .ite (.stop _) ?_
  refine .of_consumes ((Consumes.expectName ht _).bind fun _ => ht.takes ?_)
  refine .expect fun _ _ => .bind (.expression _) fun _ => .bind (.accept _) fun _ => ?_
  exact .ite (.pure _) (.pure _)

theorem Moves.commaExpressionRound : Moves (commaExpressionRound r) :=
  Moves.accept_bind (ht.takes (.bind (.expression _) fun _ => .pure _)) (.stop _)

theorem Moves.commaPairRound : Moves (commaPairRound r) := by
  refine Moves.accept_bind (ht.takes ?_) (.stop _)
  refine .bind (.atMark _) fun _ => .ite (.pure _) (.bind (.expression _) fun _ => ?_)
  exact .expect fun _ _ => .bind (.expression _) fun _ => .pure _

theorem Moves.trailerRound (e : Expr) : Moves (trailerRound r e) := by
  refine Moves.lookKind_bind (.stop _) fun k => ?_
  split
  · exact MovesAt.advance_bind (ht.takes (.bind (.expressions _ .own) fun _ =>
      .expect fun _ _ => .pure _))
  · exact MovesAt.advance_bind (ht.takes (.bind (.expectName _) fun _ => .pure _))
  · exact MovesAt.advance_bind (ht.takes (.bind (.expression _) fun _ =>
      .expect fun _ _ => .pure _))
  · exact Moves.at_token (.stop _)

theorem Moves.signRound (records : Bool) : Moves (signRound r records) := by
  refine Moves.accept_bind (.pure _) (Moves.accept_bind (.pure _) ?_)
  exact Moves.bind (ht.takes (.trailed records)) fun _ => .stop _

theorem Moves.powerRound (records : Bool) : Moves (powerRound r records) :=
  Moves.bind (ht.takes (.signed records .own)) fun _ => Moves.accept_bind (.pure _) (.stop _)

theorem Moves.chainRound {operand : Parser Expr} (ho : Composed r r [] operand operand)
    (op? : Mark → Option BinaryOp) (e : Expr) : Moves (chainRound op? operand e) := by
  refine Moves.lookKind_bind (.stop _) fun k => ?_
  split
  · split
    · exact MovesAt.advance_bind (ht.takes (.bind ho fun _ => .pure _))
    · exact Moves.at_token (.stop _)
  · exact Moves.at_token (.stop _)

omit ht in
theorem Composed.onLevel (records : Bool) (b n : Nat) :
    Composed r r [] (onLevel r records b n) (onLevel r records b n) := by
  unfold Parser.onLevel
  split
  · exact .assignment records
  · exact .disjunction records
  · exact .conjunction records
  · exact .equality records
  · exact .comparison records
  · exact .sum records
  · exact .product records
  · exact .power records (.same b)
  · exact .signed records (.same b)
  · exact .trailed records
  · exact .primary records

include hr in
/-- Every loop of the parser is made of rounds that take a token. -/
theorem loops : Loops r where
  params := ⟨fun b _ => paramsRest_eq b, fun _ => Moves.paramRound ht⟩
  statements := ⟨fun b _ => statements_eq r b, fun _ => Moves.statementRound hr⟩
  program := ⟨fun b _ => program_eq r b, fun _ => Moves.programRound hr⟩
  typeMembers type := ⟨fun b _ => typeMembers_eq r type b, fun _ => Moves.memberRound ht type⟩
  expressions closing :=
    ⟨fun b _ => expressions_eq r closing b, fun _ => Moves.expressionRound ht hr closing⟩
  recordFields := ⟨fun b _ => recordFields_eq r b, fun _ => Moves.fieldRound ht⟩
  commaExpressions := ⟨fun b _ => commaExpressions_eq r b, fun _ => Moves.commaExpressionRound ht⟩
  commaPairs := ⟨fun b _ => commaPairs_eq r b, fun _ => Moves.commaPairRound ht⟩
  trailers := ⟨trailers_eq r, Moves.trailerRound ht⟩
  operators records n :=
    ⟨chain_eq _ _, Moves.chainRound ht (.onLevel records r.bound (n + 1)) _⟩
  signs records := ⟨fun b _ => signed_eq r records b, fun _ => Moves.signRound ht records⟩
  powers records := ⟨fun b _ => power_eq r records b, fun _ => Moves.powerRound ht records⟩

end Sorts

end Parser

end Scripting
