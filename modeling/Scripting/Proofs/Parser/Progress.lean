import Scripting.Proofs.Parser.Basic

/-!
Parsers make progress. `Safe n d p` says that `p` never runs out of steps in front of at most `n`
tokens, and that it takes `d` tokens or more when it succeeds. Every loop takes a token in each
round, and every expression and statement takes one before it opens another, except that a statement
can start with an expression. So two levels for each token are enough.
-/

namespace Scripting.Parser

variable {α β : Type} {n d : Nat}

/-- An outcome with steps left that took `d` of `n` tokens or more. -/
def Sound (n d : Nat) : Except SyntaxError (α × Stream) → Prop
  | .ok x => x.2.length + d ≤ n
  | .error e => e.fault ≠ .outOfSteps

/-- In front of at most `n` tokens, a parser has enough steps and takes `d` tokens or more. -/
def Safe (n d : Nat) (p : Parser α) : Prop := ∀ S, S.length ≤ n → Sound S.length d (p S)

def TokenSafe (n d : Nat) (p : Parser α) : Prop :=
  ∀ t S, S.length < n → Sound (S.length + 1) d (p (.token t S))

theorem Safe.mono {n' d' : Nat} {p : Parser α} (h : Safe n d p) (hn : n' ≤ n) (hd : d' ≤ d) :
    Safe n' d' p := by
  intro S hS
  have hp := h S (Nat.le_trans hS hn)
  cases hrun : p S with
  | error e =>
    rw [hrun] at hp
    exact hp
  | ok x =>
    rw [hrun] at hp
    exact Nat.le_trans (Nat.add_le_add_left hd _) hp

theorem Safe.token {p : Parser α} (h : 0 < n → Safe n d p) : TokenSafe n d p :=
  fun t S hS => h (Nat.zero_lt_of_lt hS) (.token t S) hS

theorem Safe.pure (a : α) : Safe n 0 (pure a) := fun _ _ => Nat.le_refl _

theorem Safe.refuse (w : Wanted) : Safe n d (refuse w : Parser α) := by
  intro S _
  cases S <;> exact nofun

theorem Safe.fault {f : SyntaxFault} (hf : f ≠ .outOfSteps) (p : Position) :
    Safe n d (fault f p : Parser α) := fun _ _ => hf

/-- The second parser has what the first one leaves, which took `d` tokens. -/
theorem Safe.bind {d' : Nat} {p : Parser α} {f : α → Parser β} (hp : Safe n d p)
    (hf : ∀ a, d ≤ n → Safe (n - d) (d' - d) (f a)) : Safe n d' (p >>= f) := by
  intro S hS
  have h := hp S hS
  cases hrun : p S with
  | error e =>
    rw [hrun] at h
    rw [bind_of_error hrun]
    exact h
  | ok x =>
    obtain ⟨a, R⟩ := x
    rw [hrun] at h
    have hlength : R.length + d ≤ S.length := h
    have h' := hf a (by omega) R (by omega)
    rw [bind_of_ok hrun]
    cases hrun' : f a R with
    | error e =>
      rw [hrun'] at h'
      exact h'
    | ok y =>
      rw [hrun'] at h'
      have hlength' : y.2.length + (d' - d) ≤ R.length := h'
      show y.2.length + d' ≤ S.length
      omega

theorem Safe.ite {c : Bool} {p q : Parser α} (hp : Safe n d p) (hq : Safe n d q) :
    Safe n d (if c then p else q) := by
  cases c
  · exact hq
  · exact hp

/-- Either the input ends, or a token comes next. -/
theorem Safe.look_bind {f : Option Token → Parser α} (hfinish : Safe 0 d (f none))
    (htoken : ∀ t, TokenSafe n d (f (some t))) : Safe n d (look >>= f) := by
  intro S hS
  cases S with
  | token t rest => exact htoken t t rest hS
  | finish p => exact hfinish (.finish p) (Nat.le_refl 0)
  | invalid e => exact nofun

theorem Safe.lookKind_bind {f : Option Token.Kind → Parser α} (hfinish : Safe 0 d (f none))
    (htoken : ∀ k, TokenSafe n d (f (some k))) : Safe n d (lookKind >>= f) := by
  intro S hS
  cases S with
  | token t rest => exact htoken t.kind t rest hS
  | finish p => exact hfinish (.finish p) (Nat.le_refl 0)
  | invalid e => exact nofun

/-- A token that is taken is one less for what comes then. -/
theorem Sound.after_token {S : Stream} {x : Except SyntaxError (α × Stream)}
    (h : Sound S.length (d - 1) x) : Sound (S.length + 1) d x := by
  cases x with
  | error e => exact h
  | ok x =>
    have hlength : x.2.length + (d - 1) ≤ S.length := h
    show x.2.length + d ≤ S.length + 1
    omega

theorem TokenSafe.advance_bind {f : Unit → Parser α}
    (hf : 0 < n → Safe (n - 1) (d - 1) (f ())) : TokenSafe n d (advance >>= f) :=
  fun _ S hS => Sound.after_token (hf (by omega) S (by omega))

theorem Safe.atMark (m : Mark) : Safe n 0 (atMark m) := by
  refine Safe.lookKind_bind (.pure _) fun k => ?_
  cases k <;> exact Safe.token fun _ => Safe.pure _

theorem Safe.atKeyword (w : Keyword) : Safe n 0 (atKeyword w) := by
  refine Safe.lookKind_bind (.pure _) fun k => ?_
  cases k <;> exact Safe.token fun _ => Safe.pure _

theorem Safe.atFunction : Safe n 0 atFunction := by
  intro S _
  unfold Parser.atFunction
  split
  · exact Nat.le_refl _
  · exact nofun
  · exact Nat.le_refl _

/-- A mark that is accepted is one token less for what comes then. -/
theorem Safe.accept_bind {m : Mark} {f : Bool → Parser α}
    (htrue : 0 < n → Safe (n - 1) (d - 1) (f true)) (hfalse : Safe n d (f false)) :
    Safe n d (accept m >>= f) := by
  intro S hS
  cases S with
  | token t rest =>
    obtain ⟨k, p⟩ := t
    rw [bind_of_ok (accept_token k p rest m)]
    cases k.isMark m with
    | false => exact hfalse _ hS
    | true =>
      have hS' : rest.length + 1 ≤ n := hS
      exact Sound.after_token (htrue (by omega) rest (by omega))
  | finish p =>
    rw [bind_of_ok (accept_finish p m)]
    exact hfalse _ hS
  | invalid e => exact nofun

theorem Safe.accept (m : Mark) : Safe n 0 (accept m) := by
  have h : Safe n 0 (Parser.accept m >>= Pure.pure) :=
    Safe.accept_bind (fun _ => Safe.pure true) (Safe.pure false)
  rwa [bind_pure] at h

theorem Safe.acceptKeyword (w : Keyword) : Safe n 0 (acceptKeyword w) := by
  intro S _
  cases S with
  | token t rest =>
    obtain ⟨k, p⟩ := t
    rw [acceptKeyword_token]
    show (if _ then _ else _ : Stream).length + 0 ≤ rest.length + 1
    split
    · omega
    · exact Nat.le_refl _
  | finish p => exact Nat.le_refl 0
  | invalid e => exact nofun

theorem Safe.expect (m : Mark) : Safe n 1 (expect m) := by
  refine Safe.look_bind (.refuse _) fun t => ?_
  split
  · split
    · exact TokenSafe.advance_bind fun _ => .pure _
    · exact Safe.token fun _ => Safe.refuse _
  · exact Safe.token fun _ => Safe.refuse _

theorem Safe.expectKeyword (w : Keyword) : Safe n 1 (expectKeyword w) := by
  intro S hS
  cases S with
  | token t rest =>
    obtain ⟨k, p⟩ := t
    unfold Parser.expectKeyword
    rw [bind_of_ok (atKeyword_token k p rest w)]
    cases k.isKeyword w with
    | false => exact Safe.refuse _ _ hS
    | true => exact Nat.le_refl _
  | finish p => exact nofun
  | invalid e => exact nofun

theorem Safe.expectName (w : Wanted) : Safe n 1 (expectName w) := by
  refine Safe.lookKind_bind (.refuse _) fun k => ?_
  cases k
  case name s => exact TokenSafe.advance_bind fun _ => .pure _
  all_goals exact Safe.token fun _ => Safe.refuse _

theorem Safe.expectText : Safe n 1 expectText := by
  refine Safe.lookKind_bind (.refuse _) fun k => ?_
  cases k
  case text s => exact TokenSafe.advance_bind fun _ => .pure _
  all_goals exact Safe.token fun _ => Safe.refuse _

theorem Safe.endStatement : Safe n 0 endStatement := (Safe.accept _).bind fun _ _ => .pure _

theorem Safe.typeNote : Safe n 0 typeNote := by
  refine Safe.accept_bind (fun _ => ?_) (.pure _)
  refine Safe.lookKind_bind (.pure _) fun k => ?_
  cases k
  case name s =>
    intro t S _
    exact Nat.le_succ S.length
  all_goals exact Safe.token fun _ => Safe.pure _

theorem Safe.paramsRest {b : Nat} (hb : n < b) : Safe n 0 (paramsRest b) := by
  induction b generalizing n with
  | zero => exact absurd hb (Nat.not_lt_zero n)
  | succ b ih =>
    refine (Safe.atMark _).bind fun _ _ => .ite (.pure _) ?_
    refine (Safe.expectName _).bind fun p hn => (Safe.accept _).bind fun _ _ => .ite ?_ ?_
    · exact (ih (by omega)).bind fun _ _ => .pure _
    · exact (Safe.atMark _).bind fun _ _ => .ite (.pure _) (.refuse _)

theorem Safe.params {b : Nat} (hb : n ≤ b) : Safe n 2 (params b) :=
  (Safe.expect _).bind fun _ _ => (Safe.paramsRest (by omega)).bind fun _ _ =>
    (Safe.expect _).bind fun _ _ => .pure _

theorem Safe.atStatement : Safe n 0 atStatement := by
  refine Safe.lookKind_bind (.pure _) fun k => Safe.token fun _ => ?_
  exact .ite (.pure _) Safe.atFunction

/-- Both sorts have steps enough for `n` tokens. A statement is only asked for where there is a
token, or where some have been taken. -/
structure Ample (n : Nat) (r : Sorts) : Prop where
  expression : ∀ records, Safe n 1 (r.expression records)
  statement : 0 < n → Safe n 1 r.statement

theorem Ample.mono {n' : Nat} {r : Sorts} (h : Ample n r) (hn : n' ≤ n) : Ample n' r where
  expression records := (h.expression records).mono hn (Nat.le_refl 1)
  statement hpos := (h.statement (Nat.lt_of_lt_of_le hpos hn)).mono hn (Nat.le_refl 1)

section Loops

variable {r : Sorts} {b : Nat} (hr : Ample n r) (hb : n < b)
include hr hb

theorem Safe.statements : Safe n 0 (statements r b) := by
  induction b generalizing n with
  | zero => exact absurd hb (Nat.not_lt_zero n)
  | succ b ih =>
    refine Safe.lookKind_bind (.pure _) fun k => ?_
    split
    · contradiction
    · exact Safe.token fun _ => .pure _
    · exact TokenSafe.advance_bind fun _ => ih (hr.mono (by omega)) (by omega)
    · exact Safe.token fun hn => (hr.statement hn).bind fun _ _ =>
        (ih (hr.mono (by omega)) (by omega)).bind fun _ _ => .pure _

theorem Safe.expressions (c : Mark) : Safe n 0 (expressions r c b) := by
  induction b generalizing n with
  | zero => exact absurd hb (Nat.not_lt_zero n)
  | succ b ih =>
    refine (Safe.atMark _).bind fun _ _ => .ite (.pure _) ?_
    refine (hr.expression _).bind fun _ _ => (Safe.accept _).bind fun _ _ => .ite ?_ (.pure _)
    exact (ih (hr.mono (by omega)) (by omega)).bind fun _ _ => .pure _

theorem Safe.recordFields : Safe n 0 (recordFields r b) := by
  induction b generalizing n with
  | zero => exact absurd hb (Nat.not_lt_zero n)
  | succ b ih =>
    refine (Safe.atMark _).bind fun _ _ => .ite (.pure _) ?_
    refine (Safe.expectName _).bind fun _ _ => (Safe.expect _).bind fun _ _ => ?_
    refine ((hr.mono (by omega)).expression _).bind fun _ _ => (Safe.accept _).bind fun _ _ => ?_
    exact .ite ((ih (hr.mono (by omega)) (by omega)).bind fun _ _ => .pure _) (.pure _)

theorem Safe.commaExpressions : Safe n 0 (commaExpressions r b) := by
  induction b generalizing n with
  | zero => exact absurd hb (Nat.not_lt_zero n)
  | succ b ih =>
    refine (Safe.accept _).bind fun _ _ => .ite ?_ (.pure _)
    exact (hr.expression _).bind fun _ _ => (ih (hr.mono (by omega)) (by omega)).bind fun _ _ => .pure _

theorem Safe.commaPairs : Safe n 0 (commaPairs r b) := by
  induction b generalizing n with
  | zero => exact absurd hb (Nat.not_lt_zero n)
  | succ b ih =>
    refine (Safe.accept _).bind fun _ _ => .ite ?_ (.pure _)
    refine (Safe.atMark _).bind fun _ _ => .ite (.pure _) ?_
    refine (hr.expression _).bind fun _ _ => (Safe.expect _).bind fun _ _ => ?_
    exact ((hr.mono (by omega)).expression _).bind fun _ _ =>
      (ih (hr.mono (by omega)) (by omega)).bind fun _ _ => .pure _

end Loops

theorem Safe.braced {r : Sorts} (hr : 0 < n → Ample (n - 1) r) (hb : n ≤ r.bound) :
    Safe n 2 (braced r) :=
  (Safe.expect _).bind fun _ hn => (Safe.statements (hr hn) (by omega)).bind fun _ _ =>
    (Safe.expect _).bind fun _ _ => .pure _

theorem Safe.block {r : Sorts} (hr : 0 < n → Ample (n - 1) r) (hb : n ≤ r.bound) :
    Safe n 2 (block r) :=
  (Safe.braced hr hb).bind fun _ _ => .pure _

theorem Safe.functionBody {r : Sorts} (hr : 0 < n → Ample (n - 1) r) (hb : n ≤ r.bound)
    (name : String) : Safe n 2 (functionBody r name) := by
  refine (Safe.braced hr hb).bind fun x _ => Safe.bind (d := 0) ?_ fun _ _ => .pure _
  unfold checkLength
  split
  · exact .pure _
  · dsimp only
    split
    · exact .fault (by nofun) _
    · exact .pure _

section Expressions

variable {r : Sorts} (hr : 0 < n → Ample (n - 1) r) (hb : n < r.bound)
include hr hb

theorem Safe.group : Safe n 1 (group r) := by
  refine (Safe.expect _).bind fun _ hn => ((hr hn).expression _).bind fun _ _ => ?_
  refine (Safe.commaExpressions ((hr hn).mono (by omega)) (by omega)).bind fun es _ => ?_
  split <;> exact (Safe.expect _).bind fun _ _ => .pure _

theorem Safe.list : Safe n 1 (list r) :=
  (Safe.expect _).bind fun _ hn => (Safe.expressions (hr hn) (by omega) _).bind fun _ _ =>
    (Safe.expect _).bind fun _ _ => .pure _

theorem Safe.record (type : String) : Safe n 1 (record r type) :=
  (Safe.expect _).bind fun _ hn => (Safe.recordFields (hr hn) (by omega)).bind fun _ _ =>
    (Safe.expect _).bind fun _ _ => .pure _

theorem Safe.brace : Safe n 1 (brace r) := by
  refine (Safe.expect _).bind fun _ hn => (Safe.accept _).bind fun _ _ => .ite (.pure _) ?_
  have hinner := hr hn
  refine Safe.atStatement.bind fun _ _ => .ite ?_ ?_
  · exact (Safe.statements hinner (by omega)).bind fun _ _ => (Safe.expect _).bind fun _ _ => .pure _
  · refine (hinner.expression _).bind fun _ _ => (Safe.accept _).bind fun _ _ => .ite ?_ ?_
    · refine ((hinner.mono (by omega)).expression _).bind fun _ _ => ?_
      exact (Safe.commaPairs (hinner.mono (by omega)) (by omega)).bind fun _ _ =>
        (Safe.expect _).bind fun _ _ => .pure _
    · refine Safe.endStatement.bind fun _ _ => ?_
      exact (Safe.statements (hinner.mono (by omega)) (by omega)).bind fun _ _ =>
        (Safe.expect _).bind fun _ _ => .pure _

/-- The body of a function literal comes after three tokens. -/
theorem Safe.lambda : Safe n 1 (lambda r) := by
  refine (Safe.expectKeyword _).bind fun _ hn => (Safe.params (by omega)).bind fun _ hn' => ?_
  have hinner := hr hn
  refine Safe.typeNote.bind fun _ _ => (Safe.atMark _).bind fun _ _ => .ite ?_ ?_
  · exact (Safe.functionBody (fun _ => hinner.mono (by omega)) (by omega) _).bind fun _ _ => .pure _
  · exact ((hinner.statement (by omega)).mono (by omega) (Nat.le_refl 1)).bind fun _ _ => .pure _

/-- A primary takes a token and has steps enough. -/
theorem Safe.primary (records : Bool) : Safe n 1 (primary r records) := by
  refine Safe.lookKind_bind (.refuse _) fun k => ?_
  split
  · exact TokenSafe.advance_bind fun _ => .pure _
  · exact TokenSafe.advance_bind fun _ => .pure _
  · exact TokenSafe.advance_bind fun _ => .pure _
  · exact TokenSafe.advance_bind fun _ => .pure _
  · refine TokenSafe.advance_bind fun hn => .ite ?_ (.pure _)
    refine (Safe.atMark _).bind fun _ _ => .ite ?_ (.pure _)
    exact (Safe.record (fun _ => (hr hn).mono (by omega)) (by omega) _).mono (Nat.le_refl _)
      (Nat.zero_le _)
  · exact Safe.token fun _ => Safe.group hr hb
  · exact Safe.token fun _ => Safe.list hr hb
  · exact Safe.token fun _ => Safe.brace hr hb
  · exact Safe.token fun _ => Safe.lambda hr hb
  · exact Safe.token fun _ => .refuse _

omit hr hb in
/-- The loop over trailers has steps enough, as each takes a token. -/
theorem Safe.trailers {b : Nat} (hr : Ample n r) (hbound : n ≤ r.bound) (hb : n < b) (e : Expr) :
    Safe n 0 (trailers r b e) := by
  induction b generalizing n e with
  | zero => exact absurd hb (Nat.not_lt_zero n)
  | succ b ih =>
    refine Safe.lookKind_bind (.pure _) fun k => ?_
    split
    · refine TokenSafe.advance_bind fun hn => ?_
      refine (Safe.expressions (hr.mono (by omega)) (by omega) _).bind fun _ _ => ?_
      exact (Safe.expect _).bind fun _ _ => ih (hr.mono (by omega)) (by omega) (by omega) _
    · exact TokenSafe.advance_bind fun hn => (Safe.expectName _).bind fun _ _ =>
        ih (hr.mono (by omega)) (by omega) (by omega) _
    · refine TokenSafe.advance_bind fun hn => ?_
      refine ((hr.mono (by omega)).expression _).bind fun _ _ => (Safe.expect _).bind fun _ _ => ?_
      exact ih (hr.mono (by omega)) (by omega) (by omega) _
    · exact Safe.token fun _ => .pure _

theorem Safe.trailed (records : Bool) : Safe n 1 (trailed r records) :=
  (Safe.primary hr hb records).bind fun _ hn => Safe.trailers (hr hn) (by omega) (by omega) _

omit hr hb in
theorem Safe.signed {b : Nat} (hr : 0 < n → Ample (n - 1) r) (hbound : n < r.bound) (hb : n < b)
    (records : Bool) : Safe n 1 (signed r records b) := by
  induction b generalizing n with
  | zero => exact absurd hb (Nat.not_lt_zero n)
  | succ b ih =>
    have hagain : ∀ op, 0 < n → Safe (n - 1) 0 (do
        let e ← Parser.signed r records b
        return Expr.unary op e) := by
      intro op hn
      have hinner := ih (fun _ => (hr hn).mono (Nat.sub_le _ 1)) (by omega) (by omega)
      exact hinner.bind fun _ _ => .pure _
    refine Safe.accept_bind (hagain .neg) ?_
    exact Safe.accept_bind (hagain .not) (Safe.trailed hr hbound records)

omit hr hb in
theorem Safe.power {b : Nat} (hr : 0 < n → Ample (n - 1) r) (hbound : n < r.bound) (hb : n < b)
    (records : Bool) : Safe n 1 (power r records b) := by
  induction b generalizing n with
  | zero => exact absurd hb (Nat.not_lt_zero n)
  | succ b ih =>
    refine (Safe.signed hr hbound hbound records).bind fun _ hn => (Safe.accept _).bind fun _ _ => ?_
    have hinner := ih (fun _ => (hr hn).mono (Nat.sub_le _ 1)) (by omega) (by omega)
    exact .ite (hinner.bind fun _ _ => .pure _) (.pure _)

omit hr hb in
theorem Safe.chain {op? : Mark → Option BinaryOp} {operand : Parser Expr} {b : Nat}
    (ho : Safe n 1 operand) (hb : n < b) (e : Expr) : Safe n 0 (chain op? operand b e) := by
  induction b generalizing n e with
  | zero => exact absurd hb (Nat.not_lt_zero n)
  | succ b ih =>
    refine Safe.lookKind_bind (.pure _) fun k => ?_
    split
    · split
      · refine TokenSafe.advance_bind fun hn => ?_
        have hinner : Safe (n - 1) 1 operand := ho.mono (by omega) (Nat.le_refl 1)
        exact hinner.bind fun _ _ => ih (ho.mono (by omega) (Nat.le_refl 1)) (by omega) _
      · exact Safe.token fun _ => .pure _
    · exact Safe.token fun _ => .pure _

omit hr in
theorem Safe.level {op? : Mark → Option BinaryOp} {operand : Parser Expr}
    (ho : Safe n 1 operand) : Safe n 1 (level r op? operand) :=
  ho.bind fun _ _ => Safe.chain (ho.mono (Nat.sub_le n 1) (Nat.le_refl 1)) (by omega) _

theorem Safe.assignment (records : Bool) : Safe n 1 (assignment r records) := by
  have hproduct : Safe n 1 (product r records) := Safe.level hb (Safe.power hr hb hb records)
  have hequality : Safe n 1 (equality r records) :=
    Safe.level hb (Safe.level hb (Safe.level hb hproduct))
  refine (Safe.level hb (Safe.level hb hequality)).bind fun target hn => ?_
  refine Safe.look_bind (.pure _) fun t => ?_
  split
  · refine TokenSafe.advance_bind fun _ => ?_
    refine (((hr hn).mono (by omega)).expression _).bind fun _ _ => ?_
    split
    · exact .pure _
    · exact .fault (by nofun) _
  · exact Safe.token fun _ => .pure _

theorem Safe.function : Safe n 1 (function r) := by
  refine (Safe.expectKeyword _).bind fun _ hn => (Safe.expectName _).bind fun _ _ => ?_
  refine (Safe.params (by omega)).bind fun _ _ => Safe.typeNote.bind fun _ _ => ?_
  exact (Safe.functionBody (fun _ => (hr hn).mono (by omega)) (by omega) _).bind fun _ _ => .pure _

end Expressions

section Statements

variable {r : Sorts} (hr : Ample n r) (hb : n < r.bound)
include hr

theorem Safe.binding (w : Wanted) : Safe n 1 (binding r w) :=
  (Safe.expectName _).bind fun _ _ => Safe.typeNote.bind fun _ _ => (Safe.expect _).bind fun _ _ =>
    ((hr.mono (by omega)).expression _).bind fun _ _ => Safe.endStatement.bind fun _ _ => .pure _

theorem Safe.returned : Safe n 0 (returned r) := by
  refine Safe.lookKind_bind (Safe.endStatement.bind fun _ _ => .pure _) fun k => ?_
  split
  · contradiction
  · exact Safe.token fun _ => Safe.endStatement.bind fun _ _ => .pure _
  · exact Safe.token fun _ => Safe.endStatement.bind fun _ _ => .pure _
  · rw [map_eq_pure_bind]
    refine Safe.token fun _ => Safe.bind (d := 1) ?_ fun _ _ =>
      Safe.endStatement.bind fun _ _ => .pure _
    exact (hr.expression _).bind fun _ _ => .pure _

include hb

/-- A statement behind `else` is only asked for in front of `if`. -/
theorem Safe.conditional : Safe n 0 (conditional r) := by
  refine (hr.expression _).bind fun _ _ => ?_
  refine (Safe.block (fun _ => hr.mono (by omega)) (by omega)).bind fun _ hn => ?_
  refine (Safe.acceptKeyword _).bind fun _ _ => .ite ?_ (.pure _)
  refine (Safe.atKeyword _).bind fun _ _ => .ite ?_ ?_
  · exact ((hr.statement (by omega)).mono (by omega) (Nat.le_refl 1)).bind fun _ _ => .pure _
  · exact (Safe.block (fun _ => hr.mono (by omega)) (by omega)).bind fun _ _ => .pure _

theorem Safe.whileLoop : Safe n 0 (whileLoop r) :=
  (hr.expression _).bind fun _ _ => (Safe.block (fun _ => hr.mono (by omega)) (by omega)).bind fun _ _ =>
    .pure _

theorem Safe.forLoop : Safe n 0 (forLoop r) := by
  refine (Safe.expectName _).bind fun _ _ => (Safe.expectKeyword _).bind fun _ _ => ?_
  refine ((hr.mono (by omega)).expression _).bind fun _ _ => (Safe.expect _).bind fun _ _ => ?_
  refine ((hr.mono (by omega)).expression _).bind fun _ _ => ?_
  exact (Safe.block (fun _ => hr.mono (by omega)) (by omega)).bind fun _ _ => .pure _

theorem Safe.printed : Safe n 0 (printed r) :=
  (hr.expression _).bind fun _ _ =>
    (Safe.commaExpressions (hr.mono (by omega)) (by omega)).bind fun _ _ =>
      Safe.endStatement.bind fun _ _ => .pure _

omit hb in
theorem Safe.typeMembers {b : Nat} (hbound : n < r.bound) (hb : n < b) (type : String) :
    Safe n 0 (typeMembers r type b) := by
  induction b generalizing n with
  | zero => exact absurd hb (Nat.not_lt_zero n)
  | succ b ih =>
    refine Safe.lookKind_bind (.refuse _) fun k => ?_
    split
    · exact Safe.token fun _ => .pure _
    · exact TokenSafe.advance_bind fun _ => ih (hr.mono (by omega)) (by omega) (by omega)
    · exact TokenSafe.advance_bind fun _ => ih (hr.mono (by omega)) (by omega) (by omega)
    · exact Safe.token fun _ => (Safe.function (fun _ => hr.mono (by omega)) hbound).bind fun _ _ =>
        (ih (hr.mono (by omega)) (by omega) (by omega)).bind fun _ _ => .pure _
    · refine TokenSafe.advance_bind fun _ => (Safe.expect _).bind fun _ _ => ?_
      refine ((hr.mono (by omega)).expression _).bind fun _ _ => ?_
      exact (ih (hr.mono (by omega)) (by omega) (by omega)).bind fun _ _ => .pure _
    · exact Safe.token fun _ => .refuse _

theorem Safe.typeDeclaration : Safe n 0 (typeDeclaration r) := by
  refine (Safe.expectName _).bind fun _ _ => (Safe.expect _).bind fun _ _ => ?_
  refine (Safe.typeMembers (hr.mono (by omega)) (by omega) (by omega) _).bind fun _ _ => ?_
  exact (Safe.expect _).bind fun _ _ => .pure _

theorem Safe.keywordStatement {w : Keyword} {p : Parser Stmt}
    (h : keywordStatement? r w = some p) : Safe n 0 p := by
  have hbinding : ∀ w (f : Name × Expr → Stmt), Safe n 0 (do
      let x ← Parser.binding r w
      return f x) := fun w f => (Safe.binding hr w).bind fun _ _ => .pure _
  have hend : ∀ s, Safe n 0 (Parser.endStatement >>= fun _ => Pure.pure s : Parser Stmt) :=
    fun s => Safe.endStatement.bind fun _ _ => .pure s
  cases w with
  | let_ => cases h; exact hbinding _ _
  | const => cases h; exact hbinding _ _
  | return_ => cases h; exact Safe.returned hr
  | if_ => cases h; exact Safe.conditional hr hb
  | while_ => cases h; exact Safe.whileLoop hr hb
  | for_ => cases h; exact Safe.forLoop hr hb
  | import_ => cases h; exact Safe.expectText.bind fun _ _ => Safe.endStatement.bind fun _ _ => .pure _
  | break_ => cases h; exact hend _
  | continue_ => cases h; exact hend _
  | print => cases h; exact Safe.printed hr hb
  | type => cases h; exact Safe.typeDeclaration hr hb
  | _ => cases h

end Statements

/-- A statement can start with an expression, so that takes no token off. -/
theorem Safe.statementOf {r : Sorts} (he : Safe n 1 (r.expression true))
    (hr : 0 < n → Ample (n - 1) r) (hb : n < r.bound) : Safe n 1 (statementOf r) := by
  have hexpr : Safe n 1 (expressionStatement r) :=
    he.bind fun _ _ => Safe.endStatement.bind fun _ _ => .pure _
  refine Safe.look_bind ((hexpr.mono (Nat.zero_le n) (Nat.le_refl 1))) fun t => ?_
  split
  · split
    · rename_i hk
      exact TokenSafe.advance_bind fun hn => Safe.keywordStatement (hr hn) (by omega) hk
    · refine Safe.token fun hn => .ite (.fault (by nofun) _) ?_
      exact Safe.atFunction.bind fun _ _ => .ite (Safe.function hr hb) hexpr
  · exact Safe.token fun hn => (Safe.block hr (by omega)).bind fun _ _ => .pure _
  · exact Safe.token fun _ => hexpr

/-- Both sorts at once, by induction on the depth. -/
theorem safe_sorts (limit : Option Int) (b : Nat) :
    (∀ n, 2 ≤ b → 2 * n + 1 ≤ b → ∀ records, Safe n 1 (expression limit b records)) ∧
      ∀ n, 3 ≤ b → 2 * n + 2 ≤ b → Safe n 1 (statement limit b) := by
  induction b with
  | zero => exact ⟨fun _ h => absurd h (by omega), fun _ h => absurd h (by omega)⟩
  | succ b ih =>
    obtain ⟨hexpression, hstatement⟩ := ih
    have hample : ∀ n, 2 * n ≤ b → 0 < n →
        Ample (n - 1) ⟨expression limit b, statement limit b, limit, b⟩ := fun n hn hpos =>
      ⟨hexpression (n - 1) (by omega) (by omega), fun _ => hstatement (n - 1) (by omega) (by omega)⟩
    constructor
    · intro n h₂ hn records
      simp only [expression]
      exact Safe.assignment (hample n (by omega)) (by simp only; omega) records
    · intro n h₃ hn
      simp only [statement]
      exact Safe.statementOf (hexpression n (by omega) (by omega) true) (hample n (by omega))
        (by simp only; omega)

theorem Safe.program {r : Sorts} (hr : 0 < n → Safe n 1 r.statement) {b : Nat} (hb : n < b) :
    Safe n 0 (program r b) := by
  induction b generalizing n with
  | zero => exact absurd hb (Nat.not_lt_zero n)
  | succ b ih =>
    have hrest : ∀ n', n' < n → Safe n' 0 (Parser.program r b) := fun n' hn' =>
      ih (fun _ => (hr (by omega)).mono (by omega) (Nat.le_refl 1)) (by omega)
    refine Safe.lookKind_bind (.pure _) fun k => ?_
    split
    · contradiction
    · exact TokenSafe.advance_bind fun hn => hrest (n - 1) (by omega)
    · exact Safe.token fun hn => (hr hn).bind fun _ _ => (hrest (n - 1) (by omega)).bind fun _ _ =>
        .pure _

/-- Parsing never runs out of steps. -/
theorem parseStream_ne_outOfSteps (limit : Option Int) (S : Stream) (e : SyntaxError)
    (h : parseStream limit S = .error e) : e.fault ≠ .outOfSteps := by
  have hsafe := Safe.program (n := S.length)
    (r := ⟨expression limit (enough S), statement limit (enough S), limit, enough S⟩)
    (fun hpos => (safe_sorts limit (enough S)).2 _ (by unfold enough; omega) (by unfold enough; omega))
    (b := enough S) (by unfold enough; omega) S (Nat.le_refl _)
  rw [program_of_parseStream_error h] at hsafe
  exact hsafe

end Scripting.Parser
