import Scripting.Proofs.Parser.Seam

/-!
What stands in brackets is read in the same way on a longer stream, and so are single tokens.
-/

namespace Scripting

/-- An expression that has taken in more of the input; the result is never a tuple. -/
def Expr.Grown (e e' : Expr) : Prop := sizeOf e < sizeOf e' ∧ ∀ es, e' ≠ .tuple es

def Stmt.Grown (s s' : Stmt) : Prop := sizeOf s < sizeOf s'

theorem Stream.Seam.cases {T : Stream} (hT : T.Seam) :
    (∃ p, T = .finish p) ∨ ∃ p S, T = .token ⟨.mark .semicolon, p⟩ S := by
  refine hT.front.imp_right fun h => ?_
  obtain ⟨p, hp⟩ := dropSemicolons_of_lt h
  rw [dropSemicolons_zero] at hp
  exact ⟨p, _, hp⟩

namespace Parser

variable {ι α β : Type} {T : ι → Stream}

/-- A parser that looks at one token at most, and at no semicolon, is closed. -/
theorem Closed.of_token (hT : ∀ i, (T i).Seam) {p : Parser α}
    (hfinish : ∀ {q a R}, p (.finish q) = .ok (a, R) → R = .finish q ∧
      (∀ q', p (.finish q') = .ok (a, .finish q')) ∧
      ∀ q' S, p (.token ⟨.mark .semicolon, q'⟩ S) = .ok (a, .token ⟨.mark .semicolon, q'⟩ S))
    (htoken : ∀ {k q S a R}, p (.token ⟨k, q⟩ S) = .ok (a, R) →
      (R = S ∧ ∀ q' S', p (.token ⟨k, q'⟩ S') = .ok (a, S')) ∨
      (R = .token ⟨k, q⟩ S ∧ ∀ q' S', p (.token ⟨k, q'⟩ S') = .ok (a, .token ⟨k, q'⟩ S')))
    (hinvalid : ∀ {e x}, p (.invalid e) ≠ .ok x) : Closed T p fun _ => p := by
  refine ⟨fun h => (hfinish h).1, ?_⟩
  intro S S' a R hS h
  cases S with
  | invalid e => exact absurd h hinvalid
  | finish q =>
    obtain ⟨rfl, hfin, hsemi⟩ := hfinish h
    cases continues_finish hS
    intro i
    refine ⟨T i, hS i, ?_⟩
    rcases (hT i).cases with ⟨q', hq'⟩ | ⟨q', U, hq'⟩
    · simp only [hq', hfin]
    · simp only [hq', hsemi]
  | token t S =>
    obtain ⟨q', R', rfl, hR'⟩ := continues_token hS
    intro i
    rcases htoken h with ⟨rfl, hk⟩ | ⟨rfl, hk⟩
    · exact ⟨R' i, hR' i, hk (q' i) (R' i)⟩
    · exact ⟨_, .token (hR' i), hk (q' i) (R' i)⟩

section Primitives

variable (hT : ∀ i, (T i).Seam)
include hT

theorem Closed.atMark {m : Mark} (hm : m ≠ .semicolon) : Closed T (atMark m) fun _ => atMark m := by
  refine Closed.of_token hT ?_ ?_ (by intro e x h; cases h)
  · intro q a R h
    cases h
    refine ⟨rfl, fun _ => rfl, fun q' S => ?_⟩
    rw [atMark_token]
    simp [Token.Kind.isMark, hm.symm]
  · intro k q S a R h
    cases (atMark_token k q S m).symm.trans h
    exact .inr ⟨rfl, fun q' S' => atMark_token k q' S' m⟩

theorem Closed.atKeyword (w : Keyword) : Closed T (atKeyword w) fun _ => atKeyword w := by
  refine Closed.of_token hT ?_ ?_ (by intro e x h; cases h)
  · intro q a R h
    cases h
    exact ⟨rfl, fun _ => rfl, fun q' S => rfl⟩
  · intro k q S a R h
    cases (atKeyword_token k q S w).symm.trans h
    exact .inr ⟨rfl, fun q' S' => atKeyword_token k q' S' w⟩

theorem Closed.accept {m : Mark} (hm : m ≠ .semicolon) : Closed T (accept m) fun _ => accept m := by
  refine Closed.of_token hT ?_ ?_ (by intro e x h; cases h)
  · intro q a R h
    cases h
    refine ⟨rfl, fun _ => rfl, fun q' S => ?_⟩
    rw [accept_token]
    simp [Token.Kind.isMark, hm.symm]
  · intro k q S a R h
    rw [accept_token] at h
    cases hk : k.isMark m <;> simp only [hk, if_true, Bool.false_eq_true, if_false] at h <;> cases h
    · exact .inr ⟨rfl, fun q' S' => by simp [hk]⟩
    · exact .inl ⟨rfl, fun q' S' => by simp [hk]⟩

theorem Closed.acceptKeyword (w : Keyword) :
    Closed T (acceptKeyword w) fun _ => acceptKeyword w := by
  refine Closed.of_token hT ?_ ?_ (by intro e x h; cases h)
  · intro q a R h
    cases h
    exact ⟨rfl, fun _ => rfl, fun q' S => rfl⟩
  · intro k q S a R h
    rw [acceptKeyword_token] at h
    cases hk : k.isKeyword w <;> simp only [hk, if_true, Bool.false_eq_true, if_false] at h <;>
      cases h
    · exact .inr ⟨rfl, fun q' S' => by simp [hk]⟩
    · exact .inl ⟨rfl, fun q' S' => by simp [hk]⟩

theorem Closed.expectKeyword (w : Keyword) :
    Closed T (expectKeyword w) fun _ => expectKeyword w := by
  refine Closed.of_token hT (by intro q a R h; cases h) ?_ (by intro e x h; cases h)
  intro k q S a R h
  unfold Parser.expectKeyword at h
  rw [bind_of_ok (atKeyword_token k q S w)] at h
  cases hk : k.isKeyword w with
  | false =>
    simp only [hk, Bool.false_eq_true, if_false] at h
    cases h
  | true =>
    cases Token.Kind.isKeyword_iff.mp hk
    simp only [hk, if_true] at h
    cases h
    exact .inl ⟨rfl, fun q' S' => expectKeyword_keyword q' S' w⟩

theorem Closed.expectName (w : Wanted) : Closed T (expectName w) fun _ => expectName w := by
  refine Closed.of_token hT (by intro q a R h; cases h) ?_ (by intro e x h; cases h)
  intro k q S a R h
  cases k with
  | name n =>
    cases h
    exact .inl ⟨rfl, fun q' S' => rfl⟩
  | _ => cases h

theorem Closed.expectText : Closed T expectText fun _ => expectText := by
  refine Closed.of_token hT (by intro q a R h; cases h) ?_ (by intro e x h; cases h)
  intro k q S a R h
  cases k with
  | text v =>
    cases h
    exact .inl ⟨rfl, fun q' S' => rfl⟩
  | _ => cases h

/-- The part of `typeNote` behind the colon. -/
theorem Closed.note : Closed T
    (do match ← lookKind with
      | some (.name _) => advance
      | _ => return)
    fun _ => do
      match ← lookKind with
      | some (.name _) => advance
      | _ => return := by
  refine Closed.of_token hT ?_ ?_ (by intro e x h; cases h)
  · intro q a R h
    cases h
    exact ⟨rfl, fun _ => rfl, fun q' S => rfl⟩
  · intro k q S a R h
    cases k with
    | name n =>
      cases h
      exact .inl ⟨rfl, fun q' S' => rfl⟩
    | _ =>
      cases h
      exact .inr ⟨rfl, fun q' S' => rfl⟩

theorem Closed.typeNote : Closed T typeNote fun _ => typeNote := by
  refine Closed.bind hT (Closed.accept hT (by decide)) fun colon => ?_
  cases colon with
  | true => exact Closed.note hT
  | false => exact Closed.pure ()

/-- Parsers that tell something about the next two tokens without taking them. -/
theorem Closed.of_pair {p : Parser Bool} {f : Token.Kind → Bool}
    (hfinish : ∀ q, p (.finish q) = .ok (false, .finish q))
    (htoken : ∀ k q S, p (.token ⟨k, q⟩ S) =
      .ok (f k || (k.isKeyword .fn && S.front?.any Token.Kind.isName), .token ⟨k, q⟩ S))
    (hf : f (.mark .semicolon) = false) (hinvalid : ∀ {e x}, p (.invalid e) ≠ .ok x) :
    Closed T p fun _ => p := by
  refine ⟨fun {q x} h => by cases (hfinish q).symm.trans h; rfl, ?_⟩
  intro S S' a R hS h
  cases S with
  | invalid e => exact absurd h hinvalid
  | finish q =>
    cases (hfinish q).symm.trans h
    cases continues_finish hS
    refine fun i => ⟨T i, hS i, ?_⟩
    rcases (hT i).cases with ⟨q', hq'⟩ | ⟨q', U, hq'⟩
    · simp only [hq', hfinish]
    · simp only [hq', htoken, hf]
      rfl
  | token t S =>
    cases (htoken t.kind t.position S).symm.trans h
    obtain ⟨q', R', rfl, hR'⟩ := continues_token hS
    refine fun i => ⟨.token ⟨t.kind, q' i⟩ (R' i), .token (hR' i), ?_⟩
    have hname : (R' i).front?.any Token.Kind.isName = S.front?.any Token.Kind.isName := by
      cases S with
      | invalid e => cases hR' i
      | token t₂ S₂ =>
        obtain ⟨q₂, R₂, hR₂, -⟩ := (hR' i).of_token
        rw [hR₂]
        rfl
      | finish q₂ =>
        rw [(hR' i).of_finish]
        rcases (hT i).cases with ⟨q', hq'⟩ | ⟨q', U, hq'⟩ <;> rw [hq'] <;> rfl
    simp only [htoken, hname]

theorem Closed.atFunction : Closed T atFunction fun _ => atFunction :=
  Closed.of_pair hT (f := fun _ => false) (fun _ => rfl)
    (fun k q S => by rw [atFunction_token, Bool.false_or]) rfl (by intro e x h; cases h)

theorem Closed.atStatement : Closed T atStatement fun _ => atStatement :=
  Closed.of_pair hT (fun _ => rfl) (fun k q S => atStatement_token k q S) rfl
    (by intro e x h; cases h)

end Primitives

theorem Inside.lookKind : Inside T lookKind fun _ => lookKind := by
  refine ⟨fun h => by cases h; rfl, ?_⟩
  intro S S' a R hS h
  cases S with
  | invalid e => cases h
  | finish q =>
    cases h
    exact .inl ⟨q, rfl⟩
  | token t S =>
    cases h
    obtain ⟨q', R', rfl, hR'⟩ := continues_token hS
    exact .inr fun i => ⟨_, hS i, rfl⟩

theorem Inside.advance : Inside T advance fun _ => advance := by
  refine ⟨fun h => by cases h; rfl, ?_⟩
  intro S S' a R hS h
  cases S with
  | invalid e => cases h
  | finish q =>
    cases h
    exact .inl ⟨q, rfl⟩
  | token t S =>
    cases h
    obtain ⟨q', R', rfl, hR'⟩ := continues_token hS
    exact .inr fun i => ⟨R' i, hR' i, rfl⟩

theorem Demands.expect {m : Mark} {f : Position → Parser β} : Demands (expect m >>= f) := by
  intro q x h
  cases h

section Expect

variable {m : Mark} {f : α → Parser β} {f' : ι → α → Parser β} {p : Parser α} {p' : ι → Parser α}
  {c : Token.Kind → Bool} {G : β → β → Prop} {n : Nat}

theorem Trailing.expect {k : Parser β} {k' : ι → Parser β} (hk : Trailing T c G n k k') :
    Trailing T c G n (expect m >>= fun _ => k) fun i => expect m >>= fun _ => k' i := by
  refine ⟨fun h => absurd h (Demands.expect _ _), ?_⟩
  intro S S' b R hS h
  obtain ⟨q, R₁, hq, hb⟩ := bind_eq_ok h
  cases expect_eq_ok hq
  obtain ⟨q', R', rfl, hR'⟩ := continues_token hS
  have hex : ∀ i, (Parser.expect m >>= fun _ => k' i) (.token ⟨.mark m, q' i⟩ (R' i)) = k' i (R' i) :=
    fun i => bind_of_ok (expect_mark _ _ m)
  simp only [hex]
  exact hk.agrees hR' hb

theorem Inside.expect {m : Mark} {k : Parser β} {k' : ι → Parser β} (hk : Inside T k k') :
    Inside T (expect m >>= fun _ => k) fun i => expect m >>= fun _ => k' i := by
  refine ⟨fun h => absurd h (Demands.expect _ _), ?_⟩
  intro S S' b R hS h
  obtain ⟨q, R₁, hq, hb⟩ := bind_eq_ok h
  cases expect_eq_ok hq
  obtain ⟨q', R', rfl, hR'⟩ := continues_token hS
  have hex : ∀ i, (Parser.expect m >>= fun _ => k' i) (.token ⟨.mark m, q' i⟩ (R' i)) = k' i (R' i) :=
    fun i => bind_of_ok (expect_mark _ _ m)
  simp only [hex]
  exact hk.agrees hR' hb

theorem Closed.expect (hT : ∀ i, (T i).Seam) {k : Parser β} {k' : ι → Parser β}
    (hk : Closed T k k') :
    Closed T (expect m >>= fun _ => k) fun i => expect m >>= fun _ => k' i :=
  Trailing.closed (c := fun _ => false) (G := fun _ _ => True) hT (Trailing.expect hk.trailing)

/-- A closing mark brings what stands before it to stop before a token. -/
theorem Inside.upTo (hp : Inside T p p') (hf : ∀ a, Trailing T c G n (f a) fun i => f' i a) :
    Trailing T c G n (p >>= fun a => Parser.expect m >>= fun _ => f a)
      fun i => p' i >>= fun a => Parser.expect m >>= fun _ => f' i a :=
  hp.bind_trailing (fun a => Trailing.expect (hf a)) fun _ => Demands.expect

theorem Inside.upTo_pure (hT : ∀ i, (T i).Seam) (hp : Inside T p p') (h : α → β) :
    Closed T (p >>= fun a => Parser.expect m >>= fun _ => pure (h a))
      fun i => p' i >>= fun a => Parser.expect m >>= fun _ => pure (h a) :=
  hp.bind_closed hT (fun a => Closed.expect hT (Closed.pure (h a))) fun _ => Demands.expect

end Expect

/-- The members of `r'` do on longer streams what those of `r` do, with at least the same bound;
neither limits the length of functions. -/
structure Extends (T : ι → Stream) (n : Nat) (r : Sorts) (r' : ι → Sorts) : Prop where
  expression : ∀ records, Trailing T Token.Kind.extends_ Expr.Grown n (r.expression records)
    fun i => (r' i).expression records
  statement : Trailing T (fun _ => false) Stmt.Grown n r.statement fun i => (r' i).statement
  bound : ∀ i, r.bound ≤ (r' i).bound
  limit : r.limit = none
  limits : ∀ i, (r' i).limit = none

theorem exists_succ_bound {b : Nat} {b' : ι → Nat} (h : ∀ i, b + 1 ≤ b' i) :
    ∃ d : ι → Nat, (b' = fun i => d i + 1) ∧ ∀ i, b ≤ d i :=
  ⟨fun i => b' i - 1, funext fun i => (Nat.sub_add_cancel (Nat.le_trans (by omega) (h i))).symm,
    fun i => Nat.le_sub_one_of_lt (h i)⟩

theorem Closed.exhausted {p' : ι → Parser α} : Closed T exhausted p' :=
  ⟨fun h => absurd h exhausted_ne_ok, fun _ h => absurd h exhausted_ne_ok⟩

theorem Closed.refuse (w : Wanted) {p' : ι → Parser α} : Closed T (refuse w) p' :=
  ⟨fun h => absurd h refuse_ne_ok, fun _ h => absurd h refuse_ne_ok⟩

section Brackets

variable (hT : ∀ i, (T i).Seam)
include hT

theorem Inside.paramsRest {b : Nat} {b' : ι → Nat} (hb : ∀ i, b ≤ b' i) :
    Inside T (paramsRest b) fun i => paramsRest (b' i) := by
  induction b generalizing b' with
  | zero => exact Closed.exhausted.inside
  | succ b ih =>
    obtain ⟨d, rfl, hd⟩ := exists_succ_bound hb
    simp only [Parser.paramsRest]
    refine (Closed.atMark hT (by decide)).inside.bind fun close => ?_
    cases close with
    | true => exact (Closed.pure []).inside
    | false =>
      refine (Closed.expectName hT _).inside.bind fun p => ?_
      refine (Closed.accept hT (by decide)).inside.bind fun comma => ?_
      cases comma with
      | true => exact (ih hd).bind fun ps => (Closed.pure _).inside
      | false =>
        refine (Closed.atMark hT (by decide)).inside.bind fun close => ?_
        cases close with
        | true => exact (Closed.pure _).inside
        | false => exact (Closed.refuse _).inside

theorem Closed.params {b : Nat} {b' : ι → Nat} (hb : ∀ i, b ≤ b' i) :
    Closed T (params b) fun i => params (b' i) :=
  Closed.expect hT ((Inside.paramsRest hT hb).upTo_pure hT fun ps => ps)

variable {n : Nat} {r : Sorts} {r' : ι → Sorts} (hr : Extends T n r r')
include hr

omit hT in
theorem Inside.statements {b : Nat} {b' : ι → Nat} (hb : ∀ i, b ≤ b' i) :
    Inside T (statements r b) fun i => statements (r' i) (b' i) := by
  induction b generalizing b' with
  | zero => exact Closed.exhausted.inside
  | succ b ih =>
    obtain ⟨d, rfl, hd⟩ := exists_succ_bound hb
    simp only [Parser.statements]
    refine Inside.lookKind.bind fun k => ?_
    have hstatement : Inside T (r.statement >>= fun s => Parser.statements r b >>= fun ss =>
        pure (s :: ss)) fun i => (r' i).statement >>= fun s => Parser.statements (r' i) (d i) >>=
          fun ss => pure (s :: ss) :=
      hr.statement.inside.bind fun s => (ih hd).bind fun ss => (Closed.pure _).inside
    split
    · exact (Closed.pure _).inside
    · exact (Closed.pure _).inside
    · exact Inside.advance.bind fun _ => ih hd
    · exact hstatement

theorem Closed.block : Closed T (block r) fun i => block (r' i) := by
  simp only [block_eq]
  exact Closed.expect hT ((Inside.statements hr hr.bound).upTo_pure hT fun body => body)

theorem Closed.functionBody (name : String) :
    Closed T (functionBody r name) fun i => functionBody (r' i) name := by
  rw [functionBody_eq_block hr.limit]
  simp only [functionBody_eq_block (hr.limits _)]
  exact Closed.block hT hr

theorem Inside.expressions {c : Mark} (hc : c ≠ .semicolon) {b : Nat} {b' : ι → Nat}
    (hb : ∀ i, b ≤ b' i) : Inside T (expressions r c b) fun i => expressions (r' i) c (b' i) := by
  induction b generalizing b' with
  | zero => exact Closed.exhausted.inside
  | succ b ih =>
    obtain ⟨d, rfl, hd⟩ := exists_succ_bound hb
    simp only [Parser.expressions]
    refine (Closed.atMark hT hc).inside.bind fun close => ?_
    cases close with
    | true => exact (Closed.pure _).inside
    | false =>
      refine (hr.expression true).inside.bind fun e => ?_
      refine (Closed.accept hT (by decide)).inside.bind fun comma => ?_
      cases comma with
      | true => exact (ih hd).bind fun es => (Closed.pure _).inside
      | false => exact (Closed.pure _).inside

theorem Inside.recordFields {b : Nat} {b' : ι → Nat} (hb : ∀ i, b ≤ b' i) :
    Inside T (recordFields r b) fun i => recordFields (r' i) (b' i) := by
  induction b generalizing b' with
  | zero => exact Closed.exhausted.inside
  | succ b ih =>
    obtain ⟨d, rfl, hd⟩ := exists_succ_bound hb
    simp only [Parser.recordFields]
    refine (Closed.atMark hT (by decide)).inside.bind fun close => ?_
    cases close with
    | true => exact (Closed.pure _).inside
    | false =>
      refine (Closed.expectName hT _).inside.bind fun name => ?_
      refine Inside.expect ?_
      refine (hr.expression true).inside.bind fun e => ?_
      refine (Closed.accept hT (by decide)).inside.bind fun comma => ?_
      cases comma with
      | true => exact (ih hd).bind fun es => (Closed.pure _).inside
      | false => exact (Closed.pure _).inside

theorem Inside.commaExpressions {b : Nat} {b' : ι → Nat} (hb : ∀ i, b ≤ b' i) :
    Inside T (commaExpressions r b) fun i => commaExpressions (r' i) (b' i) := by
  induction b generalizing b' with
  | zero => exact Closed.exhausted.inside
  | succ b ih =>
    obtain ⟨d, rfl, hd⟩ := exists_succ_bound hb
    simp only [Parser.commaExpressions]
    refine (Closed.accept hT (by decide)).inside.bind fun comma => ?_
    cases comma with
    | true =>
      exact (hr.expression true).inside.bind fun e =>
        (ih hd).bind fun es => (Closed.pure _).inside
    | false => exact (Closed.pure _).inside

theorem Inside.commaPairs {b : Nat} {b' : ι → Nat} (hb : ∀ i, b ≤ b' i) :
    Inside T (commaPairs r b) fun i => commaPairs (r' i) (b' i) := by
  induction b generalizing b' with
  | zero => exact Closed.exhausted.inside
  | succ b ih =>
    obtain ⟨d, rfl, hd⟩ := exists_succ_bound hb
    simp only [Parser.commaPairs]
    refine (Closed.accept hT (by decide)).inside.bind fun comma => ?_
    cases comma with
    | false => exact (Closed.pure _).inside
    | true =>
      refine (Closed.atMark hT (by decide)).inside.bind fun close => ?_
      cases close with
      | true => exact (Closed.pure _).inside
      | false =>
        refine (hr.expression true).inside.bind fun key => Inside.expect ?_
        exact (hr.expression true).inside.bind fun value =>
          (ih hd).bind fun ps => (Closed.pure _).inside

theorem Closed.group : Closed T (group r) fun i => group (r' i) := by
  have hcomma := Inside.commaExpressions hT hr hr.bound
  refine Closed.expect hT ?_
  refine (hr.expression true).inside.bind_closed hT (fun e => ?_) fun e =>
    hcomma.demands fun es => ?_
  · refine hcomma.bind_closed hT (fun es => ?_) fun es => ?_
    · cases es with
      | nil => exact Closed.expect hT (Closed.pure e)
      | cons e₂ es => exact Closed.expect hT (Closed.pure _)
    · cases es <;> exact Demands.expect
  · cases es <;> exact Demands.expect

theorem Closed.list : Closed T (list r) fun i => list (r' i) :=
  Closed.expect hT ((Inside.expressions hT hr (by decide) hr.bound).upTo_pure hT _)

theorem Closed.record (type : String) : Closed T (record r type) fun i => record (r' i) type :=
  Closed.expect hT ((Inside.recordFields hT hr hr.bound).upTo_pure hT _)

/-- A brace is closed by its own mark, so what follows does not change it. -/
theorem Closed.brace : Closed T (brace r) fun i => brace (r' i) := by
  have hstatements := Inside.statements hr hr.bound
  have hend : Inside T Parser.endStatement fun _ => Parser.endStatement := Inside.endStatement
  refine Closed.expect hT ?_
  refine Closed.bind hT (Closed.accept hT (by decide)) fun close => ?_
  cases close with
  | true => exact Closed.pure _
  | false =>
    refine Closed.bind hT (Closed.atStatement hT) fun statement => ?_
    cases statement with
    | true => exact hstatements.upTo_pure hT _
    | false =>
      refine (hr.expression true).inside.bind_closed hT (fun first => ?_) fun first => ?_
      · refine Closed.bind hT (Closed.accept hT (by decide)) fun colon => ?_
        cases colon with
        | true =>
          refine (hr.expression true).inside.bind_closed hT (fun v => ?_) fun v => ?_
          · exact (Inside.commaPairs hT hr hr.bound).upTo_pure hT _
          · exact (Inside.commaPairs hT hr hr.bound).demands fun ps => Demands.expect
        | false =>
          refine hend.bind_closed hT (fun _ => ?_) fun _ => ?_
          · exact hstatements.upTo_pure hT _
          · exact hstatements.demands fun ss => Demands.expect
      · refine (Closed.accept hT (by decide)).inside.demands fun colon => ?_
        cases colon with
        | true =>
          exact (hr.expression true).inside.demands fun v =>
            (Inside.commaPairs hT hr hr.bound).demands fun ps => Demands.expect
        | false =>
          exact hend.demands fun _ => hstatements.demands fun ss => Demands.expect

end Brackets

end Parser

end Scripting
