import Scripting.Proofs.Parser.Rounds

/-!
How parsers are put together. Every parser of the grammar looks, takes, refuses, reads an expression
or a statement, goes through rounds, and blames no place but one that it has seen. This is the walk
through the whole grammar, done once; a law of all parsers that asks nothing of the trees they make is
an induction on `Composed`.
-/

namespace Scripting.Parser

/-- The bounds of two loops: one bound for both, or the bounds of the sorts. -/
def Sorts.Bounds (r r' : Sorts) (b b' : Nat) : Prop := b = b' ∨ b = r.bound ∧ b' = r'.bound

theorem Sorts.Bounds.same {r r' : Sorts} (b : Nat) : r.Bounds r' b b := .inl rfl

theorem Sorts.Bounds.own {r r' : Sorts} : r.Bounds r' r.bound r'.bound := .inr ⟨rfl, rfl⟩

/-- The positions at which the same tokens have been seen by two parsers. -/
abbrev Sightings := List (Position × Position)

/-- Two parsers that are put together alike, the first from the sorts `r` and the second from `r'`.
They may find the same tokens at different positions. -/
inductive Composed (r r' : Sorts) :
    (seen : Sightings) → {α : Type} → Parser α → Parser α → Prop
  | pure {seen : Sightings} {α : Type} (a : α) :
    Composed r r' seen (Pure.pure a) (Pure.pure a)
  | bind {seen : Sightings} {α β : Type} {p p' : Parser α}
      {f f' : α → Parser β} (hp : Composed r r' seen p p')
      (hf : ∀ a, Composed r r' seen (f a) (f' a)) :
    Composed r r' seen (p >>= f) (p' >>= f')
  | refuse {seen : Sightings} {α : Type} (w : Wanted) :
    Composed r r' seen (Parser.refuse w : Parser α) (Parser.refuse w)
  | lookKind {seen : Sightings} :
    Composed r r' seen Parser.lookKind Parser.lookKind
  | advance {seen : Sightings} : Composed r r' seen Parser.advance Parser.advance
  | atFunction {seen : Sightings} :
    Composed r r' seen Parser.atFunction Parser.atFunction
  /-- A token that is looked at has been seen, wherever it stands on either side. -/
  | look {seen : Sightings} {α : Type} {f f' : Option Token → Parser α}
      (hfinish : Composed r r' seen (f none) (f' none))
      (htoken : ∀ k q q', Composed r r' ((q, q') :: seen) (f (some ⟨k, q⟩)) (f' (some ⟨k, q'⟩))) :
    Composed r r' seen (Parser.look >>= f) (Parser.look >>= f')
  /-- So has a mark that is taken. -/
  | expect {seen : Sightings} {α : Type} {m : Mark} {f f' : Position → Parser α}
      (hf : ∀ q q', Composed r r' ((q, q') :: seen) (f q) (f' q')) :
    Composed r r' seen (Parser.expect m >>= f) (Parser.expect m >>= f')
  /-- Only what has been seen is blamed, and not for the end of the input. -/
  | fault {seen : Sightings} {α : Type} {f : SyntaxFault} {q q' : Position}
      (hq : (q, q') ∈ seen) (hf : f.kind ≠ .unexpectedEnd) :
    Composed r r' seen (Parser.fault f q : Parser α) (Parser.fault f q')
  | checkLength {seen : Sightings} {name : String} {p p' q q' : Position}
      (hp : (p, p') ∈ seen) (hq : (q, q') ∈ seen) :
    Composed r r' seen (Parser.checkLength r name p q) (Parser.checkLength r' name p' q')
  | expression {seen : Sightings} (records : Bool) :
    Composed r r' seen (r.expression records) (r'.expression records)
  | statement {seen : Sightings} : Composed r r' seen r.statement r'.statement
  | rounds {seen : Sightings} {σ α : Type} {round round' : σ → Parser (Round σ α)}
      {b b' : Nat} (hround : ∀ s, Composed r r' seen (round s) (round' s))
      (hb : r.Bounds r' b b') (s : σ) :
    Composed r r' seen (Parser.rounds round b s) (Parser.rounds round' b' s)

namespace Composed

variable {r r' : Sorts} {seen : Sightings} {α : Type}

theorem ite {c : Bool} {p p' q q' : Parser α} (hp : Composed r r' seen p p')
    (hq : Composed r r' seen q q') :
    Composed r r' seen (if c then p else q) (if c then p' else q') := by
  cases c
  · exact hq
  · exact hp

theorem atMark (m : Mark) : Composed r r' seen (atMark m) (atMark m) := by
  refine .bind .lookKind fun k => ?_
  split <;> exact .pure _

theorem atKeyword (w : Keyword) : Composed r r' seen (atKeyword w) (atKeyword w) := by
  refine .bind .lookKind fun k => ?_
  split <;> exact .pure _

theorem accept (m : Mark) : Composed r r' seen (accept m) (accept m) :=
  .bind (.atMark m) fun _ => .ite (.bind .advance fun _ => .pure _) (.pure _)

theorem acceptKeyword (w : Keyword) : Composed r r' seen (acceptKeyword w) (acceptKeyword w) :=
  .bind (.atKeyword w) fun _ => .ite (.bind .advance fun _ => .pure _) (.pure _)

theorem expectKeyword (w : Keyword) : Composed r r' seen (expectKeyword w) (expectKeyword w) :=
  .bind (.atKeyword w) fun _ => .ite .advance (.refuse _)

theorem expectName (w : Wanted) : Composed r r' seen (expectName w) (expectName w) := by
  refine .bind .lookKind fun k => ?_
  split
  · exact .bind .advance fun _ => .pure _
  · exact .refuse _

theorem expectText : Composed r r' seen expectText expectText := by
  refine .bind .lookKind fun k => ?_
  split
  · exact .bind .advance fun _ => .pure _
  · exact .refuse _

theorem endStatement : Composed r r' seen endStatement endStatement :=
  .bind (.accept _) fun _ => .pure _

theorem typeNote : Composed r r' seen typeNote typeNote := by
  refine .bind (.accept _) fun _ => .ite (.bind .lookKind fun k => ?_) (.pure _)
  split
  · exact .advance
  · exact .pure _

theorem atStatement : Composed r r' seen atStatement atStatement := by
  refine .bind .lookKind fun k => ?_
  split
  · exact .ite (.pure _) .atFunction
  · exact .pure _

theorem params {b b' : Nat} (hb : r.Bounds r' b b') :
    Composed r r' seen (params b) (params b') := by
  have hround : ∀ {seen}, Composed r r' seen paramRound paramRound := by
    refine .bind (.atMark _) fun _ => .ite (.pure _) (.bind (.expectName _) fun p => ?_)
    refine .bind (.accept _) fun _ => .ite (.pure _) ?_
    exact .bind (.atMark _) fun _ => .ite (.pure _) (.refuse _)
  refine .expect fun _ _ => .bind ?_ fun _ => .expect fun _ _ => .pure _
  rw [paramsRest_eq, paramsRest_eq]
  exact .rounds (fun _ => hround) hb ()

theorem statements {b b' : Nat} (hb : r.Bounds r' b b') :
    Composed r r' seen (statements r b) (statements r' b') := by
  rw [statements_eq, statements_eq]
  refine .rounds (fun _ => .bind .lookKind fun k => ?_) hb ()
  split
  · exact .pure _
  · exact .pure _
  · exact .bind .advance fun _ => .pure _
  · exact .bind .statement fun _ => .pure _

theorem block : Composed r r' seen (block r) (block r') := by
  rw [block_eq, block_eq]
  exact .expect fun _ _ => .bind (.statements .own) fun _ => .expect fun _ _ => .pure _

theorem functionBody (name : String) :
    Composed r r' seen (functionBody r name) (functionBody r' name) := by
  simp only [Parser.functionBody, braced, bind_assoc, pure_bind]
  refine .expect fun p p' => .bind (.statements .own) fun _ => .expect fun q q' => ?_
  exact .bind (.checkLength (by simp) (by simp)) fun _ => .pure _

theorem expressions (closing : Mark) {b b' : Nat} (hb : r.Bounds r' b b') :
    Composed r r' seen (expressions r closing b) (expressions r' closing b') := by
  rw [expressions_eq, expressions_eq]
  refine .rounds (fun _ => .bind (.atMark _) fun _ => .ite (.pure _) ?_) hb ()
  exact .bind (.expression _) fun _ => .bind (.accept _) fun _ => .ite (.pure _) (.pure _)

theorem recordFields {b b' : Nat} (hb : r.Bounds r' b b') :
    Composed r r' seen (recordFields r b) (recordFields r' b') := by
  rw [recordFields_eq, recordFields_eq]
  refine .rounds (fun _ => .bind (.atMark _) fun _ => .ite (.pure _) ?_) hb ()
  refine .bind (.expectName _) fun _ => .expect fun _ _ => .bind (.expression _) fun _ => ?_
  exact .bind (.accept _) fun _ => .ite (.pure _) (.pure _)

theorem commaExpressions {b b' : Nat} (hb : r.Bounds r' b b') :
    Composed r r' seen (commaExpressions r b) (commaExpressions r' b') := by
  rw [commaExpressions_eq, commaExpressions_eq]
  refine .rounds (fun _ => .bind (.accept _) fun _ => .ite ?_ (.pure _)) hb ()
  exact .bind (.expression _) fun _ => .pure _

theorem commaPairs {b b' : Nat} (hb : r.Bounds r' b b') :
    Composed r r' seen (commaPairs r b) (commaPairs r' b') := by
  rw [commaPairs_eq, commaPairs_eq]
  refine .rounds (fun _ => .bind (.accept _) fun _ => .ite ?_ (.pure _)) hb ()
  refine .bind (.atMark _) fun _ => .ite (.pure _) (.bind (.expression _) fun _ => ?_)
  exact .expect fun _ _ => .bind (.expression _) fun _ => .pure _

theorem group : Composed r r' seen (group r) (group r') := by
  refine .expect fun _ _ => .bind (.expression _) fun _ => .bind (.commaExpressions .own) fun es => ?_
  split <;> exact .expect fun _ _ => .pure _

theorem list : Composed r r' seen (list r) (list r') :=
  .expect fun _ _ => .bind (.expressions _ .own) fun _ => .expect fun _ _ => .pure _

theorem record (type : String) : Composed r r' seen (record r type) (record r' type) :=
  .expect fun _ _ => .bind (.recordFields .own) fun _ => .expect fun _ _ => .pure _

theorem brace : Composed r r' seen (brace r) (brace r') := by
  refine .expect fun _ _ => .bind (.accept _) fun _ => .ite (.pure _) ?_
  refine .bind .atStatement fun _ => .ite ?_ (.bind (.expression _) fun _ => ?_)
  · exact .bind (.statements .own) fun _ => .expect fun _ _ => .pure _
  · refine .bind (.accept _) fun _ => .ite ?_ ?_
    · exact .bind (.expression _) fun _ => .bind (.commaPairs .own) fun _ =>
        .expect fun _ _ => .pure _
    · exact .bind .endStatement fun _ => .bind (.statements .own) fun _ =>
        .expect fun _ _ => .pure _

theorem lambda : Composed r r' seen (lambda r) (lambda r') := by
  refine .bind (.expectKeyword _) fun _ => .bind (.params .own) fun _ => .bind .typeNote fun _ => ?_
  refine .bind (.atMark _) fun _ => .ite ?_ ?_
  · exact .bind (.functionBody _) fun _ => .pure _
  · exact .bind .statement fun _ => .pure _

theorem primary (records : Bool) : Composed r r' seen (primary r records) (primary r' records) := by
  refine .bind .lookKind fun k => ?_
  split
  · exact .bind .advance fun _ => .pure _
  · exact .bind .advance fun _ => .pure _
  · exact .bind .advance fun _ => .pure _
  · exact .bind .advance fun _ => .pure _
  · refine .bind .advance fun _ => .ite ?_ (.pure _)
    exact .bind (.atMark _) fun _ => .ite (.record _) (.pure _)
  · exact .group
  · exact .list
  · exact .brace
  · exact .lambda
  · exact .refuse _

theorem trailers {b b' : Nat} (hb : r.Bounds r' b b') (e : Expr) :
    Composed r r' seen (trailers r b e) (trailers r' b' e) := by
  rw [trailers_eq, trailers_eq]
  refine .rounds (fun e => .bind .lookKind fun k => ?_) hb e
  split
  · exact .bind .advance fun _ => .bind (.expressions _ .own) fun _ => .expect fun _ _ => .pure _
  · exact .bind .advance fun _ => .bind (.expectName _) fun _ => .pure _
  · exact .bind .advance fun _ => .bind (.expression _) fun _ => .expect fun _ _ => .pure _
  · exact .pure _

theorem trailed (records : Bool) : Composed r r' seen (trailed r records) (trailed r' records) :=
  .bind (.primary _) fun _ => .trailers .own _

theorem signed (records : Bool) {b b' : Nat} (hb : r.Bounds r' b b') :
    Composed r r' seen (signed r records b) (signed r' records b') := by
  rw [signed_eq, signed_eq]
  refine .rounds (fun _ => .bind (.accept _) fun _ => .ite (.pure _) ?_) hb ()
  refine .bind (.accept _) fun _ => .ite (.pure _) (.bind (.trailed _) fun _ => .pure _)

theorem power (records : Bool) {b b' : Nat} (hb : r.Bounds r' b b') :
    Composed r r' seen (power r records b) (power r' records b') := by
  rw [power_eq, power_eq]
  refine .rounds (fun _ => .bind (.signed _ .own) fun _ => ?_) hb ()
  exact .bind (.accept _) fun _ => .ite (.pure _) (.pure _)

theorem level {op? : Mark → Option BinaryOp} {operand operand' : Parser Expr}
    (ho : Composed r r' seen operand operand') :
    Composed r r' seen (level r op? operand) (level r' op? operand') := by
  refine .bind ho fun e => ?_
  rw [chain_eq, chain_eq]
  refine .rounds (fun e => .bind .lookKind fun k => ?_) .own e
  split
  · split
    · exact .bind .advance fun _ => .bind ho fun _ => .pure _
    · exact .pure _
  · exact .pure _

theorem product (records : Bool) : Composed r r' seen (product r records) (product r' records) :=
  .level (.power _ .own)

theorem sum (records : Bool) : Composed r r' seen (sum r records) (sum r' records) :=
  .level (.product _)

theorem comparison (records : Bool) :
    Composed r r' seen (comparison r records) (comparison r' records) := .level (.sum _)

theorem equality (records : Bool) :
    Composed r r' seen (equality r records) (equality r' records) := .level (.comparison _)

theorem conjunction (records : Bool) :
    Composed r r' seen (conjunction r records) (conjunction r' records) := .level (.equality _)

theorem disjunction (records : Bool) :
    Composed r r' seen (disjunction r records) (disjunction r' records) := .level (.conjunction _)

theorem assignment (records : Bool) :
    Composed r r' seen (assignment r records) (assignment r' records) := by
  refine .bind (.disjunction _) fun target => .look (.pure _) fun k q q' => ?_
  cases k with
  | mark m =>
    cases m with
    | assign =>
      refine .bind .advance fun _ => .bind (.expression _) fun value => ?_
      cases target with
      | name n => exact .pure _
      | _ => exact .fault List.mem_cons_self (by simp [SyntaxFault.kind])
    | _ => exact .pure _
  | _ => exact .pure _

theorem binding (w : Wanted) : Composed r r' seen (binding r w) (binding r' w) :=
  .bind (.expectName _) fun _ => .bind .typeNote fun _ => .expect fun _ _ =>
    .bind (.expression _) fun _ => .bind .endStatement fun _ => .pure _

theorem function : Composed r r' seen (function r) (function r') :=
  .bind (.expectKeyword _) fun _ => .bind (.expectName _) fun _ => .bind (.params .own) fun _ =>
    .bind .typeNote fun _ => .bind (.functionBody _) fun _ => .pure _

theorem returned : Composed r r' seen (returned r) (returned r') := by
  have hend : ∀ v, Composed r r' seen (Parser.endStatement >>= fun _ => Pure.pure (Stmt.return_ v))
      (Parser.endStatement >>= fun _ => Pure.pure (Stmt.return_ v)) :=
    fun v => .bind .endStatement fun _ => .pure _
  refine .bind .lookKind fun k => ?_
  split
  · exact .bind (.pure _) hend
  · exact .bind (.pure _) hend
  · exact .bind (.pure _) hend
  · rw [map_eq_pure_bind, map_eq_pure_bind]
    exact .bind (.bind (.expression _) fun _ => .pure _) hend

theorem conditional : Composed r r' seen (conditional r) (conditional r') := by
  refine .bind (.expression _) fun _ => .bind .block fun _ => .bind (.acceptKeyword _) fun _ => ?_
  refine .ite (.bind (.atKeyword _) fun _ => .ite ?_ ?_) (.pure _)
  · exact .bind .statement fun _ => .pure _
  · exact .bind .block fun _ => .pure _

theorem whileLoop : Composed r r' seen (whileLoop r) (whileLoop r') :=
  .bind (.expression _) fun _ => .bind .block fun _ => .pure _

theorem forLoop : Composed r r' seen (forLoop r) (forLoop r') :=
  .bind (.expectName _) fun _ => .bind (.expectKeyword _) fun _ => .bind (.expression _) fun _ =>
    .expect fun _ _ => .bind (.expression _) fun _ => .bind .block fun _ => .pure _

theorem printed : Composed r r' seen (printed r) (printed r') :=
  .bind (.expression _) fun _ => .bind (.commaExpressions .own) fun _ =>
    .bind .endStatement fun _ => .pure _

theorem typeMembers (type : String) {b b' : Nat} (hb : r.Bounds r' b b') :
    Composed r r' seen (typeMembers r type b) (typeMembers r' type b') := by
  rw [typeMembers_eq, typeMembers_eq]
  refine .rounds (fun _ => .bind .lookKind fun k => ?_) hb ()
  split
  · exact .pure _
  · exact .bind .advance fun _ => .pure _
  · exact .bind .advance fun _ => .pure _
  · exact .bind .function fun _ => .pure _
  · exact .bind .advance fun _ => .expect fun _ _ => .bind (.expression _) fun _ => .pure _
  · exact .refuse _

theorem typeDeclaration : Composed r r' seen (typeDeclaration r) (typeDeclaration r') :=
  .bind (.expectName _) fun _ => .expect fun _ _ => .bind (.typeMembers _ .own) fun _ =>
    .expect fun _ _ => .pure _

/-- The keyword decides what is read behind it, not the sorts. -/
theorem keywordStatement (w : Keyword) :
    (keywordStatement? r w = none ∧ keywordStatement? r' w = none) ∨
      ∃ p p', keywordStatement? r w = some p ∧ keywordStatement? r' w = some p' ∧
        Composed r r' seen p p' := by
  have hend : ∀ s, Composed r r' seen (Parser.endStatement >>= fun _ => Pure.pure s : Parser Stmt)
      (Parser.endStatement >>= fun _ => Pure.pure s) := fun s => .bind .endStatement fun _ => .pure s
  cases w with
  | let_ => exact .inr ⟨_, _, rfl, rfl, .bind (.binding _) fun _ => .pure _⟩
  | const => exact .inr ⟨_, _, rfl, rfl, .bind (.binding _) fun _ => .pure _⟩
  | return_ => exact .inr ⟨_, _, rfl, rfl, .returned⟩
  | if_ => exact .inr ⟨_, _, rfl, rfl, .conditional⟩
  | while_ => exact .inr ⟨_, _, rfl, rfl, .whileLoop⟩
  | for_ => exact .inr ⟨_, _, rfl, rfl, .forLoop⟩
  | import_ => exact .inr ⟨_, _, rfl, rfl, .bind .expectText fun _ => hend _⟩
  | break_ => exact .inr ⟨_, _, rfl, rfl, hend _⟩
  | continue_ => exact .inr ⟨_, _, rfl, rfl, hend _⟩
  | print => exact .inr ⟨_, _, rfl, rfl, .printed⟩
  | type => exact .inr ⟨_, _, rfl, rfl, .typeDeclaration⟩
  | _ => exact .inl ⟨rfl, rfl⟩

theorem statementOf : Composed r r' seen (statementOf r) (statementOf r') := by
  have hexpr : ∀ {seen}, Composed r r' seen (expressionStatement r) (expressionStatement r') :=
    .bind (.expression _) fun _ => .bind .endStatement fun _ => .pure _
  refine .look hexpr fun k q q' => ?_
  cases k with
  | keyword w =>
    rcases @keywordStatement r r' ((q, q') :: seen) w with ⟨h, h'⟩ | ⟨p, p', h, h', hp⟩
    · simp only [h, h']
      refine .ite (.fault List.mem_cons_self (by simp [SyntaxFault.kind])) ?_
      exact .bind .atFunction fun _ => .ite .function hexpr
    · simp only [h, h']
      exact .bind .advance fun _ => hp
  | mark m =>
    cases m with
    | lbrace => exact .bind .block fun _ => .pure _
    | _ => exact hexpr
  | _ => exact hexpr

theorem program {b b' : Nat} (hb : r.Bounds r' b b') :
    Composed r r' seen (program r b) (program r' b') := by
  rw [program_eq, program_eq]
  refine .rounds (fun _ => .bind .lookKind fun k => ?_) hb ()
  split
  · exact .pure _
  · exact .bind .advance fun _ => .pure _
  · exact .bind .statement fun _ => .pure _

end Composed

end Scripting.Parser
