import Scripting.Proofs.Parser.Ladder

/-!
Statements and programs on a longer stream. A statement takes one semicolon for itself and one for
every function literal without braces that is open at its end.
-/

namespace Scripting.Parser

variable {ι : Type} {T : ι → Stream}

section Statements

variable (hT : ∀ i, (T i).Seam) {n : Nat} {r : Sorts} {r' : ι → Sorts} (hr : Extends T n r r')
include hT hr

/-- The name and value of a `let` or `const` statement under a constructor. -/
theorem Trailing.binding (w : Wanted) {h : Name × Expr → Stmt}
    (hG : ∀ {n e e'}, Expr.Grown e e' → Stmt.Grown (h (n, e)) (h (n, e'))) :
    Trailing T (fun _ => false) Stmt.Grown (n + 1)
      (binding r w >>= fun b => pure (h b)) fun i => binding (r' i) w >>= fun b => pure (h b) := by
  simp only [Parser.binding, bind_assoc, pure_bind]
  refine (Closed.expectName hT _).bind_trailing fun v => ?_
  refine (Closed.typeNote hT).bind_trailing fun _ => ?_
  exact Trailing.expect ((hr.expression true).ended hT fun hg => hG hg)

theorem Closed.function : Closed T (function r) fun i => function (r' i) := by
  refine Closed.bind hT (Closed.expectKeyword hT _) fun _ => ?_
  refine Closed.bind hT (Closed.expectName hT _) fun v => ?_
  refine Closed.bind hT (Closed.params hT hr.bound) fun ps => ?_
  refine Closed.bind hT (Closed.typeNote hT) fun _ => ?_
  exact Closed.bind hT (Closed.functionBody hT hr _) fun body => Closed.pure _

omit hr in
/-- A statement that is complete before its semicolon. -/
theorem Trailing.endStatement {α : Type} {G : α → α → Prop} (a : α) :
    Trailing T (fun _ => false) G (n + 1) (endStatement >>= fun _ => pure a)
      fun _ => endStatement >>= fun _ => pure a := by
  have h : Trailing T (fun _ => false) G (n + 1)
      (pure a >>= fun a => Parser.endStatement >>= fun _ => pure a)
      fun _ => pure a >>= fun a => Parser.endStatement >>= fun _ => pure a :=
    (Closed.pure a).trailing.ended (G := G) hT fun hg => hg
  simpa only [pure_bind] using h

theorem Trailing.returned :
    Trailing T (fun _ => false) Stmt.Grown (n + 1) (returned r) fun i => returned (r' i) := by
  have hnone : Trailing T (fun _ => false) Stmt.Grown (n + 1)
      (Parser.endStatement >>= fun _ => pure (.return_ none))
      fun _ => Parser.endStatement >>= fun _ => pure (.return_ none) :=
    Trailing.endStatement hT _
  refine ⟨fun h => by cases h; rfl, ?_⟩
  intro S S' a R hS h
  cases S with
  | invalid e => cases h
  | finish q =>
    cases continues_finish hS
    have hfinish : ∀ i, Parser.returned (r' i) (T i) =
        (Parser.endStatement >>= fun _ => pure (.return_ none)) (T i) := by
      intro i
      rcases (hT i).cases with ⟨q', hq'⟩ | ⟨q', U, hq'⟩
      · rw [hq', returned_finish]
      · rw [hq', returned_none _ _ _ (.inl rfl)]
    simp only [hfinish]
    exact hnone.agrees hS h
  | token t S =>
    obtain ⟨q', R', rfl, hR'⟩ := continues_token hS
    obtain ⟨k, q⟩ := t
    by_cases hm : k = .mark .semicolon ∨ k = .mark .rbrace
    · have hk : ∀ r p s, Parser.returned r (.token ⟨k, p⟩ s) =
          (Parser.endStatement >>= fun _ => pure (.return_ none)) (.token ⟨k, p⟩ s) := by
        intro r p s
        rcases hm with rfl | rfl
        · exact returned_none r p s (.inl rfl)
        · exact returned_none r p s (.inr rfl)
      simp only [hk] at h ⊢
      exact hnone.agrees hS h
    · simp only [returned_some _ _ _ (fun hk => hm (.inl hk)) fun hk => hm (.inr hk)] at h ⊢
      refine ((hr.expression true).ended hT fun {e e'} hg => ?_).agrees hS h
      change sizeOf (Stmt.return_ (some e)) < sizeOf (Stmt.return_ (some e'))
      simp only [Stmt.return_.sizeOf_spec, Option.some.sizeOf_spec]
      have := hg.1
      omega

omit hT hr in
theorem Demands.block : Demands (block r) := by
  rw [block_eq]
  exact Demands.expect

/-- An `if` statement ends like its last branch. -/
theorem Trailing.conditional :
    Trailing T (fun _ => false) Stmt.Grown n (conditional r) fun i => conditional (r' i) := by
  refine (hr.expression false).inside.bind_trailing (fun c => ?_) fun c => Demands.block.bind
  refine (Closed.block hT hr).bind_trailing fun t => ?_
  refine (Closed.acceptKeyword hT _).bind_trailing fun else_ => ?_
  cases else_ with
  | false => exact (Closed.pure _).trailing
  | true =>
    refine (Closed.atKeyword hT _).bind_trailing fun if_ => ?_
    cases if_ with
    | true =>
      refine hr.statement.map fun {s s'} h => ?_
      have : sizeOf s < sizeOf s' := h
      change sizeOf (Stmt.if_ c t (some [s])) < sizeOf (Stmt.if_ c t (some [s']))
      simp only [Stmt.if_.sizeOf_spec, Option.some.sizeOf_spec, List.cons.sizeOf_spec]
      omega
    | false => exact (Closed.bind hT (Closed.block hT hr) fun e => Closed.pure _).trailing

theorem Closed.whileLoop : Closed T (whileLoop r) fun i => whileLoop (r' i) := by
  refine (hr.expression false).inside.bind_closed hT (fun c => ?_) fun c => Demands.block.bind
  exact Closed.bind hT (Closed.block hT hr) fun body => Closed.pure _

theorem Closed.forLoop : Closed T (forLoop r) fun i => forLoop (r' i) := by
  refine Closed.bind hT (Closed.expectName hT _) fun v => ?_
  refine Closed.bind hT (Closed.expectKeyword hT _) fun _ => ?_
  refine (hr.expression false).inside.bind_closed hT (fun a => ?_) fun a => Demands.expect
  refine Closed.expect hT ?_
  refine (hr.expression false).inside.bind_closed hT (fun b => ?_) fun b => Demands.block.bind
  exact Closed.bind hT (Closed.block hT hr) fun body => Closed.pure _

/-- How the expressions behind a first comma grow. -/
def GrownBehind (es es' : List Expr) : Prop := es ≠ [] ∧ es' ≠ [] ∧ sizeOf es < sizeOf es'

omit hT hr in
/-- Commas behind an expression. -/
theorem Tail.commaExpressions {β : Type} {G : β → β → Prop} {h : Expr → List Expr → β}
    (hG : ∀ {e e'} es, Expr.Grown e e' → G (h e []) (h e' es)) {b : Nat} {d : ι → Nat} :
    Tail (fun _ => false) Expr.Grown G (fun e => h e [])
      (fun e => commaExpressions r (b + 1) >>= fun es => pure (h e es))
      fun i e => commaExpressions (r' i) (d i + 1) >>= fun es => pure (h e es) where
  idle _ _ := rfl
  stop := by
    rintro i e S (⟨q, rfl⟩ | ⟨k, q, S, rfl, hk⟩)
    · rfl
    · have hcomma : k.isMark .comma = false := by
        refine Bool.eq_false_iff.mpr fun hm => ?_
        cases Token.Kind.isMark_iff.mp hm
        simp [Token.Kind.opens] at hk
      refine bind_of_ok ?_
      rw [Parser.commaExpressions, bind_of_ok (accept_token k q S .comma), hcomma]
      rfl
  take _ _ _ _ _ _ h := Bool.noConfusion h
  grow := by
    intro i e e' S x hgrown hx
    obtain ⟨es, S₁, -, hpure⟩ := bind_eq_ok hx
    cases hpure
    exact hG es hgrown

theorem Trailing.commaExpressions {b : Nat} {b' : ι → Nat} (hb : ∀ i, b ≤ b' i) :
    Trailing T Token.Kind.extends_ GrownBehind n (commaExpressions r b)
      fun i => commaExpressions (r' i) (b' i) := by
  induction b generalizing b' with
  | zero => exact Closed.exhausted.trailing
  | succ b ih =>
    obtain ⟨d, rfl, hd⟩ := exists_succ_bound hb
    simp only [Parser.commaExpressions]
    refine (Closed.accept hT (by decide)).bind_trailing fun comma => ?_
    cases comma with
    | false => exact (Closed.pure _).trailing
    | true =>
      refine Trailing.bind_loop hT
        (fun b e => Parser.commaExpressions r b >>= fun es => pure (e :: es))
        (fun i b e => Parser.commaExpressions (r' i) b >>= fun es => pure (e :: es)) (fun _ => (Bool.or_false _).symm) (fun _ h => Bool.noConfusion h)
        (hr.expression true) ?_ (fun b d => Tail.commaExpressions (h := fun e es => e :: es) ?_)
        hd fun e => (ih hd).map ?_
      · intro e S x h
        obtain ⟨es, S₁, h, -⟩ := bind_eq_ok h
        exact exhausted_ne_ok h
      · intro e e' es hg
        refine ⟨List.cons_ne_nil _ _, List.cons_ne_nil _ _, ?_⟩
        have := hg.1
        simp only [List.cons.sizeOf_spec, List.nil.sizeOf_spec]
        have : 0 < sizeOf es := by cases es <;> simp +arith
        omega
      · intro es es' hg
        refine ⟨List.cons_ne_nil _ _, List.cons_ne_nil _ _, ?_⟩
        simp only [List.cons.sizeOf_spec]
        exact Nat.add_lt_add_left hg.2.2 _

omit hT hr in
theorem sizeOf_printing_single_le (e : Expr) : sizeOf (printing [e]) ≤ 1 + sizeOf e := by
  cases e with
  | tuple es => simp [printing]
  | _ => simp [printing]

omit hT hr in
/-- A printed list grows by further expressions. -/
theorem printing_grown {e e' : Expr} (es : List Expr) (h : e.Grown e') :
    (printing [e]).Grown (printing (e' :: es)) := by
  have hle := sizeOf_printing_single_le e
  have hlt := h.1
  unfold Stmt.Grown
  cases es with
  | nil =>
    rw [printing_single h.2]
    simp only [Stmt.print.sizeOf_spec]
    omega
  | cons e₂ es =>
    rw [printing_cons_cons]
    simp only [Stmt.printAll.sizeOf_spec, List.cons.sizeOf_spec]
    omega

omit hT hr in
theorem printing_grown_behind (e : Expr) {es es' : List Expr} (h : GrownBehind es es') :
    (printing (e :: es)).Grown (printing (e :: es')) := by
  obtain ⟨hes, hes', hlt⟩ := h
  obtain ⟨d, ds, rfl⟩ := List.exists_cons_of_ne_nil hes
  obtain ⟨d', ds', rfl⟩ := List.exists_cons_of_ne_nil hes'
  rw [printing_cons_cons, printing_cons_cons]
  simp only [Stmt.Grown, Stmt.printAll.sizeOf_spec, List.cons.sizeOf_spec] at hlt ⊢
  omega

theorem Trailing.printed :
    Trailing T (fun _ => false) Stmt.Grown (n + 1) (printed r) fun i => printed (r' i) := by
  have hall : Trailing T Token.Kind.extends_ Stmt.Grown n
      (r.expression true >>= fun e => Parser.commaExpressions r r.bound >>= fun es =>
        pure (printing (e :: es)))
      fun i => (r' i).expression true >>= fun e =>
        Parser.commaExpressions (r' i) (r' i).bound >>= fun es => pure (printing (e :: es)) := by
    refine Trailing.bind_loop hT
      (fun b e => Parser.commaExpressions r b >>= fun es => pure (printing (e :: es)))
      (fun i b e => Parser.commaExpressions (r' i) b >>= fun es => pure (printing (e :: es)))
      (fun _ => (Bool.or_false _).symm) (fun _ h => Bool.noConfusion h) (hr.expression true) ?_
      (fun b d => Tail.commaExpressions (h := fun e es => printing (e :: es)) printing_grown)
      hr.bound fun e => (Trailing.commaExpressions hT hr hr.bound).map (printing_grown_behind e)
    intro e S x h
    obtain ⟨es, S₁, h, -⟩ := bind_eq_ok h
    exact exhausted_ne_ok h
  have h := hall.ended (h := fun s => s) hT fun hg => hg
  simp only [bind_assoc, pure_bind] at h
  exact h

theorem Inside.typeMembers (type : String) {b : Nat} {b' : ι → Nat} (hb : ∀ i, b ≤ b' i) :
    Inside T (typeMembers r type b) fun i => typeMembers (r' i) type (b' i) := by
  induction b generalizing b' with
  | zero => exact Closed.exhausted.inside
  | succ b ih =>
    obtain ⟨d, rfl, hd⟩ := exists_succ_bound hb
    simp only [Parser.typeMembers]
    refine Inside.lookKind.bind fun k => ?_
    split
    · exact (Closed.pure _).inside
    · exact Inside.advance.bind fun _ => ih hd
    · exact Inside.advance.bind fun _ => ih hd
    · refine (Closed.function hT hr).inside.bind fun m => (ih hd).bind fun x => ?_
      exact (Closed.pure _).inside
    · refine Inside.advance.bind fun _ => Inside.expect ?_
      refine (hr.expression true).inside.bind fun e => (ih hd).bind fun x => ?_
      exact (Closed.pure _).inside
    · exact (Closed.refuse _).inside

theorem Closed.typeDeclaration : Closed T (typeDeclaration r) fun i => typeDeclaration (r' i) := by
  refine Closed.bind hT (Closed.expectName hT _) fun v => Closed.expect hT ?_
  refine (Inside.typeMembers hT hr v hr.bound).bind_closed hT (fun x => ?_) fun x => Demands.expect
  exact Closed.expect hT (Closed.pure _)

theorem Trailing.keywordStatement (k : Keyword) :
    (keywordStatement? r k = none ∧ ∀ i, keywordStatement? (r' i) k = none) ∨
    ∃ p, ∃ p' : ι → Parser Stmt, keywordStatement? r k = some p ∧
      (∀ i, keywordStatement? (r' i) k = some (p' i)) ∧
        Trailing T (fun _ => false) Stmt.Grown (n + 1) p p' := by
  have hn : n ≤ n + 1 := Nat.le_succ n
  cases k with
  | let_ =>
    refine .inr ⟨_, _, rfl, fun i => rfl, Trailing.binding hT hr _ (h := fun b => .let_ b.1 b.2) ?_⟩
    intro v e e' hg
    change sizeOf (Stmt.let_ v e) < sizeOf (Stmt.let_ v e')
    simp only [Stmt.let_.sizeOf_spec]
    exact Nat.add_lt_add_left hg.1 _
  | const =>
    refine .inr ⟨_, _, rfl, fun i => rfl, Trailing.binding hT hr _ (h := fun b => .const b.1 b.2) ?_⟩
    intro v e e' hg
    change sizeOf (Stmt.const v e) < sizeOf (Stmt.const v e')
    simp only [Stmt.const.sizeOf_spec]
    exact Nat.add_lt_add_left hg.1 _
  | return_ => exact .inr ⟨_, _, rfl, fun i => rfl, Trailing.returned hT hr⟩
  | if_ => exact .inr ⟨_, _, rfl, fun i => rfl, (Trailing.conditional hT hr).mono hn⟩
  | while_ => exact .inr ⟨_, _, rfl, fun i => rfl, (Closed.whileLoop hT hr).trailing⟩
  | for_ => exact .inr ⟨_, _, rfl, fun i => rfl, (Closed.forLoop hT hr).trailing⟩
  | import_ =>
    exact .inr ⟨_, _, rfl, fun i => rfl,
      (Closed.expectText hT).bind_trailing fun path => Trailing.endStatement hT _⟩
  | break_ => exact .inr ⟨_, _, rfl, fun i => rfl, Trailing.endStatement hT _⟩
  | continue_ => exact .inr ⟨_, _, rfl, fun i => rfl, Trailing.endStatement hT _⟩
  | print => exact .inr ⟨_, _, rfl, fun i => rfl, Trailing.printed hT hr⟩
  | type => exact .inr ⟨_, _, rfl, fun i => rfl, (Closed.typeDeclaration hT hr).trailing⟩
  | _ => exact .inl ⟨rfl, fun i => rfl⟩

theorem Trailing.expressionStatement :
    Trailing T (fun _ => false) Stmt.Grown (n + 1) (expressionStatement r)
      fun i => expressionStatement (r' i) := by
  refine (hr.expression true).ended hT fun {e e'} hg => ?_
  change sizeOf (Stmt.expr e) < sizeOf (Stmt.expr e')
  simp only [Stmt.expr.sizeOf_spec]
  exact Nat.add_lt_add_left hg.1 _

/-- What a statement takes from behind the old end of the input. -/
theorem Trailing.statementOf :
    Trailing T (fun _ => false) Stmt.Grown (n + 1) (statementOf r) fun i => statementOf (r' i) := by
  have hexpr := Trailing.expressionStatement hT hr
  refine ⟨fun h => hexpr.stays h, ?_⟩
  intro S S' a R hS h
  cases S with
  | invalid e => cases h
  | finish q =>
    cases continues_finish hS
    have hfinish : ∀ i, Parser.statementOf (r' i) (T i) =
        Parser.expressionStatement (r' i) (T i) := by
      intro i
      rcases (hT i).cases with ⟨q', hq'⟩ | ⟨q', U, hq'⟩ <;> rw [hq'] <;> rfl
    simp only [hfinish]
    exact hexpr.agrees hS h
  | token t S =>
    obtain ⟨q', R', rfl, hR'⟩ := continues_token hS
    obtain ⟨k, q⟩ := t
    by_cases hw : ∃ w, k = .keyword w
    · obtain ⟨w, rfl⟩ := hw
      rcases Trailing.keywordStatement hT hr w with ⟨hnone, hnone'⟩ | ⟨p, p', hp, hp', ht⟩
      · simp only [statementOf_word _ _ _ hnone, statementOf_word _ _ _ (hnone' _)] at h ⊢
        cases hres : w.isReserved with
        | true =>
          simp only [hres, if_true] at h
          cases h
        | false =>
          simp only [hres, Bool.false_eq_true, if_false] at h ⊢
          refine ((Closed.atFunction hT).bind_trailing fun named => ?_).agrees hS h
          cases named with
          | true => exact (Closed.function hT hr).trailing
          | false => exact hexpr
      · simp only [statementOf_keyword _ _ _ hp, statementOf_keyword _ _ _ (hp' _)] at h ⊢
        exact ht.agrees hR' h
    · by_cases hb : k = .mark .lbrace
      · subst hb
        simp only [statementOf_brace] at h ⊢
        exact (Closed.bind hT (Closed.block hT hr) fun body =>
          Closed.pure _).trailing.agrees hS h
      · simp only [statementOf_expression _ _ _ (fun w hk => hw ⟨w, hk⟩) hb] at h ⊢
        exact hexpr.agrees hS h

end Statements

def unlimited (bound : Nat) : Sorts :=
  ⟨expression none bound, statement none bound, none, bound⟩

@[simp] theorem unlimited_expression (b : Nat) : (unlimited b).expression = expression none b := rfl

@[simp] theorem unlimited_statement (b : Nat) : (unlimited b).statement = statement none b := rfl

theorem expression_zero (records : Bool) : expression none 0 records = exhausted := by
  rw [expression]

theorem statement_zero : statement none 0 = exhausted := by
  rw [statement]

theorem expression_succ (b : Nat) (records : Bool) :
    expression none (b + 1) records = assignment (unlimited b) records := by
  rw [expression]
  rfl

theorem statement_succ (b : Nat) : statement none (b + 1) = statementOf (unlimited b) := by
  rw [statement]
  rfl

/-- The parsers with a larger bound do on longer streams what those with a smaller bound do. -/
theorem Extends.unlimited (hT : ∀ i, (T i).Seam) {b : Nat} {b' : ι → Nat} (hb : ∀ i, b ≤ b' i) :
    Extends T b (unlimited b) fun i => unlimited (b' i) := by
  induction b generalizing b' with
  | zero =>
    refine ⟨fun records => ?_, ?_, hb, rfl, fun i => rfl⟩
    · simp only [Parser.unlimited, expression_zero]
      exact Closed.exhausted.trailing
    · simp only [Parser.unlimited, statement_zero]
      exact Closed.exhausted.trailing
  | succ b ih =>
    obtain ⟨d, rfl, hd⟩ := exists_succ_bound hb
    refine ⟨fun records => ?_, ?_, hb, rfl, fun i => rfl⟩
    · simp only [Parser.unlimited, expression_succ]
      exact (Trailing.assignment hT (ih hd) records).mono (Nat.le_succ b)
    · simp only [Parser.unlimited, statement_succ]
      exact Trailing.statementOf hT (ih hd)

end Scripting.Parser
