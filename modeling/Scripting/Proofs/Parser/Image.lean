import Scripting.Proofs.Parser.Basic
import Scripting.Proofs.Printer.WellFormed

/-!
What parsers make of tokens with a property. Names, numbers and texts are those of tokens; for the rest
a tree has the form that all parsed programs have.
-/

namespace Scripting

/-- What parsers make of tokens with `T`. -/
abbrev Form.ofTokens (T : Token.Kind → Bool) : Form :=
  .made (fun x => T (.number x)) (fun s => T (.text s)) fun s => T (.name s)

def Stream.All (T : Token.Kind → Bool) : Stream → Prop
  | token t rest => T t.kind = true ∧ rest.All T
  | _ => True

theorem Stream.all_true (S : Stream) : S.All fun _ => true := by
  induction S with
  | token t rest ih => exact ⟨rfl, ih⟩
  | finish p => trivial
  | invalid e => trivial

namespace Parser

open Form (ofTokens)

variable {α β : Type} {T : Token.Kind → Bool} {Q : α → Bool} {R : β → Bool}

/-- From tokens with `T`, a parser makes something with `Q` and leaves such tokens. -/
def Makes (T : Token.Kind → Bool) (Q : α → Bool) (p : Parser α) : Prop :=
  ∀ S x, S.All T → p S = .ok x → Q x.1 = true ∧ x.2.All T

theorem Makes.pure {a : α} (h : Q a = true) : Makes T Q (pure a) := by
  intro S x hS hx
  cases hx
  exact ⟨h, hS⟩

theorem Makes.bind {p : Parser α} {f : α → Parser β} (hp : Makes T Q p)
    (hf : ∀ a, Q a = true → Makes T R (f a)) : Makes T R (p >>= f) := by
  intro S x hS h
  obtain ⟨a, S₁, ha, hx⟩ := bind_eq_ok h
  obtain ⟨hQ, hS₁⟩ := hp _ _ hS ha
  exact hf a hQ _ _ hS₁ hx

theorem Makes.exhausted : Makes T Q (exhausted : Parser α) :=
  fun _ _ _ h => absurd h exhausted_ne_ok

theorem Makes.refuse (w : Wanted) : Makes T Q (refuse w : Parser α) :=
  fun _ _ _ h => absurd h refuse_ne_ok

theorem Makes.fault (f : SyntaxFault) (p : Position) : Makes T Q (fault f p : Parser α) :=
  fun _ _ _ h => by cases h

theorem Makes.ite {c : Bool} {p q : Parser α} (hp : Makes T Q p) (hq : Makes T Q q) :
    Makes T Q (if c then p else q) := by
  cases c
  · exact hq
  · exact hp

theorem Makes.look : Makes T (Option.all fun t => T t.kind) look := by
  intro S x hS h
  cases S with
  | token t rest =>
    cases h
    exact ⟨hS.1, hS⟩
  | finish p =>
    cases h
    exact ⟨rfl, hS⟩
  | invalid e => cases h

theorem Makes.advance : Makes T (fun _ => true) advance := by
  intro S x hS h
  cases S with
  | token t rest =>
    cases h
    exact ⟨rfl, hS.2⟩
  | finish p =>
    cases h
    exact ⟨rfl, hS⟩
  | invalid e => cases h

theorem Makes.lookKind : Makes T (Option.all T) lookKind := by
  refine Makes.look.bind fun t ht => Makes.pure ?_
  cases t with
  | none => rfl
  | some t => exact ht

theorem Makes.atMark (m : Mark) : Makes T (fun _ => true) (atMark m) := by
  refine Makes.lookKind.bind fun k _ => ?_
  split <;> exact .pure rfl

theorem Makes.atKeyword (w : Keyword) : Makes T (fun _ => true) (atKeyword w) := by
  refine Makes.lookKind.bind fun k _ => ?_
  split <;> exact .pure rfl

theorem Makes.accept (m : Mark) : Makes T (fun _ => true) (accept m) :=
  (Makes.atMark m).bind fun _ _ =>
    .ite (Makes.advance.bind fun _ _ => .pure rfl) (.pure rfl)

theorem Makes.acceptKeyword (w : Keyword) : Makes T (fun _ => true) (acceptKeyword w) :=
  (Makes.atKeyword w).bind fun _ _ =>
    .ite (Makes.advance.bind fun _ _ => .pure rfl) (.pure rfl)

theorem Makes.expect (m : Mark) : Makes T (fun _ => true) (expect m) := by
  refine Makes.look.bind fun t _ => ?_
  split
  · exact .ite (Makes.advance.bind fun _ _ => .pure rfl) (.refuse _)
  · exact .refuse _

theorem Makes.expectKeyword (w : Keyword) : Makes T (fun _ => true) (expectKeyword w) :=
  (Makes.atKeyword w).bind fun _ _ => .ite Makes.advance (.refuse _)

theorem Makes.expectName (w : Wanted) : Makes T (fun n => T (.name n)) (expectName w) := by
  refine Makes.lookKind.bind fun k hk => ?_
  split
  · exact Makes.advance.bind fun _ _ => .pure hk
  · exact .refuse _

theorem Makes.expectText : Makes T (fun s => T (.text s)) expectText := by
  refine Makes.lookKind.bind fun k hk => ?_
  split
  · exact Makes.advance.bind fun _ _ => .pure hk
  · exact .refuse _

theorem Makes.atFunction : Makes T (fun _ => true) atFunction := by
  intro S x hS h
  unfold Parser.atFunction at h
  split at h <;> cases h <;> exact ⟨rfl, hS⟩

theorem Makes.endStatement : Makes T (fun _ => true) endStatement :=
  (Makes.accept _).bind fun _ _ => .pure rfl

theorem Makes.typeNote : Makes T (fun _ => true) typeNote := by
  refine (Makes.accept _).bind fun _ _ => .ite (Makes.lookKind.bind fun k _ => ?_) (.pure rfl)
  split
  · exact Makes.advance
  · exact .pure rfl

theorem Makes.paramsRest (b : Nat) : Makes T (List.all · (ofTokens T).name) (paramsRest b) := by
  induction b with
  | zero => exact .exhausted
  | succ b ih =>
    refine (Makes.atMark _).bind fun _ _ => .ite (.pure rfl) ?_
    refine (Makes.expectName _).bind fun p hp => (Makes.accept _).bind fun _ _ => ?_
    have hp' : (ofTokens T).name (.text p) = true := hp
    refine .ite (ih.bind fun ps hps => .pure ?_) ((Makes.atMark _).bind fun _ _ => .ite ?_ ?_)
    · simp [hp', hps]
    · exact .pure (by simp [hp'])
    · exact .refuse _

theorem Makes.params (b : Nat) : Makes T (List.all · (ofTokens T).name) (params b) :=
  (Makes.expect _).bind fun _ _ => (Makes.paramsRest b).bind fun _ hps =>
    (Makes.expect _).bind fun _ _ => .pure hps

theorem Makes.atStatement : Makes T (fun _ => true) atStatement := by
  refine Makes.lookKind.bind fun k _ => ?_
  split
  · exact .ite (.pure rfl) Makes.atFunction
  · exact .pure rfl

structure Making (T : Token.Kind → Bool) (r : Sorts) : Prop where
  expression : ∀ records, Makes T (ofTokens T).expr (r.expression records)
  statement : Makes T (ofTokens T).stmt r.statement

section Sorts

variable {r : Sorts} (hr : Making T r)
include hr

theorem Makes.statements (b : Nat) : Makes T (ofTokens T).stmts (statements r b) := by
  induction b with
  | zero => exact .exhausted
  | succ b ih =>
    refine Makes.lookKind.bind fun k _ => ?_
    split
    · exact .pure rfl
    · exact .pure rfl
    · exact Makes.advance.bind fun _ _ => ih
    · exact hr.statement.bind fun _ hs => ih.bind fun _ hss => .pure (by simp [Form.stmts, hs, hss])

theorem Makes.braced : Makes T (fun x => (ofTokens T).stmts x.1) (braced r) :=
  (Makes.expect _).bind fun _ _ => (Makes.statements hr _).bind fun _ hss =>
    (Makes.expect _).bind fun _ _ => .pure hss

theorem Makes.block : Makes T (ofTokens T).stmts (block r) :=
  (Makes.braced hr).bind fun _ h => .pure h

theorem Makes.functionBody (name : String) : Makes T (ofTokens T).stmts (functionBody r name) := by
  refine (Makes.braced hr).bind fun x hx => Makes.bind (Q := fun _ => true) ?_ fun _ _ => .pure hx
  unfold checkLength
  split
  · exact .pure rfl
  · dsimp only
    split
    · exact .fault _ _
    · exact .pure rfl

theorem Makes.expressions (c : Mark) (b : Nat) : Makes T (ofTokens T).exprs (expressions r c b) := by
  induction b with
  | zero => exact .exhausted
  | succ b ih =>
    refine (Makes.atMark _).bind fun _ _ => .ite (.pure rfl) ?_
    refine (hr.expression _).bind fun e he => (Makes.accept _).bind fun _ _ => .ite ?_ ?_
    · exact ih.bind fun _ hes => .pure (by simp [Form.exprs, he, hes])
    · exact .pure (by simp [Form.exprs, he])

theorem Makes.recordFields (b : Nat) : Makes T (ofTokens T).fields (recordFields r b) := by
  induction b with
  | zero => exact .exhausted
  | succ b ih =>
    refine (Makes.atMark _).bind fun _ _ => .ite (.pure rfl) ?_
    refine (Makes.expectName _).bind fun n hn => (Makes.expect _).bind fun _ _ => ?_
    have hn' : (ofTokens T).name (.text n) = true := hn
    refine (hr.expression _).bind fun e he => (Makes.accept _).bind fun _ _ => .ite ?_ ?_
    · exact ih.bind fun _ hfs => .pure (by simp [Form.fields, hn', he, hfs])
    · exact .pure (by simp [Form.fields, hn', he])

theorem Makes.commaExpressions (b : Nat) : Makes T (ofTokens T).exprs (commaExpressions r b) := by
  induction b with
  | zero => exact .exhausted
  | succ b ih =>
    refine (Makes.accept _).bind fun _ _ => .ite ?_ (.pure rfl)
    exact (hr.expression _).bind fun _ he => ih.bind fun _ hes => .pure (by simp [Form.exprs, he, hes])

theorem Makes.commaPairs (b : Nat) : Makes T (ofTokens T).pairs (commaPairs r b) := by
  induction b with
  | zero => exact .exhausted
  | succ b ih =>
    refine (Makes.accept _).bind fun _ _ => .ite ?_ (.pure rfl)
    refine (Makes.atMark _).bind fun _ _ => .ite (.pure rfl) ?_
    exact (hr.expression _).bind fun _ hk => (Makes.expect _).bind fun _ _ =>
      (hr.expression _).bind fun _ hv => ih.bind fun _ hps =>
        .pure (by simp [Form.pairs, hk, hv, hps])

theorem Makes.group : Makes T (ofTokens T).expr (group r) := by
  refine (Makes.expect _).bind fun _ _ => (hr.expression _).bind fun e he => ?_
  refine (Makes.commaExpressions hr _).bind fun es hes => ?_
  split
  · exact (Makes.expect _).bind fun _ _ => .pure he
  · rename_i hnil
    cases es with
    | nil => exact absurd rfl hnil
    | cons e' es' =>
      have htuple : (ofTokens T).expr (.tuple (e :: e' :: es')) = true := by
        simp [Form.expr, Form.exprs, he, Bool.and_eq_true_iff.mp hes]
      exact (Makes.expect _).bind fun _ _ => .pure htuple

theorem Makes.list : Makes T (ofTokens T).expr (list r) :=
  (Makes.expect _).bind fun _ _ => (Makes.expressions hr _ _).bind fun _ hes =>
    (Makes.expect _).bind fun _ _ => .pure hes

theorem Makes.record {type : String} (hn : (ofTokens T).name (.text type) = true)
    (htype : (ofTokens T).recordType (.text type) = true) :
    Makes T (ofTokens T).expr (record r type) :=
  (Makes.expect _).bind fun _ _ => (Makes.recordFields hr _).bind fun _ hfs =>
    (Makes.expect _).bind fun _ _ => .pure (by simp [Form.expr, hn, htype, hfs])

omit hr in
/-- Where a statement starts, statements are read and not none. -/
theorem statements_ne_nil {b : Nat} {S S₁ : Stream} {x : List Stmt × Stream}
    (hstart : atStatement S = .ok (true, S₁)) (h : statements r b S₁ = .ok x) : x.1 ≠ [] := by
  cases S with
  | finish p => cases hstart
  | invalid e => cases hstart
  | token t rest =>
    obtain ⟨k, p⟩ := t
    rw [atStatement_token] at hstart
    obtain ⟨hk, rfl⟩ := Prod.mk.inj (Except.ok.inj hstart)
    cases b with
    | zero => exact absurd h exhausted_ne_ok
    | succ b =>
      have hsemicolon : k ≠ .mark .semicolon := fun h => by subst h; cases hk
      have hbrace : k ≠ .mark .rbrace := fun h => by subst h; cases hk
      rw [statements_statement r p rest b hsemicolon hbrace] at h
      obtain ⟨s, S₂, -, h⟩ := bind_eq_ok h
      obtain ⟨ss, S₃, -, h⟩ := bind_eq_ok h
      cases h
      exact List.cons_ne_nil s ss

theorem Makes.brace : Makes T (ofTokens T).expr (brace r) := by
  refine (Makes.expect _).bind fun _ _ => (Makes.accept _).bind fun _ _ => .ite (.pure rfl) ?_
  have hexpr : Makes T (ofTokens T).expr (do
      let first ← r.expression true
      if ← Parser.accept .colon then
        let v ← r.expression true
        let ps ← Parser.commaPairs r r.bound
        let _ ← Parser.expect .rbrace
        return .dict ((first, v) :: ps)
      Parser.endStatement
      let ss ← Parser.statements r r.bound
      let _ ← Parser.expect .rbrace
      return .block (.expr first :: ss)) := by
    refine (hr.expression _).bind fun first hfirst => (Makes.accept _).bind fun _ _ => .ite ?_ ?_
    · exact (hr.expression _).bind fun v hv => (Makes.commaPairs hr _).bind fun ps hps =>
        (Makes.expect _).bind fun _ _ => .pure (by simp [Form.expr, Form.pairs, hfirst, hv, hps])
    · exact Makes.endStatement.bind fun _ _ => (Makes.statements hr _).bind fun ss hss =>
        (Makes.expect _).bind fun _ _ =>
          .pure (by simp [Form.expr, Form.stmts, Form.stmt, hfirst, hss])
  intro S x hS h
  obtain ⟨starts, S₁, hstart, h⟩ := bind_eq_ok h
  have hS₁ := (Makes.atStatement S _ hS hstart).2
  cases starts with
  | false => exact hexpr _ _ hS₁ h
  | true =>
    obtain ⟨ss, S₂, hss, h⟩ := bind_eq_ok h
    obtain ⟨hmade, hS₂⟩ := Makes.statements hr _ _ _ hS₁ hss
    have hblock : (ofTokens T).expr (.block ss) = true := by
      simp [Form.expr, statements_ne_nil hstart hss, hmade]
    exact ((Makes.expect _).bind fun _ _ => .pure hblock) _ _ hS₂ h

theorem Makes.lambda : Makes T (ofTokens T).expr (lambda r) := by
  refine (Makes.expectKeyword _).bind fun _ _ => (Makes.params _).bind fun ps hps => ?_
  refine Makes.typeNote.bind fun _ _ => (Makes.atMark _).bind fun _ _ => .ite ?_ ?_
  · exact (Makes.functionBody hr _).bind fun _ hbody => .pure (by simp [Form.expr, hps, hbody])
  · exact hr.statement.bind fun _ hs => .pure (by simp [Form.expr, Form.stmts, hps, hs])

/-- What the parser of primaries makes has the form of its tokens. -/
theorem Makes.primary (records : Bool) : Makes T (ofTokens T).expr (primary r records) := by
  have hone : ∀ e, (ofTokens T).expr e = true →
      Makes T (ofTokens T).expr (Parser.advance >>= fun _ => Pure.pure e) :=
    fun e he => Makes.advance.bind fun _ _ => .pure he
  refine Makes.lookKind.bind fun k hk => ?_
  split
  · exact hone _ hk
  · exact hone _ hk
  · exact hone _ rfl
  · exact hone _ rfl
  · rename_i n
    have hn : (ofTokens T).expr (.name (.text n)) = true := hk
    refine Makes.advance.bind fun _ _ => ?_
    split
    · rename_i htype
      refine (Makes.atMark _).bind fun _ _ => .ite ?_ (.pure hn)
      exact Makes.record hr hn (Bool.and_eq_true_iff.mp htype).2
    · exact .pure hn
  · exact Makes.group hr
  · exact Makes.list hr
  · exact Makes.brace hr
  · exact Makes.lambda hr
  · exact .refuse _

theorem Makes.trailers (b : Nat) {e : Expr} (he : (ofTokens T).expr e = true) :
    Makes T (ofTokens T).expr (trailers r b e) := by
  induction b generalizing e with
  | zero => exact .exhausted
  | succ b ih =>
    refine Makes.lookKind.bind fun k _ => ?_
    split
    · exact Makes.advance.bind fun _ _ => (Makes.expressions hr _ _).bind fun args hargs =>
        (Makes.expect _).bind fun _ _ => ih (by simp [Form.expr, he, hargs])
    · exact Makes.advance.bind fun _ _ => (Makes.expectName _).bind fun n hn =>
        ih (Bool.and_eq_true_iff.mpr ⟨he, hn⟩)
    · exact Makes.advance.bind fun _ _ => (hr.expression _).bind fun i hi =>
        (Makes.expect _).bind fun _ _ => ih (by simp [Form.expr, he, hi])
    · exact .pure he

theorem Makes.signed (records : Bool) (b : Nat) :
    Makes T (ofTokens T).expr (signed r records b) := by
  induction b with
  | zero => exact .exhausted
  | succ b ih =>
    refine (Makes.accept _).bind fun _ _ => .ite (ih.bind fun _ he => .pure he) ?_
    refine (Makes.accept _).bind fun _ _ => .ite (ih.bind fun _ he => .pure he) ?_
    exact (Makes.primary hr records).bind fun _ he => Makes.trailers hr _ he

theorem Makes.power (records : Bool) (b : Nat) : Makes T (ofTokens T).expr (power r records b) := by
  induction b with
  | zero => exact .exhausted
  | succ b ih =>
    refine (Makes.signed hr records _).bind fun _ he => (Makes.accept _).bind fun _ _ => ?_
    exact .ite (ih.bind fun _ he' => .pure (by simp [Form.expr, he, he'])) (.pure he)

omit hr in
/-- What a level makes has the form of its tokens. -/
theorem Makes.level {op? : Mark → Option BinaryOp} {operand : Parser Expr}
    (ho : Makes T (ofTokens T).expr operand) : Makes T (ofTokens T).expr (level r op? operand) := by
  refine ho.bind fun e he => ?_
  generalize r.bound = b
  induction b generalizing e with
  | zero => exact .exhausted
  | succ b ih =>
    refine Makes.lookKind.bind fun k _ => ?_
    split
    · split
      · rename_i op _
        exact Makes.advance.bind fun _ _ => ho.bind fun e' he' =>
          ih (.binary e op e') (by simp [Form.expr, he, he'])
      · exact .pure he
    · exact .pure he

theorem Makes.assignment (records : Bool) : Makes T (ofTokens T).expr (assignment r records) := by
  have hproduct : Makes T (ofTokens T).expr (product r records) :=
    Makes.level (Makes.power hr records _)
  have hequality : Makes T (ofTokens T).expr (equality r records) :=
    Makes.level (Makes.level (Makes.level hproduct))
  refine (Makes.level (Makes.level hequality)).bind fun target htarget =>
    Makes.look.bind fun t _ => ?_
  split
  · refine Makes.advance.bind fun _ _ => (hr.expression _).bind fun value hvalue => ?_
    split
    · exact .pure (by simp_all [Form.expr])
    · exact .fault _ _
  · exact .pure htarget

theorem Makes.binding (w : Wanted) :
    Makes T (fun x => (ofTokens T).name x.1 && (ofTokens T).expr x.2) (binding r w) :=
  (Makes.expectName _).bind fun _ hn => Makes.typeNote.bind fun _ _ =>
    (Makes.expect _).bind fun _ _ => (hr.expression _).bind fun _ he =>
      Makes.endStatement.bind fun _ _ => .pure (Bool.and_eq_true_iff.mpr ⟨hn, he⟩)

theorem Makes.function :
    Makes T (fun s => s.isFunction && (ofTokens T).stmt s) (function r) := by
  refine (Makes.expectKeyword _).bind fun _ _ => (Makes.expectName _).bind fun n hn =>
    (Makes.params _).bind fun _ hps => Makes.typeNote.bind fun _ _ =>
      (Makes.functionBody hr _).bind fun _ hbody => .pure ?_
  have hn' : (ofTokens T).name (.text n) = true := hn
  simp [Stmt.isFunction, Form.stmt, hn', hps, hbody]

theorem Makes.returned : Makes T (ofTokens T).stmt (returned r) := by
  have hend : ∀ v, (ofTokens T).stmt (.return_ v) = true →
      Makes T (ofTokens T).stmt (Parser.endStatement >>= fun _ => Pure.pure (Stmt.return_ v)) :=
    fun v hv => Makes.endStatement.bind fun _ _ => .pure hv
  refine Makes.lookKind.bind fun k _ => ?_
  split
  · exact hend none rfl
  · exact hend none rfl
  · exact hend none rfl
  · rw [map_eq_pure_bind]
    have hvalue : Makes T (fun v => (ofTokens T).stmt (.return_ v))
        (r.expression true >>= fun e => Pure.pure (some e)) :=
      (hr.expression _).bind fun e he => .pure he
    exact hvalue.bind hend

theorem Makes.conditional : Makes T (ofTokens T).stmt (conditional r) := by
  refine (hr.expression _).bind fun _ hc => (Makes.block hr).bind fun _ ht => ?_
  refine (Makes.acceptKeyword _).bind fun _ _ => .ite ?_ ?_
  · refine (Makes.atKeyword _).bind fun _ _ => .ite ?_ ?_
    · exact hr.statement.bind fun _ hs =>
        .pure (by simp [Form.stmt, Form.otherwise, Form.stmts, hc, ht, hs])
    · exact (Makes.block hr).bind fun _ he =>
        .pure (by simp [Form.stmt, Form.otherwise, hc, ht, he])
  · exact .pure (by simp [Form.stmt, Form.otherwise, hc, ht])

theorem Makes.whileLoop : Makes T (ofTokens T).stmt (whileLoop r) :=
  (hr.expression _).bind fun _ hc => (Makes.block hr).bind fun _ hbody =>
    .pure (by simp [Form.stmt, hc, hbody])

theorem Makes.forLoop : Makes T (ofTokens T).stmt (forLoop r) := by
  refine (Makes.expectName _).bind fun n hn => (Makes.expectKeyword _).bind fun _ _ =>
    (hr.expression _).bind fun _ ha => (Makes.expect _).bind fun _ _ =>
      (hr.expression _).bind fun _ hb => (Makes.block hr).bind fun _ hbody => .pure ?_
  have hn' : (ofTokens T).name (.text n) = true := hn
  simp [Form.stmt, hn', ha, hb, hbody]

omit hr in
theorem made_printing {e : Expr} {es : List Expr} (he : (ofTokens T).expr e = true)
    (hes : (ofTokens T).exprs es = true) : (ofTokens T).stmt (printing (e :: es)) = true := by
  cases es with
  | nil =>
    cases e with
    | tuple elements => exact he
    | _ =>
      simp only [printing, Form.stmt, Bool.and_eq_true, Form.made_single]
      exact ⟨rfl, he⟩
  | cons e' es' =>
    have hmany : printing (e :: e' :: es') = .printAll (e :: e' :: es') := by
      cases e <;> rfl
    rw [hmany]
    simp [Form.stmt, Form.exprs, he, Bool.and_eq_true_iff.mp hes]

theorem Makes.printed : Makes T (ofTokens T).stmt (printed r) :=
  (hr.expression _).bind fun _ he => (Makes.commaExpressions hr _).bind fun _ hes =>
    Makes.endStatement.bind fun _ _ => .pure (made_printing he hes)

theorem Makes.typeMembers (type : String) (b : Nat) :
    Makes T (fun x => (ofTokens T).fields x.1 && x.2.all Stmt.isFunction && (ofTokens T).stmts x.2)
      (typeMembers r type b) := by
  induction b with
  | zero => exact .exhausted
  | succ b ih =>
    refine Makes.lookKind.bind fun k hk => ?_
    split
    · exact .pure rfl
    · exact Makes.advance.bind fun _ _ => ih
    · exact Makes.advance.bind fun _ _ => ih
    · refine (Makes.function hr).bind fun m hm => ih.bind fun x hx => .pure ?_
      simp only [Bool.and_eq_true] at hm hx
      simp [Form.stmts, hm, hx]
    · rename_i n
      have hn : (ofTokens T).name (.text n) = true := hk
      refine Makes.advance.bind fun _ _ => (Makes.expect _).bind fun _ _ =>
        (hr.expression _).bind fun e he => ih.bind fun x hx => .pure ?_
      simp only [Bool.and_eq_true] at hx
      simp [Form.fields, hn, he, hx]
    · exact .refuse _

theorem Makes.typeDeclaration : Makes T (ofTokens T).stmt (typeDeclaration r) := by
  refine (Makes.expectName _).bind fun n hn => (Makes.expect _).bind fun _ _ =>
    (Makes.typeMembers hr _ _).bind fun x hx => (Makes.expect _).bind fun _ _ => .pure ?_
  have hn' : (ofTokens T).name (.text n) = true := hn
  simp only [Bool.and_eq_true] at hx
  simp only [Form.stmt, hn', Bool.true_and, Bool.and_eq_true]
  exact hx

/-- What a statement with a keyword makes has the form of its tokens. -/
theorem Makes.keywordStatement {w : Keyword} {p : Parser Stmt}
    (h : keywordStatement? r w = some p) : Makes T (ofTokens T).stmt p := by
  have hend : ∀ s, (ofTokens T).stmt s = true →
      Makes T (ofTokens T).stmt (Parser.endStatement >>= fun _ => Pure.pure s) :=
    fun s hs => Makes.endStatement.bind fun _ _ => .pure hs
  cases w with
  | let_ => cases h; exact (Makes.binding hr _).bind fun _ hx => .pure hx
  | const => cases h; exact (Makes.binding hr _).bind fun _ hx => .pure hx
  | return_ => cases h; exact Makes.returned hr
  | if_ => cases h; exact Makes.conditional hr
  | while_ => cases h; exact Makes.whileLoop hr
  | for_ => cases h; exact Makes.forLoop hr
  | import_ => cases h; exact Makes.expectText.bind fun s hs => hend _ hs
  | break_ => cases h; exact hend _ rfl
  | continue_ => cases h; exact hend _ rfl
  | print => cases h; exact Makes.printed hr
  | type => cases h; exact Makes.typeDeclaration hr
  | _ => cases h

theorem Makes.statementOf : Makes T (ofTokens T).stmt (statementOf r) := by
  have hexpr : Makes T (ofTokens T).stmt (expressionStatement r) :=
    (hr.expression _).bind fun _ he => Makes.endStatement.bind fun _ _ => .pure he
  refine Makes.look.bind fun t _ => ?_
  split
  · split
    · rename_i hk
      exact Makes.advance.bind fun _ _ => Makes.keywordStatement hr hk
    · refine .ite (.fault _ _) (Makes.atFunction.bind fun _ _ => .ite ?_ hexpr)
      exact fun S x hS h => (Makes.function hr S x hS h).imp_left fun h =>
        (Bool.and_eq_true_iff.mp h).2
  · exact (Makes.block hr).bind fun _ hss => .pure hss
  · exact hexpr

end Sorts

theorem making_sorts (limit : Option Int) (b n : Nat) :
    Making T ⟨expression limit b, statement limit b, limit, n⟩ :=
  sorts_induction (fun _ => ⟨fun _ => .exhausted, .exhausted⟩)
    (fun _ _ hr => ⟨Makes.assignment hr, Makes.statementOf hr⟩) b n

theorem Makes.program {r : Sorts} (hr : Making T r) (b : Nat) :
    Makes T (ofTokens T).stmts (program r b) := by
  induction b with
  | zero => exact .exhausted
  | succ b ih =>
    refine Makes.lookKind.bind fun k _ => ?_
    split
    · exact .pure rfl
    · exact Makes.advance.bind fun _ _ => ih
    · exact hr.statement.bind fun _ hs => ih.bind fun _ hss => .pure (by simp [Form.stmts, hs, hss])

/-- A program that is parsed is made of the tokens that are read. -/
theorem made_of_parseStream {limit : Option Int} {S : Stream} (hS : S.All T) {p : Program}
    (h : parseStream limit S = .ok p) : (ofTokens T).stmts p = true := by
  obtain ⟨R, hR⟩ := program_of_parseStream h
  exact (Makes.program (making_sorts limit _ _) _ _ _ hS hR).1

end Parser

end Scripting
