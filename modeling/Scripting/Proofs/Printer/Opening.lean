import Scripting.Proofs.Parser.Reading
import Scripting.Proofs.Printer.Tokens
import Scripting.Proofs.Printer.WellFormed

/-!
The first tokens of printed expressions and statements. They decide between a statement and an
expression, between a dictionary and a block, and whether a list goes on.
-/

namespace Scripting

namespace Token.Kind

def opensExpr : Token.Kind → Bool
  | number _ | text _ | name _ => true
  | keyword w => w == .true_ || w == .false_ || w == .fn
  | mark m => m == .lparen || m == .lbracket || m == .lbrace || m == .minus || m == .bang

end Token.Kind

namespace Printer

/-- Whether tokens start like an expression; a function literal has no name. -/
def OpensExpr (ks : List Token.Kind) : Prop :=
  ∃ k rest, ks = k :: rest ∧ k.opensExpr = true ∧
    (k.isKeyword .fn = true → ∃ rest', rest = .mark .lparen :: rest')

theorem OpensExpr.append {ks : List Token.Kind} (h : OpensExpr ks) (ls : List Token.Kind) :
    OpensExpr (ks ++ ls) := by
  obtain ⟨k, rest, rfl, hk, hfn⟩ := h
  refine ⟨k, rest ++ ls, rfl, hk, fun hkw => ?_⟩
  obtain ⟨rest', rfl⟩ := hfn hkw
  exact ⟨rest' ++ ls, rfl⟩

theorem OpensExpr.not_mark {ks : List Token.Kind} (h : OpensExpr ks) {m : Mark}
    (hm : (Token.Kind.mark m).opensExpr = false) :
    ∃ k rest, ks = k :: rest ∧ k.isMark m = false := by
  obtain ⟨k, rest, rfl, hk, -⟩ := h
  refine ⟨k, rest, rfl, ?_⟩
  cases hkm : k.isMark m with
  | false => rfl
  | true =>
    rw [Token.Kind.isMark_iff] at hkm
    subst hkm
    exact Bool.noConfusion (hm.symm.trans hk)

theorem opensExpr_of_token {k : Token.Kind} (hk : k.opensExpr = true)
    (hfn : k.isKeyword .fn = false) (rest : List Token.Kind) : OpensExpr (k :: rest) :=
  ⟨k, rest, rfl, hk, fun h => Bool.noConfusion (hfn.symm.trans h)⟩

theorem opensExpr_wrap {b : Bool} {ks : List Token.Kind} (h : OpensExpr ks) :
    OpensExpr (wrap b ks) := by
  cases b with
  | false => exact h
  | true => exact opensExpr_of_token rfl rfl _

theorem opensExpr_expr_of_bare {e : Expr} (h : ∀ records, OpensExpr (bare records e))
    (records : Bool) (n : Nat) : OpensExpr (expr records n e) := by
  unfold expr
  exact opensExpr_wrap (h _)

/-- The tokens of an expression start like one. -/
theorem opensExpr_bare (e : Expr) (he : Form.written.expr e = true) (records : Bool) :
    OpensExpr (bare records e) := by
  cases e with
  | number _ | text _ | name _ | record _ _ | assign _ _ | block _ | list _ | tuple _ =>
    rw [bare]
    exact opensExpr_of_token rfl rfl _
  | bool b =>
    cases b <;> (rw [bare]; exact opensExpr_of_token rfl rfl _)
  | dict ps =>
    cases ps <;> (rw [bare]; exact opensExpr_of_token rfl rfl _)
  | unary op _ =>
    rw [bare]
    cases op <;> exact opensExpr_of_token rfl rfl _
  | lambda _ _ =>
    rw [bare]
    exact ⟨_, _, rfl, rfl, fun _ => ⟨_, rfl⟩⟩
  | binary l _ r =>
    simp only [Form.expr, Bool.and_eq_true] at he
    rw [bare]
    exact (opensExpr_expr_of_bare (opensExpr_bare l he.1) _ _).append _
  | call f _ =>
    simp only [Form.expr, Bool.and_eq_true] at he
    rw [bare, List.append_assoc]
    exact (opensExpr_expr_of_bare (opensExpr_bare f he.1) _ _).append _
  | field e _ =>
    simp only [Form.expr, Bool.and_eq_true] at he
    rw [bare]
    exact (opensExpr_expr_of_bare (opensExpr_bare e he.1) _ _).append _
  | index e _ =>
    simp only [Form.expr, Bool.and_eq_true] at he
    rw [bare, List.append_assoc]
    exact (opensExpr_expr_of_bare (opensExpr_bare e he.1) _ _).append _
  | datum _ | invalid _ | stray _ => cases he

theorem opensExpr_expr {e : Expr} (he : Form.written.expr e = true) (records : Bool) (n : Nat) :
    OpensExpr (expr records n e) :=
  opensExpr_expr_of_bare (opensExpr_bare e he) records n

theorem level_le (e : Expr) : e.level ≤ 10 := by
  cases e with
  | binary _ op _ => cases op <;> simp [Expr.level, BinaryOp.level]
  | _ => simp [Expr.level]

theorem expr_true_zero (e : Expr) : expr true 0 e = bare true e := by
  simp [expr, Expr.bracketed, wrap]

/-- An expression that must not start with a brace is printed as on a level that may be above all
others. -/
theorem guarded_expr {e : Expr} (he : Form.written.expr e = true) :
    ∃ n, guarded (expr true 0 e) = expr true n e ∧
      ∃ k rest, expr true n e = k :: rest ∧ k.isMark .lbrace = false := by
  obtain ⟨k, rest, hks, hk, -⟩ := opensExpr_expr he true 0
  cases hb : k.isMark .lbrace with
  | true =>
    have hlevel : e.level < 11 := Nat.lt_succ_of_le (level_le e)
    have hwrap : expr true 11 e = wrap true (bare true e) := by
      simp [expr, Expr.bracketed, hlevel]
    refine ⟨11, ?_, .mark .lparen, bare true e ++ [.mark .rparen], by rw [hwrap]; rfl, rfl⟩
    rw [guarded, hwrap, ← expr_true_zero, hks]
    simp [hb]
  | false =>
    refine ⟨0, ?_, k, rest, hks, hb⟩
    rw [guarded, hks]
    simp [hb, wrap]

/-- An expression that does not start with a brace is no other statement. -/
theorem OpensExpr.atStatement {place : Position → Prop} {ks : List Token.Kind} (h : OpensExpr ks)
    (hb : ∃ k rest, ks = k :: rest ∧ k.isMark .lbrace = false) {S R : Stream}
    (hS : Stream.Begins place R ks S) : Parser.atStatement S = .ok (false, S) := by
  obtain ⟨k, rest, rfl, hk, hfn⟩ := h
  obtain ⟨k', rest', heq, hb⟩ := hb
  obtain ⟨rfl, rfl⟩ := List.cons.inj heq
  cases hS with
  | cons _ hp hrest =>
    rw [Parser.atStatement_token]
    cases k with
    | keyword w =>
      cases w with
      | fn =>
        obtain ⟨rest', rfl⟩ := hfn rfl
        cases hrest
        rfl
      | true_ | false_ => rfl
      | _ => cases hk
    | mark m =>
      cases m with
      | lbrace => cases hb
      | _ => rfl
    | _ => rfl

def opensStmt (k : Token.Kind) : Bool := k.opensExpr || Parser.startsStatement k

/-- A statement is an expression or starts like none. -/
theorem stmt_opens {s : Stmt} (hs : Form.written.stmt s = true) :
    (∃ e, s = .expr e) ∨ ∃ k rest, stmt s = k :: rest ∧
      (Parser.startsStatement k = true ∨ ∃ n rest', k = .keyword .fn ∧ rest = .name n :: rest') := by
  cases s with
  | expr e => exact .inl ⟨e, rfl⟩
  | function n _ _ =>
    rw [stmt]
    exact .inr ⟨_, _, rfl, .inr ⟨n.shown, _, rfl, rfl⟩⟩
  | return_ value =>
    cases value <;> (rw [stmt]; exact .inr ⟨_, _, rfl, .inl rfl⟩)
  | invalid _ | stray _ => cases hs
  | _ =>
    rw [stmt]
    exact .inr ⟨_, _, rfl, .inl rfl⟩

theorem stmt_atStatement {s : Stmt} (hs : Form.written.stmt s = true) (he : ∀ e, s ≠ .expr e)
    {place : Position → Prop} {ls : List Token.Kind} {S R : Stream}
    (hS : Stream.Begins place R (stmt s ++ ls) S) : Parser.atStatement S = .ok (true, S) := by
  obtain ⟨e, rfl⟩ | ⟨k, rest, hks, hk⟩ := stmt_opens hs
  · exact absurd rfl (he e)
  · rw [hks] at hS
    cases hS with
    | cons _ hp hrest =>
      rw [Parser.atStatement_token]
      obtain hk | ⟨n, rest', rfl, rfl⟩ := hk
      · simp [hk]
      · cases hrest
        rfl

theorem stmt_opensStmt {s : Stmt} (hs : Form.written.stmt s = true) :
    ∃ k rest, stmt s = k :: rest ∧ opensStmt k = true := by
  obtain ⟨e, rfl⟩ | ⟨k, rest, hks, hk⟩ := stmt_opens hs
  · rw [Form.stmt] at hs
    obtain ⟨n, hn, -⟩ := guarded_expr hs
    obtain ⟨k, rest, hks, hk, -⟩ := opensExpr_expr hs true n
    refine ⟨k, rest ++ [.mark .semicolon], ?_, by simp [opensStmt, hk]⟩
    rw [stmt, hn, hks, List.cons_append]
  · refine ⟨k, rest, hks, ?_⟩
    obtain hk | ⟨n, rest', rfl, -⟩ := hk
    · simp [opensStmt, hk]
    · rfl

end Printer

end Scripting
