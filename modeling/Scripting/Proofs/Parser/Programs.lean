import Scripting.Proofs.Printer.RoundTrip

/-!
Reading expressions as statements, and statements as a program. A statement that is an expression
ends with a semicolon or in front of a token that does not go on with it, the end of the input
included.
-/

namespace Scripting.Parser

open Printer

variable {place : Position → Prop} {r : Sorts}

theorem readsOn_number (v : Float) : ReadsOn place r true 10 [.number v] (.number v) := by
  have h : ReadsOn place r true 10 (bare true (.number v)) (.number v) :=
    fun _ _ => reads_scalar rfl true
  rwa [bare] at h

/-- What goes on with a statement that is an expression without a semicolon. -/
def stmtGoesOn (k : Option Token.Kind) : Bool :=
  goesOn true 0 k || k.any (Token.Kind.isMark .semicolon)

section

variable {ks : List Token.Kind} {e : Expr}
  (h : Reads place (goesOn true 0) (r.expression true) ks e)
include h

/-- An expression with a semicolon is a statement, -/
theorem reads_ended_expression {more : Option Token.Kind → Bool} :
    Reads place more (expressionStatement r) (ks ++ [.mark .semicolon]) (.expr e) := by
  unfold expressionStatement
  exact h.bind (.endStatement (Reads.pure _)) rfl

/-- and so is one that nothing goes on with. -/
theorem reads_open_expression :
    Reads place stmtGoesOn (expressionStatement r) ks (.expr e) := by
  have hend : Reads place stmtGoesOn endStatement [] () := by
    unfold endStatement
    exact Reads.accept_nil rfl (Reads.pure _)
  unfold expressionStatement
  refine (h.weaken ?_).last (hend.last (Reads.pure _))
  intro k hk
  simp [stmtGoesOn, hk]

end

variable {limit : Option Int} {b : Nat}

/-- What is read on a level with steps to spare is read as an expression. -/
theorem ReadsOn.expression {n : Nat} (hn : n ≤ 10) {ks : List Token.Kind} {e : Expr}
    (hb : ks.length < b)
    (h : ReadsOn place ⟨expression limit b, statement limit b, limit, b⟩ true n ks e) :
    Reads place (goesOn true 0) (Parser.expression limit (b + 1) true) ks e :=
  h.of_le (Nat.zero_le n) hn hb b hb

/-- Tokens that start like an expression and not with a brace are a statement if they are read as
an expression statement. -/
theorem reads_statement {more : Option Token.Kind → Bool} {ks : List Token.Kind} {s : Stmt}
    (hopens : OpensExpr ks) (hbrace : ∃ k rest, ks = k :: rest ∧ k.isMark .lbrace = false)
    (h : Reads place more
      (expressionStatement ⟨Parser.expression limit b, statement limit b, limit, b⟩) ks s) :
    Reads place more (statement limit (b + 1)) ks s := by
  intro S R hS hR
  rw [statement, statementOf_opens hopens hbrace hS]
  exact h S R hS hR

/-- The end of the input follows the last statement. -/
theorem reads_program_last {before : Option Token.Kind → Bool} {k : Token.Kind}
    {ks : List Token.Kind} {s : Stmt} (hk : k ≠ .mark .semicolon)
    (hs : Reads place before r.statement (k :: ks) s) (hbefore : before none = false) :
    Reads place Option.isSome (program r (b + 2)) (k :: ks) [s] := by
  have hfollow : Follow before Option.isSome [] := by
    intro k hk
    cases k with
    | none => exact Bool.noConfusion (hbefore.symm.trans hk)
    | some k => rfl
  have h := reads_program_cons hk hs (reads_program_nil r b) hfollow
  rwa [List.append_nil] at h

theorem parseStream_of_reads {ks : List Token.Kind} {ss : List Stmt} {S : Stream} {q : Position}
    (hS : Stream.Begins (fun _ => True) (.finish q) ks S)
    (h : Reads (fun _ => True) Option.isSome
      (program ⟨Parser.expression limit (2 * ks.length + 2), statement limit (2 * ks.length + 2),
        limit, 2 * ks.length + 2⟩ (2 * ks.length + 2)) ks ss) : parseStream limit S = .ok ss := by
  have hlength : S.length = ks.length := hS.length_eq
  rw [parseStream, enough, hlength, h S (.finish q) hS rfl]
  rfl

end Scripting.Parser
