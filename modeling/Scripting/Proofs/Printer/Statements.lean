import Scripting.Proofs.Printer.Levels

/-!
Printed statements are read back, one lemma for each kind of statement.
-/

namespace Scripting.Parser

open Printer

variable {place : Position → Prop} {r : Sorts} {size : Nat} {more : Option Token.Kind → Bool}

/-- A statement behind its keyword. -/
theorem reads_keyword {w : Keyword} {p : Parser Stmt} {ks : List Token.Kind} {s : Stmt}
    (hw : keywordStatement? r w = some p) (h : Reads place more p ks s) :
    Reads place more (statementOf r) (.keyword w :: ks) s :=
  Reads.take (fun pos S => statementOf_keyword r pos S hw) h

/-- An expression in front of a semicolon. -/
theorem reads_ended {α : Type} {e : Expr} (he : Form.written.expr e = true) (n : Nat)
    (hr : Ready place r size) (hlen : (expr true n e).length < size) {q : Expr → Parser α} {a : α}
    (hq : Reads place more (q e) [] a) :
    Reads place more (r.expression true >>= fun e => endStatement >>= fun _ => q e)
      (expr true n e ++ [.mark .semicolon]) a := by
  apply Reads.bind (hr.expression true n e he hlen)
  · apply Reads.endStatement
    exact hq
  · exact goesOn_mark rfl (by decide)

theorem reads_binding {n : Name} {e : Expr} (hn : n.isWritten = true)
    (he : Form.written.expr e = true) (hr : Ready place r size)
    (hlen : (expr true 0 e).length < size) (w : Wanted) :
    Reads place more (binding r w)
      (n.token :: .mark .assign :: expr true 0 e ++ [.mark .semicolon]) (n, e) := by
  have hpair : (n, e) = (.text n.shown, e) := by rw [← Name.eq_text hn]
  rw [binding, hpair]
  apply Reads.expectName
  apply Reads.typeNote rfl
  apply Reads.expect
  intro _ _
  exact reads_ended he 0 hr hlen (Reads.pure _)

/-- Tokens that start like an expression are read as one. -/
theorem statementOf_opens {ks : List Token.Kind} (h : OpensExpr ks)
    (hb : ∃ k rest, ks = k :: rest ∧ k.isMark .lbrace = false) {S R : Stream}
    (hS : Stream.Begins place R ks S) : statementOf r S = expressionStatement r S := by
  obtain ⟨k, rest, rfl, hk, hfn⟩ := h
  obtain ⟨k', rest', heq, hb⟩ := hb
  obtain ⟨rfl, rfl⟩ := List.cons.inj heq
  cases hS with
  | @cons _ S _ p hp hrest =>
    cases k with
    | keyword w =>
      cases w with
      | fn =>
        obtain ⟨rest', rfl⟩ := hfn rfl
        cases hrest
        rfl
      | true_ | false_ => rfl
      | _ => cases hk
    | mark m =>
      refine statementOf_expression r p S (fun w h => by cases h) fun h => ?_
      cases h
      cases hb
    | _ => rfl

theorem reads_expressionStatement {e : Expr} (he : Form.written.expr e = true)
    (hr : Ready place r (stmt (.expr e)).length) :
    Reads place more (statementOf r) (stmt (.expr e)) (.expr e) := by
  obtain ⟨n, hn, hfront⟩ := guarded_expr he
  rw [stmt, hn] at hr ⊢
  rw [List.length_append] at hr
  have hread : Reads place more (expressionStatement r) (expr true n e ++ [.mark .semicolon])
      (.expr e) := reads_ended he n hr (Nat.lt_succ_self _) (Reads.pure _)
  intro S R hS hR
  rw [statementOf_opens ((opensExpr_expr he true n).append _) (front_append hfront _) hS]
  exact hread S R hS hR

theorem reads_namedFunction {n : Name} {ps : List Name} {body : List Stmt}
    (hn : n.isWritten = true) (hps : ps.all Name.isWritten = true)
    (hbody : Form.written.stmts body = true) (hr : Ready place r size)
    (hlen : (stmt (.function n ps body)).length ≤ size) :
    Reads place more (function r) (stmt (.function n ps body)) (.function n ps body) := by
  have hbound := hr.bound
  have hinner : (stmts body).length < (stmt (.function n ps body)).length := by
    simp only [stmt, Printer.function, braces, List.length_cons, List.length_append]
    omega
  have hlen' := hlen
  simp only [stmt, List.length_cons] at hlen'
  have hstmt : Stmt.function n ps body = .function (.text n.shown) ps body := by
    rw [← Name.eq_text hn]
  rw [function, stmt, hstmt]
  apply Reads.expectKeyword
  apply Reads.expectName
  apply reads_function hps (by omega)
  apply Reads.map
  exact reads_functionBody hbody hr (by omega) _

theorem reads_return {e : Option Expr} (he : Form.written.stmt (.return_ e) = true)
    (hr : Ready place r (stmt (.return_ e)).length) :
    Reads place more (statementOf r) (stmt (.return_ e)) (.return_ e) := by
  cases e with
  | none =>
    rw [stmt]
    apply reads_keyword rfl
    refine Reads.congr_cons (fun p S => returned_none r p S (.inl rfl)) ?_
    apply Reads.endStatement
    exact Reads.pure _
  | some e =>
    rw [Form.stmt] at he
    have hlen : (expr true 0 e).length < (stmt (.return_ (some e))).length := by
      simp only [stmt, List.length_cons, List.length_append]
      omega
    obtain ⟨k, rest, hks, hk, -⟩ := opensExpr_expr he true 0
    have hread : Reads place more (r.expression true >>= fun e => endStatement >>= fun _ =>
        pure (Stmt.return_ (some e))) (expr true 0 e ++ [.mark .semicolon]) (.return_ (some e)) :=
      reads_ended he 0 hr hlen (Reads.pure _)
    rw [stmt, List.cons_append]
    apply reads_keyword rfl
    rw [hks] at hread ⊢
    refine Reads.congr_cons (fun p S => returned_some r p S ?_ ?_) hread
    · rintro rfl
      cases hk
    · rintro rfl
      cases hk

/-- In a header an opening brace ends the expression. -/
theorem goesOn_brace {n : Nat} : goesOn false n (some (.mark .lbrace)) = false := rfl

/-- The branch behind `else` is read back, as braces or as one more `if`. -/
theorem reads_otherwise {c : Expr} {t ss : List Stmt} (hss : Form.written.stmts ss = true)
    (hr : Ready place r size) (hlen : (otherwise (some ss)).length < size) :
    Reads place elseAhead
      (atKeyword .if_ >>= fun b =>
        if b then r.statement >>= fun s => pure (Stmt.if_ c t (some [s]))
        else block r >>= fun ss => pure (Stmt.if_ c t (some ss)))
      (if isChain ss then stmts ss else braces (stmts ss)) (Stmt.if_ c t (some ss)) := by
  rw [otherwise] at hlen
  cases hchain : isChain ss with
  | true =>
    obtain ⟨c', t', e', rfl⟩ : ∃ c' t' e', ss = [.if_ c' t' e'] := by
      unfold isChain at hchain
      split at hchain
      · exact ⟨_, _, _, rfl⟩
      · cases hchain
    simp only [Form.stmts, Bool.and_true] at hss
    simp only [hchain, if_true, stmts, List.append_nil, List.length_cons] at hlen ⊢
    have hread := hr.statement (.if_ c' t' e') hss (by omega)
    rw [stmt] at hread ⊢
    apply Reads.atKeyword
    exact hread.map
  | false =>
    simp only [hchain, Bool.false_eq_true, if_false, braces, List.length_cons, List.length_append] at hlen
    apply Reads.atKeyword
    apply Reads.map
    exact reads_block hss hr (by omega)

theorem reads_if {c : Expr} {t : List Stmt} {e : Option (List Stmt)}
    (hwf : Form.written.stmt (.if_ c t e) = true)
    (hr : Ready place r (stmt (.if_ c t e)).length) :
    Reads place elseAhead (statementOf r) (stmt (.if_ c t e)) (.if_ c t e) := by
  simp only [Form.stmt, Bool.and_eq_true] at hwf
  rw [stmt] at hr ⊢
  simp only [List.cons_append, List.length_cons, List.length_append, braces, List.length_nil] at hr
  have hthen : Reads place (fun _ => false) (block r) (braces (stmts t)) t :=
    reads_block hwf.1.2 hr (by omega)
  simp only [List.cons_append, List.append_assoc]
  apply reads_keyword rfl
  apply Reads.bind (hr.expression false 0 c hwf.1.1 (by omega))
  · apply Reads.bind hthen
    · cases e with
      | none =>
        rw [otherwise]
        apply Reads.acceptKeyword_nil rfl
        exact Reads.pure _
      | some ss =>
        rw [Form.otherwise] at hwf
        have helse := reads_otherwise (c := c) (t := t) hwf.2 hr (by omega)
        rw [otherwise]
        apply Reads.acceptKeyword_true
        exact helse
    · exact .never _ _
  · exact goesOn_brace

theorem reads_while {c : Expr} {body : List Stmt}
    (hwf : Form.written.stmt (.while_ c body) = true)
    (hr : Ready place r (stmt (.while_ c body)).length) :
    Reads place more (statementOf r) (stmt (.while_ c body)) (.while_ c body) := by
  simp only [Form.stmt, Bool.and_eq_true] at hwf
  rw [stmt] at hr ⊢
  simp only [List.cons_append, List.length_cons, List.length_append, braces, List.length_nil] at hr
  rw [List.cons_append]
  apply reads_keyword rfl
  apply Reads.bind (hr.expression false 0 c hwf.1.2 (by omega))
  · apply Reads.map
    exact reads_block hwf.2 hr (by omega)
  · exact goesOn_brace

theorem reads_for {n : Name} {a b : Expr} {body : List Stmt}
    (hwf : Form.written.stmt (.for_ n a b body) = true)
    (hr : Ready place r (stmt (.for_ n a b body)).length) :
    Reads place more (statementOf r) (stmt (.for_ n a b body)) (.for_ n a b body) := by
  simp only [Form.stmt, Bool.and_eq_true] at hwf
  have hstmt : Stmt.for_ n a b body = .for_ (.text n.shown) a b body := by
    rw [← Name.eq_text hwf.1.1.1]
  rw [stmt] at hr ⊢
  simp only [List.cons_append, List.length_cons, List.length_append, braces, List.length_nil] at hr
  rw [hstmt]
  simp only [List.cons_append, List.append_assoc]
  apply reads_keyword rfl
  apply Reads.expectName
  apply Reads.expectKeyword
  apply Reads.bind (hr.expression false 0 a hwf.1.1.2 (by omega))
  · apply Reads.expect
    intro _ _
    apply Reads.bind (hr.expression false 0 b hwf.1.2 (by omega))
    · apply Reads.map
      exact reads_block hwf.2 hr (by omega)
    · exact goesOn_brace
  · exact goesOn_mark rfl (by decide)

theorem reads_printed {e : Expr} {es : List Expr} (hes : Form.written.exprs (e :: es) = true)
    (hr : Ready place r size) (hlen : (exprs (e :: es)).length < size) :
    Reads place more (printed r) (exprs (e :: es) ++ [.mark .semicolon]) (printing (e :: es)) := by
  simp only [Form.exprs, Bool.and_eq_true] at hes
  rw [exprs, List.length_append] at hlen
  have hbound := hr.bound
  have hmore : Follow (goesOn true 0) (unlessMark .semicolon) [] := follow_closing rfl (by decide)
  rw [printed, exprs, List.append_assoc]
  apply Reads.bind (hr.expression true 0 e hes.1 (by omega))
  · apply Reads.bind (reads_commaExpressions rfl hmore hes.2 hr (by omega) (by omega))
    · apply Reads.endStatement
      exact Reads.pure _
    · rfl
  · cases es with
    | nil =>
      rw [commaExprs]
      exact goesOn_mark rfl (by decide)
    | cons e' es =>
      rw [commaExprs]
      exact goesOn_mark rfl (by decide)

theorem reads_print {e : Expr} (hwf : Form.written.stmt (.print e) = true)
    (hr : Ready place r (stmt (.print e)).length) :
    Reads place more (statementOf r) (stmt (.print e)) (.print e) := by
  simp only [Form.stmt, Bool.and_eq_true] at hwf
  have htokens : stmt (.print e) = .keyword .print :: (exprs [e] ++ [.mark .semicolon]) := by
    simp [stmt, exprs, commaExprs]
  have hprinting : printing [e] = .print e := by
    refine printing_single fun es he => ?_
    subst he
    cases hwf.1
  have hes : Form.written.exprs [e] = true := by simp [Form.exprs, hwf.2]
  rw [htokens] at hr ⊢
  rw [← hprinting]
  apply reads_keyword rfl
  apply reads_printed hes hr
  simp only [List.length_cons, List.length_append]
  omega

theorem reads_printAll {es : List Expr} (hwf : Form.written.stmt (.printAll es) = true)
    (hr : Ready place r (stmt (.printAll es)).length) :
    Reads place more (statementOf r) (stmt (.printAll es)) (.printAll es) := by
  simp only [Form.stmt, Bool.and_eq_true] at hwf
  obtain _ | ⟨e, _ | ⟨e', es⟩⟩ := es
  · simp at hwf
  · simp at hwf
  · rw [stmt, List.cons_append] at hr ⊢
    rw [← printing_cons_cons]
    apply reads_keyword rfl
    apply reads_printed hwf.2 hr
    simp only [List.length_cons, List.length_append]
    omega

theorem reads_methods {type : String} {ms : List Stmt} (hms : ms.all Stmt.isFunction = true)
    (hwf : Form.written.stmts ms = true) (hr : Ready place r size)
    (hlen : (stmts ms).length < size) {b : Nat} (hb : (stmts ms).length < b) :
    Reads place (unlessMark .rbrace) (typeMembers r type b) (stmts ms) ([], ms) := by
  induction ms generalizing b with
  | nil =>
    obtain ⟨b, rfl⟩ : ∃ c, b = c + 1 := ⟨b - 1, by omega⟩
    rw [stmts]
    apply Reads.of_closing
    exact fun p S => rfl
  | cons m ms ih =>
    obtain ⟨b, rfl⟩ : ∃ c, b = c + 1 := ⟨b - 1, by omega⟩
    simp only [List.all_cons, Form.stmts, Bool.and_eq_true] at hms hwf
    simp only [stmts, List.length_append] at hlen hb
    obtain ⟨n, ps, body, rfl⟩ : ∃ n ps body, m = .function n ps body := by
      cases m with
      | function n ps body => exact ⟨n, ps, body, rfl⟩
      | _ => cases hms.1
    have hm := hwf.1
    simp only [Form.stmt, Bool.and_eq_true] at hm
    have hfirst : Reads place (fun _ => false) (function r) _ _ :=
      reads_namedFunction hm.1.1 hm.1.2 hm.2 hr (Nat.le_of_lt (Nat.lt_of_le_of_lt (by omega) hlen))
    have hpos : 0 < (stmt (.function n ps body)).length := by simp [stmt]
    have hrest := ih hms.2 hwf.2 (b := b) (by omega) (by omega)
    rw [typeMembers, stmts]
    have hread : Reads place (unlessMark .rbrace) (function r >>= fun m =>
        typeMembers r type b >>= fun x => pure (x.1, m :: x.2))
        (stmt (.function n ps body) ++ stmts ms) ([], .function n ps body :: ms) :=
      Reads.bind hfirst (hrest.map) (.never _ _)
    rw [stmt] at hread ⊢
    exact .lookKind hread

theorem reads_typeMembers {type : String} {fs : List (Name × Expr)} {ms : List Stmt}
    (hfs : Form.written.fields fs = true) (hms : ms.all Stmt.isFunction = true)
    (hwf : Form.written.stmts ms = true) (hr : Ready place r size)
    (hlen : (fields fs ++ stmts ms).length < size) {b : Nat}
    (hb : (fields fs ++ stmts ms).length < b) :
    Reads place (unlessMark .rbrace) (typeMembers r type b) (fields fs ++ stmts ms) (fs, ms) := by
  induction fs generalizing b with
  | nil =>
    rw [fields, List.nil_append] at hlen hb ⊢
    exact reads_methods hms hwf hr hlen hb
  | cons f fs ih =>
    obtain ⟨n, e⟩ := f
    simp only [Form.fields, Bool.and_eq_true] at hfs
    simp only [fields, List.cons_append, List.append_assoc, List.length_cons,
      List.length_append] at hlen hb
    obtain ⟨b, rfl⟩ : ∃ c, b = c + 2 := ⟨b - 2, by omega⟩
    have hrest := ih hfs.2 (b := b) (by rw [List.length_append]; omega)
      (by rw [List.length_append]; omega)
    rw [typeMembers, fields, Name.eq_text hfs.1.1]
    simp only [List.cons_append, List.append_assoc]
    apply Reads.lookKind
    apply Reads.advance
    apply Reads.expect
    intro _ _
    apply Reads.bind (hr.expression true 0 e hfs.1.2 (by omega))
    · apply Reads.last
      · rw [typeMembers]
        apply Reads.lookKind
        apply Reads.advance
        exact hrest
      · exact Reads.pure _
    · exact goesOn_mark rfl (by decide)

/-- A type is read back, with its fields before its methods. -/
theorem reads_type {n : Name} {fs : List (Name × Expr)} {ms : List Stmt}
    (hwf : Form.written.stmt (.type n fs ms) = true)
    (hr : Ready place r (stmt (.type n fs ms)).length) :
    Reads place more (statementOf r) (stmt (.type n fs ms)) (.type n fs ms) := by
  simp only [Form.stmt, Bool.and_eq_true] at hwf
  have hbound := hr.bound
  have hlen : (fields fs ++ stmts ms).length < (stmt (.type n fs ms)).length := by
    simp only [stmt, braces, List.length_cons, List.length_append]
    omega
  have hstmt : Stmt.type n fs ms = .type (.text n.shown) fs ms := by
    rw [← Name.eq_text hwf.1.1.1]
  rw [stmt, hstmt, braces]
  simp only [List.cons_append, List.append_assoc]
  apply reads_keyword rfl
  apply Reads.expectName
  apply Reads.expect
  intro _ _
  rw [← List.append_assoc]
  apply Reads.bind (reads_typeMembers hwf.1.1.2 hwf.1.2 hwf.2 hr hlen (Nat.lt_trans hlen hbound))
  · apply Reads.expect
    intro _ _
    exact Reads.pure _
  · rfl

/-- Every well-formed statement is read back. -/
theorem reads_stmt {s : Stmt} (hs : Form.written.stmt s = true) (hr : Ready place r (stmt s).length) :
    Reads place elseAhead (statementOf r) (stmt s) s := by
  have hwf := hs
  cases s with
  | expr e => exact reads_expressionStatement hs hr
  | let_ n e =>
    simp only [Form.stmt, Bool.and_eq_true] at hwf
    have hlen : (expr true 0 e).length < (stmt (.let_ n e)).length := by
      simp only [stmt, List.length_cons, List.length_append]
      omega
    rw [stmt] at hr hlen ⊢
    apply reads_keyword rfl
    exact (reads_binding hwf.1 hwf.2 hr hlen _).last (Reads.pure _)
  | const n e =>
    simp only [Form.stmt, Bool.and_eq_true] at hwf
    have hlen : (expr true 0 e).length < (stmt (.const n e)).length := by
      simp only [stmt, List.length_cons, List.length_append]
      omega
    rw [stmt] at hr hlen ⊢
    apply reads_keyword rfl
    exact (reads_binding hwf.1 hwf.2 hr hlen _).last (Reads.pure _)
  | function n ps body =>
    simp only [Form.stmt, Bool.and_eq_true] at hwf
    have hread : Reads place elseAhead (function r) _ _ :=
      reads_namedFunction hwf.1.1 hwf.1.2 hwf.2 hr (Nat.le_refl _)
    rw [stmt] at hread ⊢
    intro S R hS hR
    have hok := hread S R hS hR
    cases hS with
    | cons _ hp hrest =>
      cases hrest with
      | cons _ hp' hrest => exact hok
  | return_ e => exact reads_return hs hr
  | if_ c t e => exact reads_if hs hr
  | while_ c body => exact reads_while hs hr
  | for_ n a b body => exact reads_for hs hr
  | import_ path =>
    rw [Form.stmt] at hwf
    obtain ⟨p, rfl⟩ : ∃ p, path = .text p := by
      cases path with
      | text p => exact ⟨p, rfl⟩
      | _ => cases hwf
    rw [stmt]
    apply reads_keyword rfl
    apply Reads.expectText
    apply Reads.endStatement
    exact Reads.pure _
  | block ss =>
    rw [Form.stmt] at hwf
    have hlen : (stmts ss).length < (stmt (.block ss)).length := by
      simp only [stmt, braces, List.length_cons, List.length_append]
      omega
    have hread : Reads place elseAhead (block r) _ _ := reads_block hwf hr hlen
    rw [stmt, braces] at *
    exact Reads.congr_cons (fun p S => statementOf_brace r p S) hread.map
  | break_ =>
    rw [stmt]
    apply reads_keyword rfl
    apply Reads.endStatement
    exact Reads.pure _
  | continue_ =>
    rw [stmt]
    apply reads_keyword rfl
    apply Reads.endStatement
    exact Reads.pure _
  | print e => exact reads_print hs hr
  | printAll es => exact reads_printAll hs hr
  | type n fs ms => exact reads_type hs hr
  | invalid _ | stray _ => cases hs

/-- The recursive sorts read everything that has fewer tokens than they have steps. -/
theorem ready_sorts {limit : Option Int}
    (hroom : ∀ first last n, place first → place last → limit = some n →
      ((last.line - first.line : Nat) : Int) ≤ n) {b size : Nat} (hb : size < b) :
    Ready place ⟨expression limit b, statement limit b, limit, b⟩ size := by
  induction b generalizing size with
  | zero => omega
  | succ b ih =>
    refine ⟨hb, fun records n e he hlen => ?_, fun s hs hlen => ?_, hroom⟩
    · have hlt : (expr records n e).length < b := by omega
      change Reads place _ (expression limit (b + 1) records) _ _
      rw [expression]
      exact (native e he).reads_expr (ih hlt) (Nat.zero_le 10) (Nat.zero_le n) b hlt
    · have hlt : (stmt s).length < b := by omega
      change Reads place _ (statement limit (b + 1)) _ _
      rw [statement]
      exact reads_stmt hs (ih hlt)

end Scripting.Parser
