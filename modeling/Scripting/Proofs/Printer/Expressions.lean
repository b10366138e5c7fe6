import Scripting.Proofs.Parser.Levels
import Scripting.Proofs.Printer.Opening

/-!
Printed expressions are read back. The parsers below work with the two recursive sorts `r`; they read
every expression whose parts in brackets are read by `r`, and these have fewer tokens.
-/

namespace Scripting

theorem Name.eq_text {n : Name} (h : n.isWritten = true) : n = .text n.shown := by
  cases n with
  | text s => rfl
  | _ => cases h

/-- Whether an expression is a number, a text or a truth value, which is one token. -/
def Expr.isScalar : Expr → Bool
  | number _ | text _ | bool _ => true
  | _ => false

namespace Parser

open Printer

/-- What follows a statement: an `else` would go on with an `if`. -/
def elseAhead (k : Option Token.Kind) : Bool := k.any (Token.Kind.isKeyword .else_)

def unlessMark (m : Mark) (k : Option Token.Kind) : Bool := !k.any (Token.Kind.isMark m)

/-- The recursive sorts read everything with fewer than `size` tokens, the loops have steps for as
many, and braces at positions in `place` are not too far apart. -/
structure Ready (place : Position → Prop) (r : Sorts) (size : Nat) : Prop where
  bound : size < r.bound
  expression : ∀ records n e, Form.written.expr e = true → (expr records n e).length < size →
    Reads place (goesOn records 0) (r.expression records) (expr records n e) e
  statement : ∀ s, Form.written.stmt s = true → (stmt s).length < size →
    Reads place elseAhead r.statement (stmt s) s
  room : ∀ first last limit, place first → place last → r.limit = some limit →
    ((last.line - first.line : Nat) : Int) ≤ limit

variable {place : Position → Prop} {r : Sorts} {size : Nat}

theorem Ready.mono (h : Ready place r size) {size' : Nat} (hs : size' ≤ size) :
    Ready place r size' where
  bound := Nat.lt_of_le_of_lt hs h.bound
  expression records n e he hlen := h.expression records n e he (Nat.lt_of_lt_of_le hlen hs)
  statement s hwf hlen := h.statement s hwf (Nat.lt_of_lt_of_le hlen hs)
  room := h.room

/-- A mark that ends an expression wherever one is read. -/
theorem goesOn_mark {records : Bool} {n : Nat} {m : Mark} (hm : m.level? = none)
    (hb : m ≠ .lbrace) : goesOn records n (some (.mark m)) = false := by
  simp [goesOn, Token.Kind.continues, hm, hb]

/-- Between brackets, expressions end in front of the closing mark. -/
theorem follow_closing {m : Mark} (hm : m.level? = none) (hb : m ≠ .lbrace) :
    Follow (goesOn true 0) (unlessMark m) [] := by
  intro k hk
  cases hm' : k.any (Token.Kind.isMark m) with
  | false => simp [unlessMark, hm']
  | true =>
    obtain ⟨k, rfl, hkm⟩ := (Option.any_eq_true _ _).mp hm'
    rw [Token.Kind.isMark_iff] at hkm
    subst hkm
    exact Bool.noConfusion ((goesOn_mark hm hb).symm.trans hk)

theorem Reads.of_closing {α : Type} {m : Mark} {p : Parser α} {a : α}
    (h : ∀ pos S, p (.token ⟨.mark m, pos⟩ S) = .ok (a, .token ⟨.mark m, pos⟩ S)) :
    Reads place (unlessMark m) p [] a := by
  intro S R hS hR
  cases hS
  cases S with
  | token t S =>
    obtain ⟨k, pos⟩ := t
    have hk : k.isMark m = true := by simpa [Stream.Halts, unlessMark] using hR
    rw [Token.Kind.isMark_iff] at hk
    subst hk
    exact h pos S
  | finish pos => exact Bool.noConfusion (show true = false from hR)
  | invalid e => exact hR.elim

theorem isMark_of_unlessMark {m : Mark} {k : Option Token.Kind} (h : unlessMark m k = false) :
    k.any (Token.Kind.isMark m) = true := by
  simpa [unlessMark] using h

theorem length_exprs_le (es : List Expr) : (exprs es).length ≤ (commaExprs es).length := by
  cases es with
  | nil => simp [exprs]
  | cons e es => simp [exprs, commaExprs]

/-- The items of a list have fewer tokens than the list. -/
theorem Ready.items {es : List Expr} (hr : Ready place r size) (hes : Form.written.exprs es = true)
    (hlen : (exprs es).length < size) :
    ∀ e ∈ es, Reads place (goesOn true 0) (r.expression true) (expr true 0 e) e := by
  induction es with
  | nil => exact fun e he => absurd he List.not_mem_nil
  | cons e es ih =>
    simp only [Form.exprs, Bool.and_eq_true] at hes
    rw [exprs, List.length_append] at hlen
    have hle := length_exprs_le es
    intro e' he'
    rcases List.mem_cons.mp he' with rfl | he'
    · exact hr.expression true 0 e' hes.1 (by omega)
    · exact ih hes.2 (by omega) e' he'

theorem reads_expressions {closing : Mark} (hc : closing = .rparen ∨ closing = .rbracket)
    {es : List Expr} (hes : Form.written.exprs es = true)
    (hread : ∀ e ∈ es, Reads place (goesOn true 0) (r.expression true) (expr true 0 e) e) {b : Nat}
    (hb : (exprs es).length < b) :
    Reads place (unlessMark closing) (expressions r closing b) (exprs es) es := by
  have hlevel : closing.level? = none := by rcases hc with rfl | rfl <;> rfl
  have hbrace : closing ≠ .lbrace := by rcases hc with rfl | rfl <;> decide
  have hcomma : unlessMark closing (some (.mark .comma)) = true := by
    rcases hc with rfl | rfl <;> rfl
  have hopen : (Token.Kind.mark closing).opensExpr = false := by rcases hc with rfl | rfl <;> rfl
  induction es generalizing b with
  | nil =>
    obtain ⟨b, rfl⟩ : ∃ c, b = c + 1 := ⟨b - 1, by omega⟩
    rw [expressions, exprs]
    apply Reads.atMark_nil
    · exact fun k => isMark_of_unlessMark
    · exact Reads.pure []
  | cons e es ih =>
    obtain ⟨b, rfl⟩ : ∃ c, b = c + 1 := ⟨b - 1, by omega⟩
    simp only [Form.exprs, Bool.and_eq_true] at hes
    simp only [exprs, List.length_append] at hb
    have hfirst := hread e List.mem_cons_self
    rw [expressions, exprs]
    apply Reads.atMark_false (((opensExpr_expr hes.1 true 0).append _).not_mark hopen)
    cases es with
    | nil =>
      rw [commaExprs]
      apply Reads.bind hfirst
      · apply Reads.accept_nil hcomma
        exact Reads.pure [e]
      · exact follow_closing hlevel hbrace
    | cons e' es =>
      rw [commaExprs] at hb ⊢
      simp only [List.length_cons, List.length_append] at hb
      apply Reads.bind hfirst
      · apply Reads.accept_true
        apply Reads.map
        have hrest := ih hes.2 (fun e he => hread e (List.mem_cons_of_mem _ he)) (b := b)
        rw [exprs, List.length_append] at hrest
        exact hrest (by omega)
      · exact goesOn_mark rfl (by decide)

theorem reads_commaExpressions {more : Option Token.Kind → Bool}
    (hcomma : more (some (.mark .comma)) = true) (hmore : Follow (goesOn true 0) more [])
    {es : List Expr} (hes : Form.written.exprs es = true) (hr : Ready place r size)
    (hlen : (commaExprs es).length < size) {b : Nat} (hb : (commaExprs es).length < b) :
    Reads place more (commaExpressions r b) (commaExprs es) es := by
  induction es generalizing b with
  | nil =>
    obtain ⟨b, rfl⟩ : ∃ c, b = c + 1 := ⟨b - 1, by omega⟩
    rw [commaExpressions, commaExprs]
    apply Reads.accept_nil hcomma
    exact Reads.pure []
  | cons e es ih =>
    obtain ⟨b, rfl⟩ : ∃ c, b = c + 1 := ⟨b - 1, by omega⟩
    simp only [Form.exprs, Bool.and_eq_true] at hes
    simp only [commaExprs, List.length_append, List.length_cons] at hlen hb
    have hfirst := hr.expression true 0 e hes.1 (by omega)
    rw [commaExpressions, commaExprs]
    apply Reads.accept_true
    apply Reads.bind hfirst
    · apply Reads.map
      exact ih hes.2 (by omega) (by omega)
    · cases es with
      | nil =>
        rw [commaExprs]
        exact hmore
      | cons e' es =>
        rw [commaExprs]
        exact goesOn_mark rfl (by decide)

/-- The fields of a record literal are read back. -/
theorem reads_recordFields {fs : List (Name × Expr)} (hfs : Form.written.fields fs = true)
    (hr : Ready place r size) (hlen : (fields fs).length < size) {b : Nat}
    (hb : (fields fs).length < b) :
    Reads place (unlessMark .rbrace) (recordFields r b) (fields fs) fs := by
  induction fs generalizing b with
  | nil =>
    obtain ⟨b, rfl⟩ : ∃ c, b = c + 1 := ⟨b - 1, by omega⟩
    rw [recordFields, fields]
    apply Reads.atMark_nil
    · exact fun k => isMark_of_unlessMark
    · exact Reads.pure []
  | cons f fs ih =>
    obtain ⟨n, e⟩ := f
    obtain ⟨b, rfl⟩ : ∃ c, b = c + 1 := ⟨b - 1, by omega⟩
    simp only [Form.fields, Bool.and_eq_true] at hfs
    simp only [fields, List.length_append, List.length_cons] at hlen hb
    have hvalue := hr.expression true 0 e hfs.1.2 (by omega)
    rw [recordFields, fields, Name.eq_text hfs.1.1]
    apply Reads.atMark_false ⟨_, _, rfl, rfl⟩
    apply Reads.expectName
    apply Reads.expect
    intro _ _
    apply Reads.bind hvalue
    · apply Reads.accept_true
      apply Reads.map
      exact ih hfs.2 (by omega) (by omega)
    · exact goesOn_mark rfl (by decide)

theorem reads_commaPairs {ps : List (Expr × Expr)} (hps : Form.written.pairs ps = true)
    (hr : Ready place r size) (hlen : (Printer.commaPairs ps).length < size) {b : Nat}
    (hb : (Printer.commaPairs ps).length < b) :
    Reads place (unlessMark .rbrace) (commaPairs r b) (Printer.commaPairs ps) ps := by
  induction ps generalizing b with
  | nil =>
    obtain ⟨b, rfl⟩ : ∃ c, b = c + 1 := ⟨b - 1, by omega⟩
    rw [commaPairs, Printer.commaPairs]
    apply Reads.accept_nil rfl
    exact Reads.pure []
  | cons p ps ih =>
    obtain ⟨k, v⟩ := p
    obtain ⟨b, rfl⟩ : ∃ c, b = c + 1 := ⟨b - 1, by omega⟩
    simp only [Form.pairs, Bool.and_eq_true] at hps
    simp only [Printer.commaPairs, List.length_append, List.length_cons] at hlen hb
    have hkey := hr.expression true 0 k hps.1.1 (by omega)
    have hvalue := hr.expression true 0 v hps.1.2 (by omega)
    rw [commaPairs, Printer.commaPairs, List.append_assoc]
    apply Reads.accept_true
    apply Reads.atMark_false (((opensExpr_expr hps.1.1 true 0).append _).not_mark rfl)
    apply Reads.bind hkey
    · apply Reads.expect
      intro _ _
      apply Reads.bind hvalue
      · apply Reads.map
        exact ih hps.2 (by omega) (by omega)
      · cases ps with
        | nil =>
          rw [Printer.commaPairs]
          exact follow_closing rfl (by decide)
        | cons p ps =>
          rw [Printer.commaPairs]
          exact goesOn_mark rfl (by decide)
    · exact goesOn_mark rfl (by decide)

theorem reads_paramsRest {ps : List Name} (hps : ps.all Name.isWritten = true) {b : Nat}
    (hb : (Printer.params ps).length < b) :
    Reads place (unlessMark .rparen) (paramsRest b) (Printer.params ps) ps := by
  induction ps generalizing b with
  | nil =>
    obtain ⟨b, rfl⟩ : ∃ c, b = c + 1 := ⟨b - 1, by omega⟩
    rw [paramsRest, Printer.params]
    apply Reads.atMark_nil
    · exact fun k => isMark_of_unlessMark
    · exact Reads.pure []
  | cons n ps ih =>
    obtain ⟨b, rfl⟩ : ∃ c, b = c + 1 := ⟨b - 1, by omega⟩
    simp only [List.all_cons, Bool.and_eq_true] at hps
    rw [paramsRest, Name.eq_text hps.1]
    cases ps with
    | nil =>
      rw [Printer.params]
      apply Reads.atMark_false ⟨_, _, rfl, rfl⟩
      apply Reads.expectName
      apply Reads.accept_nil rfl
      apply Reads.atMark_nil
      · exact fun k => isMark_of_unlessMark
      · exact Reads.pure _
    | cons n' ps =>
      simp only [Printer.params, List.length_cons] at hb
      rw [Printer.params]
      · apply Reads.atMark_false ⟨_, _, rfl, rfl⟩
        apply Reads.expectName
        apply Reads.accept_true
        apply Reads.map
        exact ih hps.2 (by omega)
      · exact List.cons_ne_nil _ _

/-- No statement starts with `else`. -/
theorem follow_stmts {more : Option Token.Kind → Bool} {ss : List Stmt}
    (hmore : more (some (.keyword .else_)) = true) (hss : Form.written.stmts ss = true) :
    Follow elseAhead more (stmts ss) := by
  cases ss with
  | nil =>
    rw [stmts]
    intro k hk
    obtain ⟨k, rfl, hkw⟩ := (Option.any_eq_true _ _).mp hk
    rw [Token.Kind.isKeyword_iff] at hkw
    subst hkw
    exact hmore
  | cons s ss =>
    simp only [Form.stmts, Bool.and_eq_true] at hss
    obtain ⟨k, rest, hks, hk⟩ := stmt_opensStmt hss.1
    rw [stmts, hks]
    cases hkw : k.isKeyword .else_ with
    | false => exact hkw
    | true =>
      rw [Token.Kind.isKeyword_iff] at hkw
      subst hkw
      cases hk

theorem reads_statements {ss : List Stmt} (hss : Form.written.stmts ss = true)
    (hr : Ready place r size) (hlen : (stmts ss).length < size) {b : Nat}
    (hb : (stmts ss).length < b) :
    Reads place (unlessMark .rbrace) (statements r b) (stmts ss) ss := by
  induction ss generalizing b with
  | nil =>
    obtain ⟨b, rfl⟩ : ∃ c, b = c + 1 := ⟨b - 1, by omega⟩
    rw [stmts]
    apply Reads.of_closing
    exact fun p S => rfl
  | cons s ss ih =>
    obtain ⟨b, rfl⟩ : ∃ c, b = c + 1 := ⟨b - 1, by omega⟩
    simp only [Form.stmts, Bool.and_eq_true] at hss
    simp only [stmts, List.length_append] at hlen hb
    have hfirst := hr.statement s hss.1 (by omega)
    obtain ⟨k, rest, hks, hk⟩ := stmt_opensStmt hss.1
    have hread : Reads place (unlessMark .rbrace) (r.statement >>= fun first =>
        statements r b >>= fun rest => pure (first :: rest)) (stmt s ++ stmts ss) (s :: ss) := by
      apply Reads.bind hfirst
      · apply Reads.map
        exact ih hss.2 (by omega) (by rw [hks, List.length_cons] at hb; omega)
      · exact follow_stmts rfl hss.2
    rw [stmts]
    rw [hks] at hread ⊢
    refine Reads.congr_cons (fun p S => statements_statement r p S b ?_ ?_) hread
    · rintro rfl
      cases hk
    · rintro rfl
      cases hk

/-- Printed braces are read as a block whose braces stand at positions in `place`. -/
theorem reads_braced {α : Type} {more : Option Token.Kind → Bool} {ss : List Stmt}
    (hss : Form.written.stmts ss = true) (hr : Ready place r size)
    (hlen : (stmts ss).length < size) {q : List Stmt × Position × Position → Parser α}
    {ks : List Token.Kind} {a : α}
    (h : ∀ first last, place first → place last → Reads place more (q (ss, first, last)) ks a) :
    Reads place more (braced r >>= q) (braces (stmts ss) ++ ks) a := by
  have hbody := reads_statements hss hr hlen (b := r.bound) (Nat.lt_trans hlen hr.bound)
  simp only [braced, bind_assoc, pure_bind, braces, List.cons_append, List.append_assoc,
    List.nil_append]
  apply Reads.expect
  intro first hfirst
  apply Reads.bind hbody
  · apply Reads.expect
    intro last hlast
    exact h first last hfirst hlast
  · rfl

theorem reads_block {more : Option Token.Kind → Bool} {ss : List Stmt}
    (hss : Form.written.stmts ss = true) (hr : Ready place r size)
    (hlen : (stmts ss).length < size) :
    Reads place more (block r) (braces (stmts ss)) ss := by
  rw [← List.append_nil (braces _)]
  apply reads_braced hss hr hlen
  intro _ _ _ _
  exact Reads.pure ss

theorem reads_functionBody {more : Option Token.Kind → Bool} {ss : List Stmt}
    (hss : Form.written.stmts ss = true) (hr : Ready place r size)
    (hlen : (stmts ss).length < size) (name : String) :
    Reads place more (functionBody r name) (braces (stmts ss)) ss := by
  rw [← List.append_nil (braces _)]
  apply reads_braced hss hr hlen
  intro first last hfirst hlast
  have hroom : checkLength r name first last = pure () := by
    unfold checkLength
    split
    · rfl
    · rename_i limit hlimit
      have h := hr.room first last limit hfirst hlast hlimit
      simp only [Int.not_lt.mpr h, if_false]
  simp only [hroom, pure_bind]
  exact Reads.pure ss

/-- The part that named functions and function literals share. -/
theorem reads_function {α : Type} {more : Option Token.Kind → Bool} {ps : List Name}
    {ks : List Token.Kind} (hps : ps.all Name.isWritten = true)
    (hb : (Printer.function ps ks).length ≤ r.bound) {q : List Name → Parser α} {a : α}
    (h : Reads place more (q ps) (braces ks) a) :
    Reads place more (params r.bound >>= fun ps => typeNote >>= fun _ => q ps)
      (Printer.function ps ks) a := by
  simp only [Printer.function, braces, List.cons_append, List.length_cons, List.length_append] at hb
  have hparams : Reads place (unlessMark .rparen) (paramsRest r.bound) (Printer.params ps) ps :=
    reads_paramsRest hps (by omega)
  simp only [params, bind_assoc, pure_bind, Printer.function, List.cons_append]
  apply Reads.expect
  intro _ _
  apply Reads.bind hparams
  · apply Reads.expect
    intro _ _
    exact Reads.typeNote rfl h
  · rfl

variable {more : Option Token.Kind → Bool}

theorem reads_lambda {ps : List Name} {body : List Stmt} (hps : ps.all Name.isWritten = true)
    (hbody : Form.written.stmts body = true) (records : Bool)
    (hr : Ready place r (bare records (.lambda ps body)).length) :
    Reads place more (lambda r) (bare records (.lambda ps body)) (.lambda ps body) := by
  have hbound := hr.bound
  have hlen : (stmts body).length < (bare records (.lambda ps body)).length := by
    simp only [bare, Printer.function, braces, List.length_cons, List.length_append]
    omega
  simp only [bare, List.length_cons] at hbound
  rw [lambda, bare]
  apply Reads.expectKeyword
  apply reads_function hps (by omega)
  apply Reads.atMark_true
  apply Reads.map
  exact reads_functionBody hbody hr hlen _

/-- Any expression can stand in parentheses. -/
theorem reads_group {e : Expr} (he : Form.written.expr e = true)
    (hr : Ready place r ((bare true e).length + 2)) :
    Reads place more (group r) (wrap true (bare true e)) e := by
  have hexpr := hr.expression true 0 e he (by rw [expr_true_zero]; omega)
  have hbound := hr.bound
  have hnone : Reads place (unlessMark .rparen) (commaExpressions r r.bound) (commaExprs []) [] :=
    reads_commaExpressions rfl (follow_closing rfl (by decide)) rfl hr (by simp [commaExprs])
      (by rw [commaExprs]; exact Nat.zero_lt_of_lt hbound)
  rw [expr_true_zero] at hexpr
  rw [commaExprs] at hnone
  rw [group, wrap, if_pos rfl, List.cons_append]
  apply Reads.expect
  intro _ _
  apply Reads.bind hexpr
  · apply Reads.bind_nil hnone
    · apply Reads.expect
      intro _ _
      exact Reads.pure e
    · rfl
  · exact goesOn_mark rfl (by decide)

theorem reads_tuple {es : List Expr} (hes : Form.written.expr (.tuple es) = true) (records : Bool)
    (hr : Ready place r (bare records (.tuple es)).length) :
    Reads place more (group r) (bare records (.tuple es)) (.tuple es) := by
  obtain _ | ⟨e, _ | ⟨e', es⟩⟩ := es
  · cases hes
  · cases hes
  · simp only [Form.expr, Form.exprs, Bool.and_eq_true] at hes
    have hlen : (bare records (.tuple (e :: e' :: es))).length =
        (expr true 0 e).length + (commaExprs (e' :: es)).length + 2 := by
      simp only [bare, exprs, List.length_cons, List.length_append, List.length_nil]
    have hbound := hr.bound
    have hfirst := hr.expression true 0 e hes.2.1 (by omega)
    have hrest : Reads place (unlessMark .rparen) (commaExpressions r r.bound)
        (commaExprs (e' :: es)) (e' :: es) :=
      reads_commaExpressions rfl (follow_closing rfl (by decide))
        (by simp [Form.exprs, hes]) hr (by omega) (by omega)
    rw [group, bare, exprs]
    simp only [List.cons_append, List.append_assoc]
    apply Reads.expect
    intro _ _
    apply Reads.bind hfirst
    · apply Reads.bind hrest
      · apply Reads.expect
        intro _ _
        exact Reads.pure _
      · rfl
    · rw [commaExprs]
      exact goesOn_mark rfl (by decide)

theorem reads_list {es : List Expr} (hes : Form.written.exprs es = true) (records : Bool)
    (hread : ∀ e ∈ es, Reads place (goesOn true 0) (r.expression true) (expr true 0 e) e)
    (hbound : (exprs es).length < r.bound) :
    Reads place more (list r) (bare records (.list es)) (.list es) := by
  rw [list, bare, List.cons_append]
  apply Reads.expect
  intro _ _
  apply Reads.bind (reads_expressions (.inr rfl) hes hread hbound)
  · apply Reads.expect
    intro _ _
    exact Reads.pure _
  · rfl

theorem reads_record {n : Name} {fs : List (Name × Expr)} (hn : n.isWritten = true)
    (hfs : Form.written.fields fs = true) (hr : Ready place r size)
    (hlen : (fields fs).length < size) :
    Reads place more (record r n.shown) (braces (fields fs)) (.record n fs) := by
  rw [record, ← Name.eq_text hn, braces, List.cons_append]
  apply Reads.expect
  intro _ _
  apply Reads.bind (reads_recordFields hfs hr hlen (Nat.lt_trans hlen hr.bound))
  · apply Reads.expect
    intro _ _
    exact Reads.pure _
  · rfl

theorem front_append {m : Mark} {ks : List Token.Kind}
    (h : ∃ k rest, ks = k :: rest ∧ k.isMark m = false) (ls : List Token.Kind) :
    ∃ k rest, ks ++ ls = k :: rest ∧ k.isMark m = false := by
  obtain ⟨k, rest, rfl, hk⟩ := h
  exact ⟨k, rest ++ ls, rfl, hk⟩

theorem reads_dict {ps : List (Expr × Expr)} (hps : Form.written.pairs ps = true) (records : Bool)
    (hr : Ready place r (bare records (.dict ps)).length) :
    Reads place more (brace r) (bare records (.dict ps)) (.dict ps) := by
  cases ps with
  | nil =>
    rw [brace, bare, braces, List.cons_append]
    apply Reads.expect
    intro _ _
    apply Reads.accept_true
    exact Reads.pure _
  | cons p ps =>
    obtain ⟨k, v⟩ := p
    simp only [Form.pairs, Bool.and_eq_true] at hps
    obtain ⟨n, hn, hfront⟩ := guarded_expr hps.1.1
    have hopens := opensExpr_expr hps.1.1 true n
    have hlen : (bare records (.dict ((k, v) :: ps))).length =
        (expr true n k).length + (expr true 0 v).length + (Printer.commaPairs ps).length + 3 := by
      simp only [bare, hn, braces, List.length_cons, List.length_append, List.length_nil]
      omega
    have hbound := hr.bound
    rw [brace, bare, hn, braces]
    simp only [List.cons_append, List.append_assoc]
    apply Reads.expect
    intro _ _
    apply Reads.accept_false ((hopens.append _).not_mark rfl)
    apply Reads.atStatement fun S R => OpensExpr.atStatement (hopens.append _) (front_append hfront _)
    apply Reads.bind (hr.expression true n k hps.1.1 (by omega))
    · apply Reads.accept_true
      apply Reads.bind (hr.expression true 0 v hps.1.2 (by omega))
      · apply Reads.bind (reads_commaPairs hps.2 hr (by omega) (by omega))
        · apply Reads.expect
          intro _ _
          exact Reads.pure _
        · rfl
      · cases ps with
        | nil =>
          rw [Printer.commaPairs]
          exact goesOn_mark rfl (by decide)
        | cons p ps =>
          rw [Printer.commaPairs]
          exact goesOn_mark rfl (by decide)
    · exact goesOn_mark rfl (by decide)

/-- A block in the place of an expression is read back: its first statement is no pair. -/
theorem reads_blockExpr {ss : List Stmt} (hne : ss ≠ []) (hss : Form.written.stmts ss = true)
    (records : Bool) (hr : Ready place r (bare records (.block ss)).length) :
    Reads place more (brace r) (bare records (.block ss)) (.block ss) := by
  obtain _ | ⟨s, ss⟩ := ss
  · exact absurd rfl hne
  have hlen : (bare records (.block (s :: ss))).length = (stmts (s :: ss)).length + 2 := by
    simp [bare, braces]
  have hbound := hr.bound
  have hwf := hss
  simp only [Form.stmts, Bool.and_eq_true] at hwf
  obtain ⟨k, rest, hks, hk⟩ := stmt_opensStmt hwf.1
  have hclose : ∃ k rest, stmts (s :: ss) ++ [.mark .rbrace] = k :: rest ∧
      k.isMark .rbrace = false := by
    refine ⟨k, rest ++ stmts ss ++ [.mark .rbrace], by rw [stmts, hks]; simp, ?_⟩
    cases hm : k.isMark .rbrace with
    | false => rfl
    | true =>
      rw [Token.Kind.isMark_iff] at hm
      subst hm
      cases hk
  rw [brace, bare, braces]
  simp only [List.cons_append]
  apply Reads.expect
  intro _ _
  apply Reads.accept_false hclose
  by_cases he : ∃ e, s = .expr e
  · -- The first expression is read before it is known that it is a statement.
    obtain ⟨e, rfl⟩ := he
    rw [Form.stmt] at hwf
    obtain ⟨n, hn, hfront⟩ := guarded_expr hwf.1
    have hopens := opensExpr_expr hwf.1 true n
    simp only [stmts, stmt, hn, List.length_append, List.length_cons, List.length_nil] at hlen
    simp only [stmts, stmt, hn, List.append_assoc, List.cons_append, List.nil_append]
    apply Reads.atStatement fun S R => OpensExpr.atStatement (hopens.append _) (front_append hfront _)
    apply Reads.bind (hr.expression true n e hwf.1 (by omega))
    · apply Reads.accept_false ⟨_, _, rfl, rfl⟩
      apply Reads.endStatement
      apply Reads.bind (reads_statements hwf.2 hr (by omega) (by omega))
      · apply Reads.expect
        intro _ _
        exact Reads.pure _
      · rfl
    · exact goesOn_mark rfl (by decide)
  · apply Reads.atStatement (b := true)
    · intro S R hS
      rw [stmts, List.append_assoc] at hS
      exact stmt_atStatement hwf.1 (fun e h => he ⟨e, h⟩) hS
    apply Reads.bind (reads_statements hss hr (by omega) (by omega))
    · apply Reads.expect
      intro _ _
      exact Reads.pure _
    · rfl

theorem reads_scalar {e : Expr} (h : e.isScalar = true) (records : Bool) :
    Reads place more (primary r records) (bare records e) e := by
  unfold primary
  cases e with
  | number _ | text _ =>
    rw [bare]
    exact .lookKind (.advance (Reads.pure _))
  | bool b =>
    cases b with
    | true | false =>
      rw [bare]
      exact .lookKind (.advance (Reads.pure _))
  | _ => cases h

/-- An expression that no operator takes apart is read back. -/
theorem reads_primary {e : Expr} (he : Form.written.expr e = true) (hlevel : e.level = 10)
    {records : Bool} (hrecord : e.isRecord = true → records = true)
    (hr : Ready place r (bare records e).length) :
    Reads place (goesOn records 10) (primary r records) (bare records e) e := by
  unfold primary
  cases e with
  | number _ | text _ | bool _ => exact reads_scalar rfl records
  | name n =>
    rw [Form.expr] at he
    rw [bare, Name.eq_text he]
    apply Reads.lookKind
    apply Reads.advance
    split
    · rename_i hrec
      simp only [Bool.and_eq_true] at hrec
      apply Reads.atMark_nil_false
      · simp [goesOn, Token.Kind.continues, hrec.1]
      · exact Reads.pure _
    · exact Reads.pure _
  | block ss =>
    simp only [Form.expr, Bool.and_eq_true] at he
    have hread : Reads place (goesOn records 10) _ _ _ :=
      reads_blockExpr (Form.made_block.mp he.1) he.2 records hr
    rw [bare] at hread ⊢
    exact .lookKind hread
  | lambda ps body =>
    simp only [Form.expr, Bool.and_eq_true] at he
    have hread : Reads place (goesOn records 10) _ _ _ := reads_lambda he.1 he.2 records hr
    rw [bare] at hread ⊢
    exact .lookKind hread
  | list es =>
    have hlen : (exprs es).length < (bare records (.list es)).length := by
      simp only [bare, List.length_append, List.length_cons]
      omega
    have hread : Reads place (goesOn records 10) _ _ _ :=
      reads_list he records (hr.items he hlen) (Nat.lt_trans hlen hr.bound)
    rw [bare] at hread ⊢
    exact .lookKind hread
  | dict ps =>
    have hread : Reads place (goesOn records 10) _ _ _ := reads_dict he records hr
    cases ps with
    | nil =>
      rw [bare] at hread ⊢
      exact .lookKind hread
    | cons p ps =>
      rw [bare] at hread ⊢
      exact .lookKind hread
  | tuple es =>
    have hread : Reads place (goesOn records 10) _ _ _ := reads_tuple he records hr
    rw [bare] at hread ⊢
    exact .lookKind hread
  | record n fs =>
    simp only [Form.expr, Bool.and_eq_true] at he
    have htype : isTypeName n.shown = true := he.1.2
    have hlen : (fields fs).length < (bare records (.record n fs)).length := by
      simp only [bare, braces, List.length_cons, List.length_append]
      omega
    rw [bare, Name.token]
    apply Reads.lookKind
    apply Reads.advance
    simp only [hrecord rfl, htype, Bool.and_self, if_true]
    apply Reads.atMark_true
    exact reads_record he.1.1 he.2 hr hlen
  | datum _ | invalid _ | stray _ => cases he
  | binary _ op _ => cases op <;> cases hlevel
  | _ => cases hlevel

end Parser

end Scripting
