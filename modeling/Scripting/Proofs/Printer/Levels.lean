import Scripting.Proofs.Printer.Expressions

/-!
Printed expressions are read back on every level that their place asks for. An expression is read on
its own level first; there a loop needs to know that its left operand leads into the loop. Lower
levels pass it on, and parentheses lift any expression to the highest level.
-/

namespace Scripting.Parser

open Printer

variable {place : Position → Prop} {r : Sorts} {records : Bool}

/-- An expression without parentheses is read on its own level. -/
structure Native (place : Position → Prop) (r : Sorts) (e : Expr) : Prop where
  wellFormed : Form.written.expr e = true
  readsOn : ∀ records, (e.isRecord = true → records = true) →
    Ready place r (bare records e).length →
    ReadsOn place r records e.level (bare records e) e
  leads : ∀ records, Ready place r (bare records e).length → IsLoop e.level →
    Leads place r records e.level (bare records e) e

theorem expr_bracketed {e : Expr} {n : Nat} (h : e.bracketed records n = true) :
    expr records n e = wrap true (bare true e) := by
  simp [expr, h]

theorem expr_unbracketed {e : Expr} {n : Nat} (h : e.bracketed records n = false) :
    expr records n e = bare records e := by
  simp [expr, h, wrap]

theorem level_of_unbracketed {e : Expr} {n : Nat} (h : e.bracketed records n = false) :
    n ≤ e.level ∧ (e.isRecord = true → records = true) := by
  simp only [Expr.bracketed, Bool.or_eq_false_iff, decide_eq_false_iff_not, Nat.not_lt] at h
  refine ⟨h.1, fun hrec => ?_⟩
  simpa [hrec] using h.2

namespace Native

variable {e : Expr} {n : Nat}

/-- With or without parentheses, an expression is read on every level up to its own. -/
theorem readsOn_expr (h : Native place r e) (hr : Ready place r (expr records n e).length) {m : Nat}
    (hm : m ≤ 10) (hlevel : e.bracketed records n = false → m ≤ e.level) :
    ReadsOn place r records m (expr records n e) e := by
  cases hb : e.bracketed records n with
  | true =>
    have hlen : (wrap true (bare true e)).length = (bare true e).length + 2 := by simp [wrap]
    rw [expr_bracketed hb] at hr ⊢
    have hprimary : ReadsOn place r records 10 (wrap true (bare true e)) e := by
      intro b _
      exact .lookKind (reads_group h.wellFormed (hr.mono (Nat.le_of_eq hlen.symm)))
    exact hprimary.of_le hm (Nat.le_refl 10) hr.bound
  | false =>
    rw [expr_unbracketed hb] at hr ⊢
    have hown := h.readsOn records (level_of_unbracketed hb).2 hr
    exact hown.of_le (hlevel hb) (level_le e) hr.bound

theorem reads_expr (h : Native place r e) (hr : Ready place r (expr records n e).length) {m : Nat}
    (hm : m ≤ 10) (hmn : m ≤ n) : ReadsOn place r records m (expr records n e) e :=
  h.readsOn_expr hr hm fun hb => Nat.le_trans hmn (level_of_unbracketed hb).1

theorem leads_expr (h : Native place r e) (hn : IsLoop n)
    (hr : Ready place r (expr records n e).length) :
    Leads place r records n (expr records n e) e := by
  have hle : n + 1 ≤ 10 := by
    unfold IsLoop at hn
    omega
  by_cases hown : e.bracketed records n = false ∧ e.level = n
  · obtain ⟨hb, rfl⟩ := hown
    rw [expr_unbracketed hb] at hr ⊢
    exact h.leads records hr hn
  · refine (h.readsOn_expr hr hle fun hb => ?_).leads hr.bound
    have hne : e.level ≠ n := fun heq => hown ⟨hb, heq⟩
    have hge := (level_of_unbracketed hb).1
    omega

/-- Expressions on the level of a loop are read by the loop. -/
theorem of_leads (he : Form.written.expr e = true) (hn : IsLoop e.level)
    (h : ∀ records, Ready place r (bare records e).length →
      Leads place r records e.level (bare records e) e) : Native place r e where
  wellFormed := he
  readsOn records _ hr := (h records hr).readsOn hn hr.bound
  leads records hr _ := h records hr

/-- Expressions on the other levels are read at once. -/
theorem of_readsOn (he : Form.written.expr e = true) (hn : ¬ IsLoop e.level)
    (h : ∀ records, (e.isRecord = true → records = true) →
      Ready place r (bare records e).length →
      ReadsOn place r records e.level (bare records e) e) : Native place r e where
  wellFormed := he
  readsOn := h
  leads _ _ hloop := absurd hloop hn

end Native

theorem op?_mark {op : BinaryOp} (h : op ≠ .pow) :
    (Token.Kind.mark op.mark).op? (levelOp? op.level) = some op := by
  cases op <;> first | rfl | exact absurd rfl h

theorem level?_mark (op : BinaryOp) : op.mark.level? = some op.level := by cases op <;> rfl

theorem isLoop_level {op : BinaryOp} (h : op ≠ .pow) : IsLoop op.level := by
  cases op with
  | pow => exact absurd rfl h
  | _ => exact .inl (by decide)

theorem goesOn_op (op : BinaryOp) {n : Nat} (hn : op.level < n) :
    goesOn records n (some (.mark op.mark)) = false := by
  have hb : op.mark ≠ .lbrace := by cases op <;> decide
  simp [goesOn, Token.Kind.continues, level?_mark, hb, hn]

/-- An operator that groups to the left. -/
theorem leads_binary {l e : Expr} {op : BinaryOp} (hop : op ≠ .pow) (hl : Native place r l)
    (he : Native place r e) (hr : Ready place r (bare records (.binary l op e)).length) :
    Leads place r records op.level (bare records (.binary l op e)) (.binary l op e) := by
  have hlevels : op.leftLevel = op.level ∧ op.rightLevel = op.level + 1 ∧ op.level ≤ 6 := by
    cases op with
    | pow => exact absurd rfl hop
    | _ => decide
  obtain ⟨hleft, hright, hle⟩ := hlevels
  rw [bare, hleft, hright] at hr ⊢
  rw [List.length_append, List.length_cons] at hr
  have hlead : Leads place r records op.level (expr records op.level l) l :=
    hl.leads_expr (isLoop_level hop) (hr.mono (by omega))
  have hready : Ready place r (expr records (op.level + 1) e).length := hr.mono (by omega)
  have hoperand := he.reads_expr hready (by omega) (Nat.le_refl _) r.bound hready.bound
  refine hlead.step (List.cons_ne_nil _ _) (goesOn_op op (Nat.lt_succ_self _)) ?_
  intro b S M hS hM
  cases hS with
  | cons _ hp hrest =>
    unfold loop
    rw [if_neg (by omega), if_neg (by omega), chain_some _ _ _ _ _ _ (op?_mark hop),
      bind_of_ok (hoperand _ _ hrest hM)]

theorem isLoop_trailer : IsLoop 9 := .inr rfl

/-- A call is read back on the level of trailers. -/
theorem leads_call {f : Expr} {args : List Expr} (hf : Native place r f)
    (hargs : Form.written.exprs args = true)
    (hr : Ready place r (bare records (.call f args)).length) :
    Leads place r records 9 (bare records (.call f args)) (.call f args) := by
  rw [bare, List.append_assoc] at hr ⊢
  simp only [List.cons_append, List.length_append, List.length_cons, List.length_nil] at hr
  have hbound := hr.bound
  have hlead : Leads place r records 9 (expr records 9 f) f :=
    hf.leads_expr isLoop_trailer (hr.mono (by omega))
  have hread := reads_expressions (.inl rfl) hargs (hr.items hargs (by omega)) (b := r.bound)
    (by omega)
  refine hlead.step (List.cons_ne_nil _ _) rfl ?_
  intro b S M hS hM
  cases hS with
  | cons _ hp hrest =>
    obtain ⟨M', hargs, hclose⟩ := hrest.append
    cases hclose with
    | cons _ hp' hnil =>
      cases hnil
      unfold loop
      rw [if_pos rfl, if_pos rfl, trailers_call, bind_of_ok (hread _ _ hargs rfl),
        bind_of_ok (expect_mark _ _ _)]

/-- A point and a name behind what the loop has read. -/
theorem Leads.field {ks : List Token.Kind} {e : Expr} (h : Leads place r records 9 ks e)
    (x : String) :
    Leads place r records 9 (ks ++ [.mark .dot, .name x]) (.field e (.text x)) := by
  refine h.step (List.cons_ne_nil _ _) rfl ?_
  intro b S M hS hM
  cases hS with
  | cons _ hp hrest =>
    cases hrest with
    | cons _ hp' hnil =>
      cases hnil
      unfold loop
      rw [if_pos rfl, if_pos rfl, trailers_field, bind_of_ok (expectName_name _ _ _ _)]

theorem leads_field {e : Expr} {n : Name} (he : Native place r e) (hn : n.isWritten = true)
    (hr : Ready place r (bare records (.field e n)).length) :
    Leads place r records 9 (bare records (.field e n)) (.field e n) := by
  rw [bare, Name.token] at hr ⊢
  have hlead : Leads place r records 9 (expr records 9 e) e :=
    he.leads_expr isLoop_trailer (hr.mono (by simp))
  have hfield := hlead.field n.shown
  rw [← Name.eq_text hn] at hfield
  exact hfield

theorem leads_index {e i : Expr} (he : Native place r e) (hi : Form.written.expr i = true)
    (hr : Ready place r (bare records (.index e i)).length) :
    Leads place r records 9 (bare records (.index e i)) (.index e i) := by
  rw [bare, List.append_assoc] at hr ⊢
  simp only [List.cons_append, List.length_append, List.length_cons, List.length_nil] at hr
  have hlead : Leads place r records 9 (expr records 9 e) e :=
    he.leads_expr isLoop_trailer (hr.mono (by omega))
  have hread := hr.expression true 0 i hi (by omega)
  refine hlead.step (List.cons_ne_nil _ _) rfl ?_
  intro b S M hS hM
  cases hS with
  | cons _ hp hrest =>
    obtain ⟨M', hindex, hclose⟩ := hrest.append
    cases hclose with
    | cons _ hp' hnil =>
      cases hnil
      unfold loop
      rw [if_pos rfl, if_pos rfl, trailers_index, bind_of_ok (hread _ _ hindex rfl),
        bind_of_ok (expect_mark _ _ _)]

theorem reads_signed (op : UnaryOp) {e : Expr} {ks : List Token.Kind} {b : Nat}
    (h : Reads place (goesOn records 8) (signed r records b) ks e) :
    Reads place (goesOn records 8) (signed r records (b + 1)) (.mark op.mark :: ks)
      (.unary op e) := by
  rw [signed]
  cases op with
  | neg =>
    apply Reads.accept_true
    exact h.map
  | not =>
    apply Reads.accept_false ⟨_, _, rfl, rfl⟩
    apply Reads.accept_true
    exact h.map

theorem readsOn_unary {op : UnaryOp} {e : Expr} (he : Native place r e)
    (hr : Ready place r (bare records (.unary op e)).length) :
    ReadsOn place r records 8 (bare records (.unary op e)) (.unary op e) := by
  rw [bare] at hr ⊢
  intro b hb
  rw [List.length_cons] at hb hr
  obtain ⟨b, rfl⟩ : ∃ c, b = c + 1 := ⟨b - 1, by omega⟩
  have hoperand : Reads place (goesOn records 8) (signed r records b) (expr records 8 e) e :=
    he.reads_expr (hr.mono (by omega)) (by omega) (Nat.le_refl 8) b (by omega)
  exact reads_signed op hoperand

/-- A power is read back: it groups to the right. -/
theorem readsOn_power {l e : Expr} (hl : Native place r l) (he : Native place r e)
    (hr : Ready place r (bare records (.binary l .pow e)).length) :
    ReadsOn place r records 7 (bare records (.binary l .pow e)) (.binary l .pow e) := by
  rw [bare] at hr ⊢
  intro b hb
  rw [List.length_append, List.length_cons] at hb hr
  obtain ⟨b, rfl⟩ : ∃ c, b = c + 1 := ⟨b - 1, by omega⟩
  have hbase : Reads place (goesOn records 8) (signed r records r.bound) (expr records 8 l) l :=
    hl.reads_expr (hr.mono (by simp only [BinaryOp.leftLevel]; omega)) (by omega) (Nat.le_refl 8)
      r.bound (Nat.lt_of_le_of_lt (by simp only [BinaryOp.leftLevel]; omega) hr.bound)
  have hpower : Reads place (goesOn records 7) (power r records b) (expr records 7 e) e :=
    he.reads_expr (hr.mono (by simp only [BinaryOp.rightLevel]; omega)) (by omega) (Nat.le_refl 7)
      b (by simp only [BinaryOp.rightLevel] at hb; omega)
  change Reads place (goesOn records 7) (power r records (b + 1)) _ _
  rw [power]
  apply Reads.bind hbase
  · apply Reads.accept_true
    exact hpower.map
  · exact goesOn_op .pow (by decide)

theorem native_primary {e : Expr} (he : Form.written.expr e = true) (hlevel : e.level = 10) :
    Native place r e := by
  refine .of_readsOn he (by rw [hlevel]; unfold IsLoop; omega) fun records hrec hr => ?_
  rw [hlevel]
  intro b _
  exact reads_primary he hlevel hrec hr

theorem readsOn_assign {n : Name} {e : Expr} (hn : n.isWritten = true)
    (he : Form.written.expr e = true) (hr : Ready place r (bare records (.assign n e)).length) :
    ReadsOn place r records 0 (bare records (.assign n e)) (.assign n e) := by
  have hname : Native place r (.name n) := native_primary (by rw [Form.expr]; exact hn) rfl
  have htoken : expr records 1 (.name n) = [n.token] := by
    rw [expr_unbracketed (by simp [Expr.bracketed, Expr.level, Expr.isRecord]), bare]
  rw [bare] at hr ⊢
  simp only [List.length_cons] at hr
  have htarget : Reads place (goesOn records 1) (disjunction r records) [n.token] (.name n) := by
    have hready : Ready place r (expr records 1 (.name n)).length :=
      hr.mono (by rw [htoken, List.length_singleton]; omega)
    rw [← htoken]
    exact hname.reads_expr hready (by omega) (Nat.le_refl 1) r.bound hready.bound
  have hvalue := hr.expression records 0 e he (by omega)
  intro b _
  change Reads place (goesOn records 0) (assignment r records) ([n.token] ++ _) _
  rw [assignment_eq]
  apply Reads.bind htarget
  · refine Reads.take (fun p S => assigned_name r records p S n) ?_
    exact hvalue.map
  · rfl

/-- Every well-formed expression is read on its own level. -/
theorem native (e : Expr) (he : Form.written.expr e = true) : Native place r e := by
  cases e with
  | binary l op e =>
    have hwf := he
    simp only [Form.expr, Bool.and_eq_true] at hwf
    have hl := native l hwf.1
    have he' := native e hwf.2
    by_cases hop : op = .pow
    · subst hop
      refine .of_readsOn he ?_ fun records _ hr => readsOn_power hl he' hr
      change ¬ IsLoop 7
      unfold IsLoop
      omega
    · exact .of_leads he (isLoop_level hop) fun records hr => leads_binary hop hl he' hr
  | unary op e =>
    have hwf := he
    rw [Form.expr] at hwf
    have he' := native e hwf
    refine .of_readsOn he ?_ fun records _ hr => readsOn_unary he' hr
    change ¬ IsLoop 8
    unfold IsLoop
    omega
  | call f args =>
    have hwf := he
    simp only [Form.expr, Bool.and_eq_true] at hwf
    exact .of_leads he isLoop_trailer fun records hr => leads_call (native f hwf.1) hwf.2 hr
  | field e n =>
    have hwf := he
    simp only [Form.expr, Bool.and_eq_true] at hwf
    exact .of_leads he isLoop_trailer fun records hr => leads_field (native e hwf.1) hwf.2 hr
  | index e i =>
    have hwf := he
    simp only [Form.expr, Bool.and_eq_true] at hwf
    exact .of_leads he isLoop_trailer fun records hr => leads_index (native e hwf.1) hwf.2 hr
  | assign n e =>
    have hwf := he
    simp only [Form.expr, Bool.and_eq_true] at hwf
    refine .of_readsOn he ?_ fun records _ hr => readsOn_assign hwf.1 hwf.2 hr
    change ¬ IsLoop 0
    unfold IsLoop
    omega
  | _ => exact native_primary he rfl

end Scripting.Parser
