import Scripting.Proofs.Lexer.Tokens
import Scripting.Proofs.Printer.Statements

/-!
The round trip: a well-formed program is read back from its text. The tokens of the program can all
be written, the text with a blank behind each has these tokens, and the parser reads them as the
program.
-/

namespace Scripting

namespace Printer

open Token.Kind (isWritten)

theorem isWritten_token {n : Name} (h : n.isWritten = true) : n.token.isWritten = true := by
  rw [Name.isWritten, Bool.and_eq_true] at h
  exact h.2

@[simp] theorem isWritten_mark (m : Mark) : isWritten (.mark m) = true := rfl

@[simp] theorem isWritten_keyword (w : Keyword) : isWritten (.keyword w) = true := rfl

@[simp] theorem isWritten_text (s : String) : isWritten (.text s) = true := rfl

@[simp] theorem all_written_wrap (b : Bool) (ks : List Token.Kind) :
    (wrap b ks).all isWritten = ks.all isWritten := by
  cases b <;> simp [wrap]

@[simp] theorem all_written_braces (ks : List Token.Kind) :
    (braces ks).all isWritten = ks.all isWritten := by
  simp [braces]

@[simp] theorem all_written_guarded (ks : List Token.Kind) :
    (guarded ks).all isWritten = ks.all isWritten :=
  all_written_wrap _ _

theorem all_written_params {ps : List Name} (h : ps.all Name.isWritten = true) :
    (params ps).all isWritten = true := by
  induction ps with
  | nil => rfl
  | cons n ns ih =>
    rw [List.all_cons, Bool.and_eq_true] at h
    cases ns with
    | nil => simp [params, isWritten_token h.1]
    | cons m ns =>
      have hns := ih h.2
      simp [params, isWritten_token h.1, hns]

theorem all_written_function {ps : List Name} {ks : List Token.Kind}
    (hps : ps.all Name.isWritten = true) (hks : ks.all isWritten = true) :
    (function ps ks).all isWritten = true := by
  simp [function, all_written_params hps, hks]

theorem all_written_expr {e : Expr} (h : ∀ records, (bare records e).all isWritten = true)
    (records : Bool) (n : Nat) : (expr records n e).all isWritten = true := by
  rw [expr, all_written_wrap]
  exact h _

mutual

/-- The tokens of an expression can be written down. -/
theorem all_written_bare (e : Expr) (he : Form.written.expr e = true) (records : Bool) :
    (bare records e).all isWritten = true := by
  have hwf := he
  cases e with
  | number x =>
    have hx : Number.isUnsigned x = true := hwf
    simp [bare, isWritten, hx]
  | bool b => cases b <;> simp [bare]
  | text s => simp [bare]
  | name n =>
    rw [Form.expr] at hwf
    simp [bare, isWritten_token hwf]
  | binary l op r =>
    simp only [Form.expr, Bool.and_eq_true] at hwf
    have hl := all_written_expr (all_written_bare l hwf.1)
    have hr := all_written_expr (all_written_bare r hwf.2)
    simp [bare, hl, hr]
  | unary op e =>
    rw [Form.expr] at hwf
    have he := all_written_expr (all_written_bare e hwf)
    simp [bare, he]
  | call f args =>
    simp only [Form.expr, Bool.and_eq_true] at hwf
    have hf := all_written_expr (all_written_bare f hwf.1)
    simp [bare, hf, all_written_exprs args hwf.2]
  | assign n e =>
    simp only [Form.expr, Bool.and_eq_true] at hwf
    have he := all_written_expr (all_written_bare e hwf.2)
    simp [bare, isWritten_token hwf.1, he]
  | block ss =>
    simp only [Form.expr, Bool.and_eq_true] at hwf
    simp [bare, all_written_stmts ss hwf.2]
  | lambda ps body =>
    simp only [Form.expr, Bool.and_eq_true] at hwf
    simp [bare, all_written_function hwf.1 (all_written_stmts body hwf.2)]
  | list es =>
    rw [Form.expr] at hwf
    simp [bare, all_written_exprs es hwf]
  | dict ps =>
    rw [Form.expr] at hwf
    cases ps with
    | nil => simp [bare]
    | cons p ps =>
      obtain ⟨k, v⟩ := p
      simp only [Form.pairs, Bool.and_eq_true] at hwf
      have hk := all_written_expr (all_written_bare k hwf.1.1)
      have hv := all_written_expr (all_written_bare v hwf.1.2)
      simp [bare, hk, hv, all_written_commaPairs ps hwf.2]
  | tuple es =>
    simp only [Form.expr, Bool.and_eq_true] at hwf
    simp [bare, all_written_exprs es hwf.2]
  | field e n =>
    simp only [Form.expr, Bool.and_eq_true] at hwf
    have he := all_written_expr (all_written_bare e hwf.1)
    simp [bare, he, isWritten_token hwf.2]
  | index e i =>
    simp only [Form.expr, Bool.and_eq_true] at hwf
    have he := all_written_expr (all_written_bare e hwf.1)
    have hi := all_written_expr (all_written_bare i hwf.2)
    simp [bare, he, hi]
  | record n fs =>
    simp only [Form.expr, Bool.and_eq_true] at hwf
    simp [bare, isWritten_token hwf.1.1, all_written_fields fs hwf.2]
  | datum _ | invalid _ | stray _ => cases hwf

theorem all_written_exprs (es : List Expr) (hes : Form.written.exprs es = true) :
    (exprs es).all isWritten = true := by
  cases es with
  | nil => simp [exprs]
  | cons e es =>
    simp only [Form.exprs, Bool.and_eq_true] at hes
    have he := all_written_expr (all_written_bare e hes.1)
    simp [exprs, he, all_written_commaExprs es hes.2]

theorem all_written_commaExprs (es : List Expr) (hes : Form.written.exprs es = true) :
    (commaExprs es).all isWritten = true := by
  cases es with
  | nil => simp [commaExprs]
  | cons e es =>
    simp only [Form.exprs, Bool.and_eq_true] at hes
    have he := all_written_expr (all_written_bare e hes.1)
    simp [commaExprs, he, all_written_commaExprs es hes.2]

theorem all_written_commaPairs (ps : List (Expr × Expr)) (hps : Form.written.pairs ps = true) :
    (commaPairs ps).all isWritten = true := by
  cases ps with
  | nil => simp [commaPairs]
  | cons p ps =>
    obtain ⟨k, v⟩ := p
    simp only [Form.pairs, Bool.and_eq_true] at hps
    have hk := all_written_expr (all_written_bare k hps.1.1)
    have hv := all_written_expr (all_written_bare v hps.1.2)
    simp [commaPairs, hk, hv, all_written_commaPairs ps hps.2]

theorem all_written_fields (fs : List (Name × Expr)) (hfs : Form.written.fields fs = true) :
    (fields fs).all isWritten = true := by
  cases fs with
  | nil => simp [fields]
  | cons f fs =>
    obtain ⟨n, e⟩ := f
    simp only [Form.fields, Bool.and_eq_true] at hfs
    have he := all_written_expr (all_written_bare e hfs.1.2)
    simp [fields, isWritten_token hfs.1.1, he, all_written_fields fs hfs.2]

theorem all_written_stmt (s : Stmt) (hs : Form.written.stmt s = true) :
    (stmt s).all isWritten = true := by
  have hwf := hs
  cases s with
  | expr e =>
    rw [Form.stmt] at hwf
    have he := all_written_expr (all_written_bare e hwf)
    simp [stmt, he]
  | let_ n e | const n e =>
    simp only [Form.stmt, Bool.and_eq_true] at hwf
    have he := all_written_expr (all_written_bare e hwf.2)
    simp [stmt, isWritten_token hwf.1, he]
  | function n ps body =>
    simp only [Form.stmt, Bool.and_eq_true] at hwf
    have hbody := all_written_function hwf.1.2 (all_written_stmts body hwf.2)
    simp [stmt, isWritten_token hwf.1.1, hbody]
  | return_ value =>
    cases value with
    | none => simp [stmt]
    | some e =>
      rw [Form.stmt] at hwf
      have he := all_written_expr (all_written_bare e hwf)
      simp [stmt, he]
  | if_ c t e =>
    simp only [Form.stmt, Bool.and_eq_true] at hwf
    have hc := all_written_expr (all_written_bare c hwf.1.1)
    simp [stmt, hc, all_written_stmts t hwf.1.2, all_written_otherwise e hwf.2]
  | while_ c body =>
    simp only [Form.stmt, Bool.and_eq_true] at hwf
    have hc := all_written_expr (all_written_bare c hwf.1.2)
    simp [stmt, hc, all_written_stmts body hwf.2]
  | for_ n a b body =>
    simp only [Form.stmt, Bool.and_eq_true] at hwf
    have ha := all_written_expr (all_written_bare a hwf.1.1.2)
    have hb := all_written_expr (all_written_bare b hwf.1.2)
    simp [stmt, isWritten_token hwf.1.1.1, ha, hb, all_written_stmts body hwf.2]
  | import_ path => simp [stmt]
  | block ss =>
    rw [Form.stmt] at hwf
    simp [stmt, all_written_stmts ss hwf]
  | break_ | continue_ => simp [stmt]
  | print e =>
    simp only [Form.stmt, Bool.and_eq_true] at hwf
    have he := all_written_expr (all_written_bare e hwf.2)
    simp [stmt, he]
  | printAll es =>
    simp only [Form.stmt, Bool.and_eq_true] at hwf
    simp [stmt, all_written_exprs es hwf.2]
  | type n fs ms =>
    simp only [Form.stmt, Bool.and_eq_true] at hwf
    simp [stmt, isWritten_token hwf.1.1.1, all_written_fields fs hwf.1.1.2,
      all_written_stmts ms hwf.2]
  | invalid _ | stray _ => cases hwf

theorem all_written_otherwise (e : Option (List Stmt)) (he : Form.written.otherwise e = true) :
    (otherwise e).all isWritten = true := by
  cases e with
  | none => simp [otherwise]
  | some ss =>
    rw [Form.otherwise] at he
    have hss := all_written_stmts ss he
    rw [otherwise]
    split <;> simp [hss]

/-- Every token of a well-formed program can be written. -/
theorem all_written_stmts (ss : List Stmt) (hss : Form.written.stmts ss = true) :
    (stmts ss).all isWritten = true := by
  cases ss with
  | nil => simp [stmts]
  | cons s ss =>
    simp only [Form.stmts, Bool.and_eq_true] at hss
    simp [stmts, all_written_stmt s hss.1, all_written_stmts ss hss.2]

end

/-- The text of a program, with a blank behind each token. -/
def print (p : Program) : String := String.ofList (Lexer.spaced (stmts p))

end Printer

namespace Position

theorem line_after {cs : List Char} (h : '\n' ∉ cs) (p : Position) : (p.after cs).line = p.line := by
  induction cs generalizing p with
  | nil => rfl
  | cons c cs ih =>
    rw [List.mem_cons, not_or] at h
    have hnext : (p.next c).line = p.line := by simp [next, Ne.symm h.1]
    rw [after_cons, ih h.2, hnext]

end Position

namespace Cursor

/-- Within a line, moving ahead stays on it. -/
theorem line_skip {c : Cursor} (h : '\n' ∉ c.rest) (n : Nat) :
    (c.skip n).position.line = c.position.line ∧ '\n' ∉ (c.skip n).rest := by
  constructor
  · exact Position.line_after (fun hmem => h (List.mem_of_mem_take hmem)) c.position
  · exact fun hmem => h (List.mem_of_mem_drop hmem)

end Cursor

namespace Stream

variable {place : Position → Prop} {ks : List Token.Kind}

theorem Begins.length_eq {R S : Stream} (h : Begins place R ks S) :
    S.length = ks.length + R.length := by
  induction h with
  | nil => simp
  | cons k hp rest ih =>
    rw [length, ih, List.length_cons]
    omega

theorem Spells.begins {S : Stream} (h : Spells ks S) :
    ∃ q, Begins (fun _ => True) (.finish q) ks S := by
  induction h with
  | finish p => exact ⟨p, .nil⟩
  | token k p rest ih =>
    obtain ⟨q, hq⟩ := ih
    exact ⟨q, .cons k trivial hq⟩

/-- All tokens of a text of one line stand on the line of the cursor. -/
theorem Spells.begins_line {c : Cursor} {S : Stream} (h : Spells ks S) (hfinds : c.Finds S)
    (hline : '\n' ∉ c.rest) :
    ∃ q, Begins (fun p => p.line = c.position.line) (.finish q) ks S := by
  induction hfinds generalizing ks with
  | finish =>
    cases h
    exact ⟨_, .nil⟩
  | invalid => cases h
  | @token c _ _ k n _ _ _ _ ih =>
    obtain ⟨hgap, hrest⟩ := Cursor.line_skip hline (Lexer.gapLength false c.rest)
    obtain ⟨hskip, hbehind⟩ := Cursor.line_skip hrest n
    have hline : (c.skipGap.skip n).position.line = c.position.line := hskip.trans hgap
    cases h with
    | token _ _ rest =>
      obtain ⟨q, hq⟩ := ih rest hbehind
      rw [hline] at hq
      exact ⟨q, .cons k hgap hq⟩

end Stream

namespace Parser

open Printer

variable {place : Position → Prop}

theorem reads_program_nil (r : Sorts) (b : Nat) :
    Reads place Option.isSome (program r (b + 1)) [] [] := by
  intro S R hS hR
  cases hS
  cases S with
  | finish p => rfl
  | token t S => cases hR
  | invalid e => exact hR.elim

theorem reads_program_cons {before more : Option Token.Kind → Bool} {r : Sorts} {b : Nat}
    {k : Token.Kind} {ks ls : List Token.Kind} {s : Stmt} {ss : List Stmt}
    (hk : k ≠ .mark .semicolon) (hs : Reads place before r.statement (k :: ks) s)
    (hss : Reads place more (program r b) ls ss) (hfollow : Follow before more ls) :
    Reads place more (program r (b + 1)) (k :: ks ++ ls) (s :: ss) :=
  Reads.congr_cons (fun p S => program_statement r p S b hk) (hs.bind hss.map hfollow)

/-- The statements of a program are read back up to the end of the input. -/
theorem reads_program {r : Sorts} {size : Nat} {ss : List Stmt} (hss : Form.written.stmts ss = true)
    (hr : Ready place r size) (hlen : (stmts ss).length < size) {b : Nat}
    (hb : (stmts ss).length < b) : Reads place Option.isSome (program r b) (stmts ss) ss := by
  induction ss generalizing b with
  | nil =>
    obtain ⟨b, rfl⟩ : ∃ c, b = c + 1 := ⟨b - 1, by omega⟩
    rw [stmts]
    exact reads_program_nil r b
  | cons s ss ih =>
    obtain ⟨b, rfl⟩ : ∃ c, b = c + 1 := ⟨b - 1, by omega⟩
    simp only [Form.stmts, Bool.and_eq_true] at hss
    simp only [stmts, List.length_append] at hlen hb
    have hfirst := hr.statement s hss.1 (by omega)
    obtain ⟨k, rest, hks, hk⟩ := stmt_opensStmt hss.1
    have hsemicolon : k ≠ .mark .semicolon := by
      rintro rfl
      cases hk
    rw [stmts, hks]
    rw [hks] at hb hfirst
    rw [List.length_cons] at hb
    exact reads_program_cons hsemicolon hfirst (ih hss.2 (by omega) (by omega))
      (follow_stmts rfl hss.2)

theorem parseStream_of_begins {limit : Option Int} {p : Program} (hp : p.wellFormed = true)
    (hroom : ∀ first last n, place first → place last → limit = some n →
      ((last.line - first.line : Nat) : Int) ≤ n)
    {q : Position} {S : Stream} (hS : Stream.Begins place (.finish q) (stmts p) S) :
    parseStream limit S = .ok p := by
  have hlength : S.length = (stmts p).length := hS.length_eq
  have henough : (stmts p).length + 1 < enough S := by
    rw [enough, hlength]
    omega
  have hread := reads_program hp (ready_sorts hroom henough) (Nat.lt_succ_self _)
    (Nat.lt_of_succ_lt henough)
  have hok := hread S (.finish q) hS rfl
  rw [parseStream, hok]
  rfl

end Parser

/-- A well-formed program is read back from every text of its tokens, however these are spaced and
commented, and from its printed text also when the length of functions is limited. -/
theorem parse_print {p : Program} (hp : p.wellFormed = true) :
    (∀ source : String, Lexer.Lexes source.toList (Printer.stmts p) → parse none source = .ok p) ∧
      ∀ limit : Option Int, (∀ n, limit = some n → 0 ≤ n) →
        parse limit (Printer.print p) = .ok p := by
  constructor
  · intro source hsource
    obtain ⟨q, hq⟩ := (Stream.spells_ofText_iff.mpr hsource).begins
    refine Parser.parseStream_of_begins hp ?_ hq
    intro first last n _ _ hn
    cases hn
  · intro limit hlimit
    have hwritten := Printer.all_written_stmts p hp
    have htext : (Printer.print p).toList = Lexer.spaced (Printer.stmts p) :=
      String.toList_ofList
    have hline : '\n' ∉ (Cursor.ofText (Printer.print p)).rest := by
      rw [Cursor.ofText, htext]
      exact Lexer.spaced_line hwritten
    have hspells : Stream.Spells (Printer.stmts p) (Stream.ofText (Printer.print p)) := by
      rw [Stream.spells_ofText_iff, htext]
      exact Lexer.lexes_spaced hwritten
    obtain ⟨q, hq⟩ := hspells.begins_line (Cursor.finds_ofText _) hline
    refine Parser.parseStream_of_begins hp ?_ hq
    intro first last n hfirst hlast hn
    have hpos := hlimit n hn
    rw [hfirst, hlast, Nat.sub_self]
    exact hpos

/-- A record literal in a header, powers grouped to the left, and a dictionary at the front of a
statement. -/
theorem parse_print_parentheses :
    parse (some 0) (Printer.print
      [.if_ (.field (.record (.text "P") [(.text "x", .number 1.5)]) (.text "x"))
        [.expr (.dict [(.text "k", .lambda [.text "a"] [.return_ (some (.name (.text "a")))])])]
        (some [.if_ (.binary (.binary (.name (.text "a")) .pow (.name (.text "b"))) .pow
          (.unary .neg (.number 2))) [] none])]) =
    .ok [.if_ (.field (.record (.text "P") [(.text "x", .number 1.5)]) (.text "x"))
        [.expr (.dict [(.text "k", .lambda [.text "a"] [.return_ (some (.name (.text "a")))])])]
        (some [.if_ (.binary (.binary (.name (.text "a")) .pow (.name (.text "b"))) .pow
          (.unary .neg (.number 2))) [] none])] := by
  refine (parse_print ?_).2 (some 0) ?_
  · decide
  · rintro n ⟨⟩
    decide

end Scripting
