import Scripting.Proofs.Eval.Composed
import Scripting.Proofs.Number.Shown
import Scripting.Proofs.Parser.Programs

/-!
Data and its text. Truth values, texts, finite numbers and lists of data are written as expressions:
the text of such a value inside of a list is parsed as one expression, and what the expression
evaluates to equals the value. It need not be the very same, since a zero loses its sign.

`Value.Denotes` holds what lexer, parser and evaluator say about one value; each kind of data has a
lemma that proves all of it, and lists take it from their items. Data has no braces, so it is read
under every limit on the length of functions, where printed programs need room for theirs.
-/

namespace Scripting

/-- Truth values, texts, finite numbers, and lists of these. -/
inductive Value.IsData : Value → Prop
  | bool (b : Bool) : IsData (.bool b)
  | text (s : String) : IsData (.text s)
  | number {x : Float} (finite : Parts.of? x ≠ none) : IsData (.number x)
  | list {items : List Value} (data : ∀ v ∈ items, IsData v) : IsData (.list items)

namespace Value

open Scripting.Lexer Scripting.Parser

/-- The text of `v` inside of a list spells the expression `e`, wherever it stands, and `e` has the
value `w`, which equals `v`. -/
structure Denotes (v : Value) (e : Expr) (w : Value) : Prop where
  wellFormed : Form.written.expr e = true
  front : ∃ k rest, Printer.expr true 0 e = k :: rest ∧ k.isMark .lbrace = false
  lexes : ∀ {rest : List Char} {ks : List Token.Kind}, Separated rest → Lexes rest ks →
    Lexes ((v.render true).toList ++ rest) (Printer.expr true 0 e ++ ks)
  reads : ∀ (limit : Option Int) {b : Nat}, (Printer.expr true 0 e).length < b →
    Reads (fun _ => True) (goesOn true 0) (expression limit (b + 1) true) (Printer.expr true 0 e) e
  evaluates : ∀ (settings : Settings) (steps : Nat) (m : Machine), sizeOf e ≤ steps →
    Eval.evaluate settings steps e m = (.ok w, m)
  same : v.same w = true

namespace Denotes

/-- Data of one token. -/
theorem of_scalar {v w : Value} {e : Expr} {k : Token.Kind} (hscalar : e.isScalar = true)
    (htokens : Printer.bare true e = [k]) (hmark : k.isMark .lbrace = false)
    (hscans : Scans (v.render true).toList k) (hwf : Form.written.expr e = true)
    (hvalue : ∀ settings r, Eval.evaluateStep settings r e = pure w) (hsame : v.same w = true) :
    Denotes v e w := by
  have hexpr : Printer.expr true 0 e = [k] := (Printer.expr_true_zero e).trans htokens
  refine ⟨hwf, ⟨k, [], hexpr, hmark⟩, ?_, ?_, ?_, hsame⟩
  · intro rest ks hrest next
    rw [hexpr]
    exact hscans.lexes hrest next
  · intro limit b hb
    rw [Printer.expr_true_zero] at hb ⊢
    exact ReadsOn.expression (Nat.le_refl 10) hb fun _ _ => reads_scalar hscalar true
  · intro settings steps m hsteps
    obtain ⟨steps, rfl⟩ : ∃ c, steps = c + 1 := ⟨steps - 1, by have := e.sizeOf_pos; omega⟩
    rw [Eval.evaluate, hvalue]
    rfl

theorem bool (b : Bool) : Denotes (.bool b) (.bool b) (.bool b) := by
  have hsame : (Value.bool b).same (.bool b) = true := by simp [Value.same]
  cases b with
  | true =>
    exact of_scalar rfl (by rw [Printer.bare]) rfl (scans_keyword .true_) rfl (fun _ _ => rfl) hsame
  | false =>
    exact of_scalar rfl (by rw [Printer.bare]) rfl (scans_keyword .false_) rfl (fun _ _ => rfl) hsame

theorem text (s : String) : Denotes (.text s) (.text s) (.text s) :=
  of_scalar rfl (by rw [Printer.bare]) rfl (scans_text s) rfl (fun _ _ => rfl) (by simp [Value.same])

/-- A number without sign, and whatever number has the same text. -/
theorem unsigned {x y : Float} (hy : Number.isUnsigned y = true)
    (htext : Number.plain x = Number.plain y) (hsame : (x == y) = true) :
    Denotes (.number x) (.number y) (.number y) := by
  have hscans : Scans ((Value.number x).render true).toList (.number y) := by
    rw [Value.render, htext]
    exact scans_number hy
  exact of_scalar rfl (by rw [Printer.bare]) rfl hscans hy (fun _ _ => rfl) (by rwa [Value.same])

/-- A number with a sign in front of the text of its negative. -/
theorem signed {x y : Float} (hy : Number.isUnsigned y = true)
    (htext : (Number.plain x).toList = '-' :: (Number.plain y).toList) (hneg : -y = x)
    (hsame : (x == x) = true) : Denotes (.number x) (.unary .neg (.number y)) (.number x) := by
  have hexpr : Printer.expr true 0 (.unary .neg (.number y)) = [.mark .minus, .number y] := by
    simp [Printer.expr, Printer.bare, Printer.wrap, Expr.bracketed, Expr.level, Expr.isRecord,
      UnaryOp.mark]
  refine ⟨hy, ⟨_, _, hexpr, rfl⟩, ?_, ?_, ?_, by rwa [Value.same]⟩
  · intro rest ks hrest next
    rw [hexpr, Value.render, htext]
    exact lexes_single (by decide) rfl ((scans_number hy).lexes hrest next)
  · intro limit b hb
    rw [hexpr] at hb ⊢
    have hoperand : ReadsOn (fun _ => True) ⟨expression limit b, statement limit b, limit, b⟩ true 8
        [.number y] (.number y) :=
      (readsOn_number y).of_le (by omega) (Nat.le_refl 10) (Nat.lt_of_succ_lt hb)
    refine ReadsOn.expression (n := 8) (by omega) hb fun c hc => ?_
    obtain ⟨c, rfl⟩ : ∃ d, c = d + 1 := ⟨c - 1, by omega⟩
    exact reads_signed .neg (hoperand c (Nat.lt_of_succ_lt_succ hc))
  · intro settings steps m hsteps
    simp only [Expr.unary.sizeOf_spec, Expr.number.sizeOf_spec] at hsteps
    obtain ⟨steps, rfl⟩ : ∃ c, steps = c + 2 := ⟨steps - 2, by omega⟩
    rw [Eval.evaluate, Eval.evaluateStep]
    have hoperand : Eval.evaluate settings (steps + 1) (.number y) m = (.ok (.number y), m) := rfl
    rw [Eval.bind_of_ok hoperand]
    simp only [Value.applyUnary, hneg]
    rfl

theorem number {x : Float} (hx : Parts.of? x ≠ none) :
    ∃ e w, Denotes (.number x) e w := by
  rcases Number.plain_cases hx with ⟨y, hy, htext, hsame⟩ | ⟨hneg, htext, hback⟩
  · exact ⟨_, _, unsigned hy htext hsame⟩
  · exact ⟨_, _, signed hneg htext hback (Rounding.beq_self_of_parts hx)⟩

end Denotes

inductive AllDenote : List Value → List Expr → List Value → Prop
  | nil : AllDenote [] [] []
  | cons {v w : Value} {e : Expr} {vs ws : List Value} {es : List Expr} (head : Denotes v e w)
      (tail : AllDenote vs es ws) : AllDenote (v :: vs) (e :: es) (w :: ws)

def commaText (texts : List String) : List Char := texts.flatMap fun t => ',' :: ' ' :: t.toList

theorem intercalate_commas (t : String) (ts : List String) :
    (", ".intercalate (t :: ts)).toList = t.toList ++ commaText ts := by
  induction ts generalizing t with
  | nil => simp [commaText]
  | cons u ts ih =>
    rw [String.intercalate_cons_cons]
    simp [ih, commaText]

theorem separated_commaText (texts : List String) (rest : List Char) :
    Separated (commaText texts ++ ']' :: rest) := by
  intro e he
  cases texts with
  | nil =>
    cases he
    exact separates_of_mem (by decide)
  | cons t ts =>
    cases he
    exact separates_of_mem (by decide)

namespace AllDenote

variable {vs ws : List Value} {es : List Expr} (h : AllDenote vs es ws)
include h

theorem wellFormed : Form.written.exprs es = true := by
  induction h with
  | nil => rfl
  | cons head tail ih => simp [Form.exprs, head.wellFormed, ih]

theorem same : sameItems vs ws = true := by
  induction h with
  | nil => simp [sameItems]
  | cons head tail ih => simp [sameItems, head.same, ih]

theorem lexes {rest : List Char} {ks : List Token.Kind} (next : Lexes (']' :: rest) ks) :
    Lexes (commaText (renderItems vs) ++ ']' :: rest) (Printer.commaExprs es ++ ks) := by
  induction h with
  | nil =>
    rw [Printer.commaExprs]
    exact next
  | @cons v w e vs ws es head tail ih =>
    have hitem := head.lexes (separated_commaText (renderItems vs) rest) ih
    have hcomma := lexes_single (c := ',') (by decide) rfl hitem.space
    simpa [renderItems, commaText, Printer.commaExprs] using hcomma

theorem reads (limit : Option Int) {b : Nat} (hb : (Printer.exprs es).length + 1 < b) :
    ∀ e ∈ es, Reads (fun _ => True) (goesOn true 0) (expression limit b true)
      (Printer.expr true 0 e) e := by
  induction h with
  | nil => exact fun e he => absurd he List.not_mem_nil
  | @cons v w e vs ws es head tail ih =>
    rw [Printer.exprs, List.length_append] at hb
    have hle := length_exprs_le es
    obtain ⟨b, rfl⟩ : ∃ c, b = c + 1 := ⟨b - 1, by omega⟩
    intro e' he'
    rcases List.mem_cons.mp he' with rfl | he'
    · exact head.reads limit (by omega)
    · exact ih (by omega) e' he'

theorem evaluates (settings : Settings) (steps : Nat) (m : Machine) (hsteps : sizeOf es ≤ steps) :
    Eval.evaluateAll ⟨Eval.evaluate settings steps, Eval.execute settings steps, steps⟩ es m =
      (.ok ws, m) := by
  induction h with
  | nil => rfl
  | cons head tail ih =>
    rw [List.cons.sizeOf_spec] at hsteps
    have hhead := head.evaluates settings steps m (by omega)
    rw [Eval.evaluateAll, Eval.bind_of_ok hhead, Eval.bind_of_ok (ih (by omega))]
    rfl

end AllDenote

/-- A list of values that denote expressions denotes the list of these. -/
theorem Denotes.list {vs ws : List Value} {es : List Expr} (h : AllDenote vs es ws) :
    Denotes (.list vs) (.list es) (.list ws) := by
  have hexpr : Printer.expr true 0 (.list es) =
      .mark .lbracket :: (Printer.exprs es ++ [.mark .rbracket]) := by
    rw [Printer.expr_true_zero, Printer.bare, List.cons_append]
  refine ⟨h.wellFormed, ⟨_, _, hexpr, rfl⟩, ?_, ?_, ?_, by rw [Value.same]; exact h.same⟩
  · intro rest ks hrest next
    have hclose : Lexes (']' :: rest) (.mark .rbracket :: ks) := lexes_single (by decide) rfl next
    have htext : ((Value.list vs).render true).toList ++ rest =
        '[' :: ((", ".intercalate (renderItems vs)).toList ++ ']' :: rest) := by
      simp [render]
    have htokens : Printer.expr true 0 (.list es) ++ ks =
        .mark .lbracket :: (Printer.exprs es ++ .mark .rbracket :: ks) := by
      simp [hexpr]
    rw [htext, htokens]
    apply lexes_single (by decide) rfl
    cases h with
    | nil => simpa [renderItems, Printer.exprs] using hclose
    | @cons v w e vs ws es head tail =>
      have hitems := head.lexes (separated_commaText (renderItems vs) rest) (tail.lexes hclose)
      rw [renderItems, intercalate_commas, Printer.exprs, List.append_assoc, List.append_assoc]
      exact hitems
  · intro limit b hb
    have hlength : (Printer.exprs es).length + 2 < b := by
      simpa [hexpr] using hb
    have hitems := h.reads limit (b := b) (by omega)
    have hbound : (Printer.exprs es).length < b := by omega
    rw [Printer.expr_true_zero] at hb ⊢
    refine ReadsOn.expression (Nat.le_refl 10) hb fun c hc => ?_
    have hread : Reads (fun _ => True) (goesOn true 10)
        (Parser.list ⟨expression limit b, statement limit b, limit, b⟩) _ _ :=
      reads_list h.wellFormed true hitems hbound
    rw [Printer.bare] at hread ⊢
    exact .lookKind hread
  · intro settings steps m hsteps
    rw [Expr.list.sizeOf_spec] at hsteps
    obtain ⟨steps, rfl⟩ : ∃ c, steps = c + 1 := ⟨steps - 1, by omega⟩
    have hitems := h.evaluates settings steps m (by omega)
    rw [Eval.evaluate, Eval.evaluateStep, Eval.bind_of_ok hitems]
    rfl

theorem allDenote {vs : List Value} (h : ∀ v ∈ vs, ∃ e w, Denotes v e w) :
    ∃ es ws, AllDenote vs es ws := by
  induction vs with
  | nil => exact ⟨[], [], .nil⟩
  | cons v vs ih =>
    obtain ⟨e, w, hhead⟩ := h v List.mem_cons_self
    obtain ⟨es, ws, htail⟩ := ih fun u hu => h u (List.mem_cons_of_mem v hu)
    exact ⟨e :: es, w :: ws, .cons hhead htail⟩

/-- All data denotes expressions. -/
theorem IsData.denotes {v : Value} (h : v.IsData) : ∃ e w, Denotes v e w := by
  induction h with
  | bool b => exact ⟨_, _, .bool b⟩
  | text s => exact ⟨_, _, .text s⟩
  | number finite => exact Denotes.number finite
  | list _ ih =>
    obtain ⟨es, ws, hitems⟩ := allDenote ih
    exact ⟨_, _, .list hitems⟩

/-- The text of data is a program of one expression statement. -/
theorem Denotes.parse {v w : Value} {e : Expr} (h : Denotes v e w) (limit : Option Int) :
    Scripting.parse limit (v.render true) = .ok [.expr e] := by
  have hopens := Printer.opensExpr_expr h.wellFormed true 0
  have hlexes : Lexes (v.render true).toList (Printer.expr true 0 e) := by
    have hall : Lexes ((v.render true).toList ++ []) (Printer.expr true 0 e ++ []) :=
      h.lexes nofun (.finish rfl)
    rwa [List.append_nil, List.append_nil] at hall
  obtain ⟨q, hq⟩ := (Stream.spells_ofText_iff.mpr hlexes).begins
  obtain ⟨k, rest, hks, hk⟩ := hopens.not_mark (m := .semicolon) rfl
  have hpos : 0 < (Printer.expr true 0 e).length := by simp [hks]
  have hstmt : Reads (fun _ => True) stmtGoesOn
      (statement limit (2 * (Printer.expr true 0 e).length + 2)) (Printer.expr true 0 e) (.expr e) :=
    reads_statement hopens h.front (reads_open_expression (h.reads limit (by omega)))
  have hsemicolon : k ≠ .mark .semicolon := by
    rintro rfl
    cases hk
  refine parseStream_of_reads hq ?_
  generalize Printer.expr true 0 e = ks at hks hstmt ⊢
  subst hks
  exact reads_program_last hsemicolon hstmt rfl

end Value

/-- Data is written as a program writes it: its text, which is that of a literal or of a list, is
parsed as one expression, whatever the limit on functions, and in every state the expression
evaluates to a value that equals the data and leaves the state as it is. -/
theorem data_round_trip {v : Value} (hv : v.IsData) (limit : Option Int) :
    v.literal?.getD v.shown = v.render true ∧
    ∃ e w, parse limit (v.render true) = .ok [.expr e] ∧ v.same w = true ∧
      ∀ settings steps m, sizeOf e ≤ steps → Eval.evaluate settings steps e m = (.ok w, m) := by
  obtain ⟨e, w, h⟩ := hv.denotes
  refine ⟨?_, e, w, h.parse limit, h.same, h.evaluates⟩
  cases hv <;> simp [Value.literal?, Value.shown, Value.render]

/-- A quote and a backslash in a text, signs, a negative zero, a small number, and empty lists. -/
theorem data_round_trip_nested :
    let v : Value := .list [.text "\"\\", .list [.number (-1.5), .number (-0.0), .list []],
      .number 1e-7, .bool false]
    v.shown = "[\"\\\"\\\\\", [-1.5, 0, []], 0.0000001, false]" ∧
    ∃ e w, parse none v.shown = .ok [.expr e] ∧ v.same w = true ∧
      ∀ settings steps m, sizeOf e ≤ steps → Eval.evaluate settings steps e m = (.ok w, m) := by
  intro v
  have hinner : (Value.list [.number (-1.5), .number (-0.0), .list []]).IsData := by
    refine .list (List.forall_mem_cons.mpr ⟨.number ?_, List.forall_mem_cons.mpr ⟨.number ?_,
      List.forall_mem_singleton.mpr (.list nofun)⟩⟩)
    · decide
    · decide
  have hv : v.IsData := by
    refine .list (List.forall_mem_cons.mpr ⟨.text _, List.forall_mem_cons.mpr ⟨hinner,
      List.forall_mem_cons.mpr ⟨.number ?_, List.forall_mem_singleton.mpr (.bool false)⟩⟩⟩)
    decide
  have hshown : v.shown = v.render true := rfl
  refine ⟨by decide +kernel, ?_⟩
  rw [hshown]
  exact (data_round_trip hv none).2

end Scripting
