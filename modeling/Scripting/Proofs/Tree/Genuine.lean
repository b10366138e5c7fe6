import Scripting.Proofs.Parser.Image
import Scripting.Proofs.Tree.Storage
import Scripting.Tree.Program

/-!
Genuine programs: names and texts are texts, the methods of a type are functions, and nothing stands
in the place of something else. The nodes for invalid texts belong to them. The tree of a genuine
program has the shapes of its kinds and is read as the program, and every program that is parsed is
genuine.
-/

namespace Scripting

/-- What the kinds of nodes ask of their parts. -/
def Form.genuine : Form where
  name := Name.isText
  path := Name.isText
  method := Stmt.isFunction
  strays := false

/-- Whether a program is made of the parts that its kinds of nodes ask for. -/
def Program.genuine (p : Program) : Bool := Form.genuine.stmts p

namespace Name

theorem isText_iff {n : Name} : n.isText = true ↔ ∃ s, n = text s := by
  cases n <;> simp [isText]

theorem fits_toTree {n : Name} (h : n.isText = true) : n.toTree.fits .plain = true := by
  obtain ⟨s, rfl⟩ := isText_iff.mp h
  rfl

theorem toName_toTree {n : Name} (h : n.isText = true) : n.toTree.toName = n := by
  obtain ⟨s, rfl⟩ := isText_iff.mp h
  rfl

theorem fitsAll_toTree {ns : List Name} (h : ns.all isText = true) :
    Tree.fitsAll (ns.map toTree) = true := by
  induction ns with
  | nil => rfl
  | cons n ns ih =>
    rw [List.all_cons, Bool.and_eq_true] at h
    rw [List.map_cons, Tree.fitsAll, fits_toTree h.1, ih h.2, Bool.and_self]

theorem map_toName_toTree {ns : List Name} (h : ns.all isText = true) :
    (ns.map toTree).map Tree.toName = ns := by
  have hback : ∀ n ∈ ns, (Tree.toName ∘ toTree) n = id n := fun n hn =>
    toName_toTree (List.all_eq_true.mp h n hn)
  rw [List.map_map, List.map_congr_left hback, List.map_id]

end Name

namespace Genuine

open Scripting.Tree

theorem toTree_node {e : Expr} (h : Form.genuine.expr e = true) :
    ∃ kind members, e.toTree = .node kind members := by
  cases e with
  | stray w => cases h
  | _ => exact ⟨_, _, by rw [Expr.toTree]⟩

mutual

/-- The tree of a genuine expression is plain and is read as the expression. -/
theorem expr_toTree : ∀ {e : Expr}, Form.genuine.expr e = true →
    e.toTree.fits .plain = true ∧ e.toTree.toExpr = e
  | .number x, _ => ⟨rfl, rfl⟩
  | .bool b, _ => ⟨rfl, rfl⟩
  | .text s, _ => ⟨rfl, rfl⟩
  | .invalid s, _ => ⟨rfl, rfl⟩
  | .name n, h => by
    simp only [Form.expr] at h
    simp [Expr.toTree, fits, fitsSlots, NodeKind.slots, toExpr, n.fits_toTree h, n.toName_toTree h]
  | .binary l op r, h => by
    simp only [Form.expr, Bool.and_eq_true] at h
    simp [Expr.toTree, fits, fitsSlots, NodeKind.slots, toExpr, expr_toTree h.1, expr_toTree h.2]
  | .unary op e, h => by
    simp only [Form.expr] at h
    simp [Expr.toTree, fits, fitsSlots, NodeKind.slots, toExpr, expr_toTree h]
  | .call f args, h => by
    simp only [Form.expr, Bool.and_eq_true] at h
    simp [Expr.toTree, fits, fitsSlots, NodeKind.slots, toExpr, toExprs, expr_toTree h.1,
      exprs_toTree h.2]
  | .assign n e, h => by
    simp only [Form.expr, Bool.and_eq_true] at h
    simp [Expr.toTree, fits, fitsSlots, NodeKind.slots, toExpr, n.fits_toTree h.1,
      n.toName_toTree h.1, expr_toTree h.2]
  | .block ss, h => by
    simp only [Form.expr, Bool.and_eq_true] at h
    simp [Expr.toTree, fits, fitsSlots, NodeKind.slots, toExpr, toStmts, stmts_toTree h.2]
  | .lambda ps body, h => by
    simp only [Form.expr, Bool.and_eq_true] at h
    simp only [Expr.toTree, fits, fitsSlots, NodeKind.slots, toExpr, toStmts, params?,
      stmts_toTree h.2, Name.fitsAll_toTree h.1, Name.map_toName_toTree h.1, Bool.and_self, and_self]
  | .list es, h => by
    simp only [Form.expr] at h
    simp [Expr.toTree, fits, fitsSlots, NodeKind.slots, toExpr, toExprs, exprs_toTree h]
  | .tuple es, h => by
    simp only [Form.expr, Bool.and_eq_true] at h
    simp [Expr.toTree, fits, fitsSlots, NodeKind.slots, toExpr, toExprs, exprs_toTree h.2]
  | .dict ps, h => by
    simp only [Form.expr] at h
    simp [Expr.toTree, fits, fitsSlots, NodeKind.slots, toExpr, toPairs, pairs_toTree h]
  | .field e n, h => by
    simp only [Form.expr, Bool.and_eq_true] at h
    simp [Expr.toTree, fits, fitsSlots, NodeKind.slots, toExpr, n.fits_toTree h.2,
      n.toName_toTree h.2, expr_toTree h.1]
  | .index e i, h => by
    simp only [Form.expr, Bool.and_eq_true] at h
    simp [Expr.toTree, fits, fitsSlots, NodeKind.slots, toExpr, expr_toTree h.1, expr_toTree h.2]
  | .record n fs, h => by
    simp only [Form.expr, Bool.and_eq_true] at h
    simp [Expr.toTree, fits, fitsSlots, NodeKind.slots, toExpr, toFields, n.fits_toTree h.1.1,
      n.toName_toTree h.1.1, fields_toTree h.2]

theorem exprs_toTree : ∀ {es : List Expr}, Form.genuine.exprs es = true →
    fitsAll (exprTrees es) = true ∧ exprsOf (exprTrees es) = es
  | [], _ => ⟨rfl, rfl⟩
  | e :: es, h => by
    simp only [Form.exprs, Bool.and_eq_true] at h
    simp [exprTrees, fitsAll, exprsOf, expr_toTree h.1, exprs_toTree h.2]

theorem pairs_toTree : ∀ {ps : List (Expr × Expr)}, Form.genuine.pairs ps = true →
    fitsPairs (pairTrees ps) = true ∧ pairsOf (pairTrees ps) = ps
  | [], _ => ⟨rfl, rfl⟩
  | (k, v) :: ps, h => by
    simp only [Form.pairs, Bool.and_eq_true] at h
    simp [pairTrees, fitsPairs, pairsOf, expr_toTree h.1.1, expr_toTree h.1.2, pairs_toTree h.2]

theorem fields_toTree : ∀ {fs : List (Name × Expr)}, Form.genuine.fields fs = true →
    fitsPairs (fieldTrees fs) = true ∧ fieldsOf (fieldTrees fs) = fs
  | [], _ => ⟨rfl, rfl⟩
  | (n, e) :: fs, h => by
    simp only [Form.fields, Bool.and_eq_true] at h
    simp [fieldTrees, fitsPairs, fieldsOf, n.fits_toTree h.1.1, n.toName_toTree h.1.1,
      expr_toTree h.1.2, fields_toTree h.2]

/-- The tree of a genuine statement is plain and is read as the statement. -/
theorem stmt_toTree : ∀ {s : Stmt}, Form.genuine.stmt s = true →
    s.toTree.fits .plain = true ∧ s.toTree.toStmt = s
  | .expr e, h => by
    simp only [Form.stmt] at h
    simp [Stmt.toTree, fits, fitsSlots, NodeKind.slots, toStmt, expr_toTree h]
  | .print e, h => by
    simp only [Form.stmt, Bool.and_eq_true] at h
    simp [Stmt.toTree, fits, fitsSlots, NodeKind.slots, toStmt, expr_toTree h.2]
  | .let_ n e, h => by
    simp only [Form.stmt, Bool.and_eq_true] at h
    simp [Stmt.toTree, fits, fitsSlots, NodeKind.slots, toStmt, n.fits_toTree h.1,
      n.toName_toTree h.1, expr_toTree h.2]
  | .const n e, h => by
    simp only [Form.stmt, Bool.and_eq_true] at h
    simp [Stmt.toTree, fits, fitsSlots, NodeKind.slots, toStmt, n.fits_toTree h.1,
      n.toName_toTree h.1, expr_toTree h.2]
  | .function n ps body, h => by
    simp only [Form.stmt, Bool.and_eq_true] at h
    simp only [Stmt.toTree, fits, fitsSlots, NodeKind.slots, toStmt, toStmts, params?,
      n.fits_toTree h.1.1, n.toName_toTree h.1.1, Name.fitsAll_toTree h.1.2,
      Name.map_toName_toTree h.1.2, stmts_toTree h.2, Bool.and_self, and_self]
  | .return_ none, _ => ⟨rfl, rfl⟩
  | .return_ (some e), h => by
    simp only [Form.stmt] at h
    obtain ⟨hfits, hback⟩ := expr_toTree h
    -- the tree of an expression is no `null`, which would stand for nothing to return
    obtain ⟨kind, members, hnode⟩ := toTree_node h
    constructor
    · simp [Stmt.toTree, fits, fitsSlots, NodeKind.slots, hfits]
    · rw [hnode] at hback
      simp only [Stmt.toTree, hnode, toStmt, hback]
  | .if_ c t none, h => by
    simp only [Form.stmt, Bool.and_eq_true] at h
    simp [Stmt.toTree, fits, fitsSlots, NodeKind.slots, toStmt, toStmts, expr_toTree h.1.1,
      stmts_toTree h.1.2]
  | .if_ c t (some e), h => by
    simp only [Form.stmt, Form.otherwise, Bool.and_eq_true] at h
    simp [Stmt.toTree, fits, fitsSlots, NodeKind.slots, toStmt, toStmts, expr_toTree h.1.1,
      stmts_toTree h.1.2, stmts_toTree h.2]
  | .while_ c body, h => by
    simp only [Form.stmt, Bool.and_eq_true] at h
    simp [Stmt.toTree, fits, fitsSlots, NodeKind.slots, toStmt, toStmts, expr_toTree h.1.2,
      stmts_toTree h.2]
  | .for_ n a b body, h => by
    simp only [Form.stmt, Bool.and_eq_true] at h
    simp [Stmt.toTree, fits, fitsSlots, NodeKind.slots, toStmt, toStmts, n.fits_toTree h.1.1.1,
      n.toName_toTree h.1.1.1, expr_toTree h.1.1.2, expr_toTree h.1.2, stmts_toTree h.2]
  | .import_ path, h => by
    simp only [Form.stmt] at h
    simp [Stmt.toTree, fits, fitsSlots, NodeKind.slots, toStmt, path.fits_toTree h,
      path.toName_toTree h]
  | .block ss, h => by
    simp only [Form.stmt] at h
    simp [Stmt.toTree, fits, fitsSlots, NodeKind.slots, toStmt, toStmts, stmts_toTree h]
  | .break_, _ => ⟨rfl, rfl⟩
  | .continue_, _ => ⟨rfl, rfl⟩
  | .invalid s, _ => ⟨rfl, rfl⟩
  | .printAll es, h => by
    simp only [Form.stmt, Bool.and_eq_true] at h
    simp [Stmt.toTree, fits, fitsSlots, NodeKind.slots, toStmt, toExprs, exprs_toTree h.2]
  | .type n fs ms, h => by
    simp only [Form.stmt, Bool.and_eq_true] at h
    simp [Stmt.toTree, fits, fitsSlots, NodeKind.slots, toStmt, toFields, toMethods,
      n.fits_toTree h.1.1.1, n.toName_toTree h.1.1.1, fields_toTree h.1.1.2, stmts_toTree h.2,
      methodsOf_stmtTrees h.1.2 h.2]

theorem stmts_toTree : ∀ {ss : List Stmt}, Form.genuine.stmts ss = true →
    fitsAll (stmtTrees ss) = true ∧ stmtsOf (stmtTrees ss) = ss
  | [], _ => ⟨rfl, rfl⟩
  | s :: ss, h => by
    simp only [Form.stmts, Bool.and_eq_true] at h
    simp [stmtTrees, fitsAll, stmtsOf, stmt_toTree h.1, stmts_toTree h.2]

theorem methodsOf_stmtTrees : ∀ {ms : List Stmt}, ms.all Stmt.isFunction = true →
    Form.genuine.stmts ms = true → methodsOf (stmtTrees ms) = ms
  | [], _, _ => rfl
  | .function n ps body :: ms, hfunctions, h => by
    simp only [List.all_cons, Bool.and_eq_true] at hfunctions
    simp only [Form.stmts, Bool.and_eq_true] at h
    have hfirst := (stmt_toTree h.1).2
    rw [Stmt.toTree] at hfirst
    rw [stmtTrees, Stmt.toTree, methodsOf, hfirst, methodsOf_stmtTrees hfunctions.2 h.2]

end

end Genuine

/-- What parsers make is genuine. -/
theorem Form.ofTokens_le_genuine (T : Token.Kind → Bool) : (Form.ofTokens T).Le .genuine where
  number _ := rfl
  text _ := rfl
  name h := (Bool.and_eq_true_iff.mp h).1
  path h := (Bool.and_eq_true_iff.mp h).1
  recordType _ := rfl
  block _ := rfl
  several _ := rfl
  single _ := rfl
  method h := h
  whiles _ := rfl
  invalid _ := rfl
  strays h := h

namespace Program

/-- What is stored of a genuine program is read as the program. -/
theorem ofJson_toJson {p : Program} (hp : p.genuine = true) : ofJson p.toJson = .ok p := by
  obtain ⟨hfits, hback⟩ := Genuine.stmts_toTree hp
  unfold ofJson toJson
  rw [Tree.programOfJson_toJson hfits]
  exact congrArg Except.ok hback

end Program

end Scripting
