import Scripting.Syntax

/-!
Forms of programs. A form says what is asked of the parts of a program one by one: of names, literals
and lists, and whether some nodes may occur at all. A program has the form if all of its parts are as
is asked, down to the bodies of its functions. What parsers make, what can be written down and what can
be stored are forms.
-/

namespace Scripting

/-- What is asked of the parts of a program. -/
structure Form where
  number : Float → Bool := fun _ => true
  text : String → Bool := fun _ => true
  name : Name → Bool := fun _ => true
  /-- Of what an import names. -/
  path : Name → Bool := fun _ => true
  /-- Of the type of a record literal. -/
  recordType : Name → Bool := fun _ => true
  /-- Of the statements in the place of an expression. -/
  block : List Stmt → Bool := fun _ => true
  /-- Of the elements of a tuple, and of values that are printed together. -/
  several : List Expr → Bool := fun _ => true
  /-- Of a value that is printed alone. -/
  single : Expr → Bool := fun _ => true
  method : Stmt → Bool := fun _ => true
  /-- Whether there may be `while` loops. -/
  whiles : Bool := true
  /-- Whether there may be nodes for invalid texts. -/
  invalid : Bool := true
  /-- Whether something may stand in the place of something else. -/
  strays : Bool := true

namespace Form

variable (C : Form)

mutual

def expr : Expr → Bool
  | .number x => C.number x
  | .bool _ => true
  | .text s => C.text s
  | .name n => C.name n
  | .binary l _ r => expr l && expr r
  | .unary _ e => expr e
  | .call f args => expr f && exprs args
  | .assign n e => C.name n && expr e
  | .block ss => C.block ss && stmts ss
  | .lambda ps body => ps.all C.name && stmts body
  | .list es => exprs es
  | .dict ps => pairs ps
  | .tuple es => C.several es && exprs es
  | .field e n => expr e && C.name n
  | .index e i => expr e && expr i
  | .record n fs => C.name n && C.recordType n && fields fs
  | .invalid _ => C.invalid
  | .datum _ | .stray _ => C.strays

def exprs : List Expr → Bool
  | [] => true
  | e :: es => expr e && exprs es

def pairs : List (Expr × Expr) → Bool
  | [] => true
  | (k, v) :: ps => expr k && expr v && pairs ps

def fields : List (Name × Expr) → Bool
  | [] => true
  | (n, e) :: fs => C.name n && expr e && fields fs

def stmt : Stmt → Bool
  | .expr e => expr e
  | .let_ n e | .const n e => C.name n && expr e
  | .function n ps body => C.name n && ps.all C.name && stmts body
  | .return_ none => true
  | .return_ (some e) => expr e
  | .if_ c t e => expr c && stmts t && otherwise e
  | .while_ c body => C.whiles && expr c && stmts body
  | .for_ n a b body => C.name n && expr a && expr b && stmts body
  | .import_ path => C.path path
  | .block ss => stmts ss
  | .break_ | .continue_ => true
  | .print e => C.single e && expr e
  | .printAll es => C.several es && exprs es
  | .type n fs ms => C.name n && fields fs && ms.all C.method && stmts ms
  | .invalid _ => C.invalid
  | .stray _ => C.strays

def otherwise : Option (List Stmt) → Bool
  | none => true
  | some ss => stmts ss

def stmts : List Stmt → Bool
  | [] => true
  | s :: ss => stmt s && stmts ss

end

variable {C}

theorem exprs_iff {es : List Expr} : C.exprs es = true ↔ ∀ e ∈ es, C.expr e = true := by
  induction es with
  | nil => simp [exprs]
  | cons e es ih => simp [exprs, ih]

theorem pairs_iff {ps : List (Expr × Expr)} :
    C.pairs ps = true ↔ ∀ p ∈ ps, C.expr p.1 = true ∧ C.expr p.2 = true := by
  induction ps with
  | nil => simp [pairs]
  | cons p ps ih => simp [pairs, ih]

theorem fields_iff {fs : List (Name × Expr)} :
    C.fields fs = true ↔ ∀ f ∈ fs, C.name f.1 = true ∧ C.expr f.2 = true := by
  induction fs with
  | nil => simp [fields]
  | cons f fs ih => simp [fields, ih]

theorem stmts_iff {ss : List Stmt} : C.stmts ss = true ↔ ∀ s ∈ ss, C.stmt s = true := by
  induction ss with
  | nil => simp [stmts]
  | cons s ss ih => simp [stmts, ih]

structure Le (C D : Form) : Prop where
  number {x : Float} : C.number x = true → D.number x = true
  text {s : String} : C.text s = true → D.text s = true
  name {n : Name} : C.name n = true → D.name n = true
  path {n : Name} : C.path n = true → D.path n = true
  recordType {n : Name} : C.recordType n = true → D.recordType n = true
  block {ss : List Stmt} : C.block ss = true → D.block ss = true
  several {es : List Expr} : C.several es = true → D.several es = true
  single {e : Expr} : C.single e = true → D.single e = true
  method {s : Stmt} : C.method s = true → D.method s = true
  whiles : C.whiles = true → D.whiles = true
  invalid : C.invalid = true → D.invalid = true
  strays : C.strays = true → D.strays = true

namespace Le

variable {D : Form}

theorem names (h : C.Le D) {ns : List Name} (hns : ns.all C.name = true) : ns.all D.name = true :=
  List.all_eq_true.mpr fun n hn => h.name (List.all_eq_true.mp hns n hn)

theorem methods (h : C.Le D) {ms : List Stmt} (hms : ms.all C.method = true) : ms.all D.method = true :=
  List.all_eq_true.mpr fun s hs => h.method (List.all_eq_true.mp hms s hs)

mutual

/-- What has the one form has the other. -/
theorem expr (h : C.Le D) : (e : Expr) → C.expr e = true → D.expr e = true
  | .number x, he => h.number he
  | .bool _, _ => rfl
  | .text s, he => h.text he
  | .name n, he => h.name he
  | .binary l _ r, he => by
    simp only [Form.expr, Bool.and_eq_true] at he ⊢
    exact ⟨h.expr l he.1, h.expr r he.2⟩
  | .unary _ e, he => h.expr e he
  | .call f args, he => by
    simp only [Form.expr, Bool.and_eq_true] at he ⊢
    exact ⟨h.expr f he.1, h.exprs args he.2⟩
  | .assign n e, he => by
    simp only [Form.expr, Bool.and_eq_true] at he ⊢
    exact ⟨h.name he.1, h.expr e he.2⟩
  | .block ss, he => by
    simp only [Form.expr, Bool.and_eq_true] at he ⊢
    exact ⟨h.block he.1, h.stmts ss he.2⟩
  | .lambda ps body, he => by
    simp only [Form.expr, Bool.and_eq_true] at he ⊢
    exact ⟨h.names he.1, h.stmts body he.2⟩
  | .list es, he => h.exprs es he
  | .dict ps, he => h.pairs ps he
  | .tuple es, he => by
    simp only [Form.expr, Bool.and_eq_true] at he ⊢
    exact ⟨h.several he.1, h.exprs es he.2⟩
  | .field e n, he => by
    simp only [Form.expr, Bool.and_eq_true] at he ⊢
    exact ⟨h.expr e he.1, h.name he.2⟩
  | .index e i, he => by
    simp only [Form.expr, Bool.and_eq_true] at he ⊢
    exact ⟨h.expr e he.1, h.expr i he.2⟩
  | .record n fs, he => by
    simp only [Form.expr, Bool.and_eq_true] at he ⊢
    exact ⟨⟨h.name he.1.1, h.recordType he.1.2⟩, h.fields fs he.2⟩
  | .invalid _, he => h.invalid he
  | .datum _, he | .stray _, he => h.strays he

theorem exprs (h : C.Le D) : (es : List Expr) → C.exprs es = true → D.exprs es = true
  | [], _ => rfl
  | e :: es, hes => by
    simp only [Form.exprs, Bool.and_eq_true] at hes ⊢
    exact ⟨h.expr e hes.1, h.exprs es hes.2⟩

theorem pairs (h : C.Le D) : (ps : List (Expr × Expr)) → C.pairs ps = true → D.pairs ps = true
  | [], _ => rfl
  | (k, v) :: ps, hps => by
    simp only [Form.pairs, Bool.and_eq_true] at hps ⊢
    exact ⟨⟨h.expr k hps.1.1, h.expr v hps.1.2⟩, h.pairs ps hps.2⟩

theorem fields (h : C.Le D) : (fs : List (Name × Expr)) → C.fields fs = true → D.fields fs = true
  | [], _ => rfl
  | (_, e) :: fs, hfs => by
    simp only [Form.fields, Bool.and_eq_true] at hfs ⊢
    exact ⟨⟨h.name hfs.1.1, h.expr e hfs.1.2⟩, h.fields fs hfs.2⟩

/-- What has one form has every form that asks for less. -/
theorem stmt (h : C.Le D) : (s : Stmt) → C.stmt s = true → D.stmt s = true
  | .expr e, hs => h.expr e hs
  | .let_ _ e, hs | .const _ e, hs => by
    simp only [Form.stmt, Bool.and_eq_true] at hs ⊢
    exact ⟨h.name hs.1, h.expr e hs.2⟩
  | .function _ _ body, hs => by
    simp only [Form.stmt, Bool.and_eq_true] at hs ⊢
    exact ⟨⟨h.name hs.1.1, h.names hs.1.2⟩, h.stmts body hs.2⟩
  | .return_ none, _ => rfl
  | .return_ (some e), hs => h.expr e hs
  | .if_ c t e, hs => by
    simp only [Form.stmt, Bool.and_eq_true] at hs ⊢
    exact ⟨⟨h.expr c hs.1.1, h.stmts t hs.1.2⟩, h.otherwise e hs.2⟩
  | .while_ c body, hs => by
    simp only [Form.stmt, Bool.and_eq_true] at hs ⊢
    exact ⟨⟨h.whiles hs.1.1, h.expr c hs.1.2⟩, h.stmts body hs.2⟩
  | .for_ _ a b body, hs => by
    simp only [Form.stmt, Bool.and_eq_true] at hs ⊢
    exact ⟨⟨⟨h.name hs.1.1.1, h.expr a hs.1.1.2⟩, h.expr b hs.1.2⟩, h.stmts body hs.2⟩
  | .import_ _, hs => h.path hs
  | .block ss, hs => h.stmts ss hs
  | .break_, _ | .continue_, _ => rfl
  | .print e, hs => by
    simp only [Form.stmt, Bool.and_eq_true] at hs ⊢
    exact ⟨h.single hs.1, h.expr e hs.2⟩
  | .printAll es, hs => by
    simp only [Form.stmt, Bool.and_eq_true] at hs ⊢
    exact ⟨h.several hs.1, h.exprs es hs.2⟩
  | .type _ fs ms, hs => by
    simp only [Form.stmt, Bool.and_eq_true] at hs ⊢
    exact ⟨⟨⟨h.name hs.1.1.1, h.fields fs hs.1.1.2⟩, h.methods hs.1.2⟩, h.stmts ms hs.2⟩
  | .invalid _, hs => h.invalid hs
  | .stray _, hs => h.strays hs

theorem otherwise (h : C.Le D) : (e : Option (List Stmt)) → C.otherwise e = true → D.otherwise e = true
  | none, _ => rfl
  | some ss, he => h.stmts ss he

theorem stmts (h : C.Le D) : (ss : List Stmt) → C.stmts ss = true → D.stmts ss = true
  | [], _ => rfl
  | s :: ss, hss => by
    simp only [Form.stmts, Bool.and_eq_true] at hss ⊢
    exact ⟨h.stmt s hss.1, h.stmts ss hss.2⟩

end

end Le

end Form

end Scripting
