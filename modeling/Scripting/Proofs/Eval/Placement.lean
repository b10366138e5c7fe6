import Scripting.Proofs.Eval.Discipline
import Scripting.Proofs.Eval.Reached

/-!
Where `break`, `continue` and `return` may stand. A program is well placed when each of them is
inside of a loop or a function that takes it. Such a program never drops a signal, in whatever order
and from wherever its functions are called.
-/

namespace Scripting

namespace Placed

mutual

/-- No signal leaves an expression: the statements of a block expression may end with none. -/
def expr : Expr → Bool
  | .number _ | .bool _ | .text _ | .datum _ | .name _ | .invalid _ | .stray _ => true
  | .binary a _ b => expr a && expr b
  | .unary _ e | .assign _ e | .field e _ => expr e
  | .call f args => expr f && exprs args
  | .block ss => stmts .none ss
  | .lambda _ body => stmts .inCall body
  | .list es | .tuple es => exprs es
  | .dict ps => pairs ps
  | .index c i => expr c && expr i
  | .record _ fs => fields fs

def exprs : List Expr → Bool
  | [] => true
  | e :: es => expr e && exprs es

def pairs : List (Expr × Expr) → Bool
  | [] => true
  | (k, v) :: ps => expr k && expr v && pairs ps

def fields : List (Name × Expr) → Bool
  | [] => true
  | (_, e) :: fs => expr e && fields fs

/-- The signals of a statement are among `σ`. Loops take what breaks them; functions take what
returns from them, and what would break a loop around them does not get there. -/
def stmt (σ : Signals) : Stmt → Bool
  | .expr e | .let_ _ e | .const _ e | .print e => expr e
  | .function _ _ body => stmts .inCall body
  | .return_ none => σ.returns
  | .return_ (some e) => σ.returns && expr e
  | .if_ c t e => expr c && stmts σ t && otherwise σ e
  | .while_ c body => expr c && stmts σ.inLoop body
  | .for_ _ a b body => expr a && expr b && stmts σ.inLoop body
  | .block ss => stmts σ ss
  | .break_ | .continue_ => σ.breaks
  | .printAll es => exprs es
  | .type _ fs ms => fields fs && stmts σ ms
  | .import_ _ | .invalid _ | .stray _ => true

def otherwise (σ : Signals) : Option (List Stmt) → Bool
  | none => true
  | some ss => stmts σ ss

def stmts (σ : Signals) : List Stmt → Bool
  | [] => true
  | s :: ss => stmt σ s && stmts σ ss

end

theorem exprs_iff {es : List Expr} : exprs es = true ↔ ∀ e ∈ es, expr e = true := by
  induction es with
  | nil => simp [exprs]
  | cons e es ih => simp [exprs, ih]

theorem pairs_iff {ps : List (Expr × Expr)} :
    pairs ps = true ↔ ∀ p ∈ ps, expr p.1 = true ∧ expr p.2 = true := by
  induction ps with
  | nil => simp [pairs]
  | cons p ps ih => simp [pairs, ih]

theorem fields_iff {fs : List (Name × Expr)} :
    fields fs = true ↔ ∀ f ∈ fs, expr f.2 = true := by
  induction fs with
  | nil => simp [fields]
  | cons f fs ih => simp [fields, ih]

theorem stmts_iff {σ : Signals} {ss : List Stmt} :
    stmts σ ss = true ↔ ∀ s ∈ ss, stmt σ s = true := by
  induction ss with
  | nil => simp [stmts]
  | cons s ss ih => simp [stmts, ih]

end Placed

/-- Whether every `break` and `continue` is inside of a loop, and every `return` inside of a
function, with no other function and no block expression in between. -/
def Program.wellPlaced (p : Program) : Bool := Placed.stmts .none p

theorem RuntimeError.name_ne_of_isOrdinary {e : RuntimeError} (h : e.isOrdinary = true) :
    e.name ≠ "ControlFlowError" := by
  cases e <;> simp [isOrdinary, name] at h ⊢

/-- Everything may fail, but not by a signal that nothing takes. -/
def Failure.IsSignalFree (f : Failure) : Prop :=
  ∀ e, f = .error e → e.name ≠ "ControlFlowError"

theorem isSignalFree_error {e : RuntimeError} (h : e.name ≠ "ControlFlowError") :
    (Failure.error e).IsSignalFree := by
  intro e' he
  cases he
  exact h

theorem isSignalFree_defect (d : Defect) : (Failure.defect d).IsSignalFree :=
  fun _ h => nomatch h

theorem isSignalFree_outOfSteps : Failure.outOfSteps.IsSignalFree := fun _ h => nomatch h

theorem isSignalFree_exhausted : Failure.exhausted.IsSignalFree := fun _ h => nomatch h

def placementPolicy : Policy where
  failure := Failure.IsSignalFree
  function _ body := Placed.stmts .inCall body = true
  signals := true

theorem placementPolicy_key (n : Name) : placementPolicy.Key n := .inr (isSignalFree_defect _)

namespace Placed

def tasks : Tasks where
  expr e := expr e = true
  stmt σ s := stmt σ s = true

/-- The parts of a well placed expression are well placed. -/
theorem admitted_expr {e : Expr} (h : expr e = true) : e.Admitted placementPolicy tasks := by
  have hkey := placementPolicy_key
  cases e with
  | name n => exact hkey n
  | assign n e => exact ⟨hkey n, h⟩
  | unary op e => exact h
  | binary a op b =>
    obtain ⟨ha, hb⟩ := Bool.and_eq_true_iff.mp h
    exact ⟨ha, hb, fun _ => isSignalFree_defect _⟩
  | call f args =>
    obtain ⟨hf, hargs⟩ := Bool.and_eq_true_iff.mp h
    exact ⟨hf, exprs_iff.mp hargs⟩
  | block ss => exact ⟨.none, stmts_iff.mp h, .inl ⟨rfl, rfl⟩⟩
  | lambda ps body => exact h
  | list es => exact exprs_iff.mp h
  | tuple es => exact exprs_iff.mp h
  | dict ps => exact pairs_iff.mp h
  | field e n => exact ⟨hkey n, h⟩
  | index c i => exact Bool.and_eq_true_iff.mp h
  | record t fs => exact ⟨hkey t, fun f hf => ⟨hkey _, fields_iff.mp h f hf⟩⟩
  | invalid s => exact isSignalFree_error (by simp [RuntimeError.name])
  | stray w => exact isSignalFree_defect _
  | _ => trivial

/-- The parts of a well placed statement are well placed, with the signals that it lets out. -/
theorem admitted_stmt {σ : Signals} {s : Stmt} (h : stmt σ s = true) :
    s.Admitted placementPolicy tasks σ := by
  have hkey := placementPolicy_key
  cases s with
  | let_ n e => exact ⟨hkey n, h⟩
  | const n e => exact ⟨hkey n, h⟩
  | function n ps body => exact ⟨hkey n, h⟩
  | return_ e =>
    cases e with
    | none => exact ⟨fun _ => h, nofun⟩
    | some e =>
      obtain ⟨hσ, he⟩ := Bool.and_eq_true_iff.mp h
      exact ⟨fun _ => hσ, fun e' he' => Option.some.inj he' ▸ he⟩
  | if_ c t e =>
    simp only [stmt, Bool.and_eq_true] at h
    refine ⟨h.1.1, stmts_iff.mp h.1.2, fun ss hss => ?_⟩
    cases hss
    exact stmts_iff.mp h.2
  | while_ c body =>
    obtain ⟨hc, hbody⟩ := Bool.and_eq_true_iff.mp h
    exact ⟨hc, stmts_iff.mp hbody, isSignalFree_outOfSteps⟩
  | for_ n a b body =>
    simp only [stmt, Bool.and_eq_true] at h
    exact ⟨hkey n, h.1.1, h.1.2, stmts_iff.mp h.2⟩
  | block ss => exact stmts_iff.mp h
  | break_ => exact fun _ => h
  | continue_ => exact fun _ => h
  | printAll es => exact exprs_iff.mp h
  | type n fs ms =>
    obtain ⟨hfs, hms⟩ := Bool.and_eq_true_iff.mp h
    refine ⟨hkey n, fun f hf => ⟨hkey _, fields_iff.mp hfs f hf⟩, fun s hs => ?_⟩
    have hplaced := stmts_iff.mp hms s hs
    cases s with
    | function n ps body => exact ⟨hkey n, hplaced⟩
    | _ => exact ⟨isSignalFree_defect _, isSignalFree_defect _⟩
  | import_ path => trivial
  | invalid s => exact isSignalFree_error (by simp [RuntimeError.name])
  | stray w => exact isSignalFree_defect _
  | _ => exact h

end Placed

/-- The discipline of well placed signals. The functions of the store have to keep it too, as they
are called from elsewhere. -/
def Discipline.placement : Discipline where
  toPolicy := placementPolicy
  tasks := Placed.tasks
  known f := Placed.stmts .inCall f.body = true
  expr := Placed.admitted_expr
  stmt := Placed.admitted_stmt
  tolerant _ h := isSignalFree_error (RuntimeError.name_ne_of_isOrdinary h)
  exhausted := isSignalFree_exhausted
  outOfSteps := isSignalFree_outOfSteps
  made _ _ h := h
  bindTo _ h := h
  listMethod _ _ := rfl
  textMethod _ _ := rfl
  global _ := rfl
  defined h _ := ⟨fun _ _ => placementPolicy_key _, .inCall, Placed.stmts_iff.mp h, .inl ⟨rfl, rfl⟩⟩
  native _ _ _ := .inr ⟨isSignalFree_defect _, isSignalFree_error (by simp [RuntimeError.name])⟩

/-- The run of a well placed program on a fresh state drops no signal, whatever the input and the
limits are: it does not end with such an error, nothing that it reaches raises one, and each of its
statements that ends without a failure ends with a value. -/
theorem wellPlaced_signals_taken {p : Program} (hp : p.wellPlaced = true) (settings : Settings)
    (steps : Nat) (input : String) :
    (∀ e, (Eval.runAll settings steps .null p (Machine.fresh input)).1 = .error (.error e) →
      e.name ≠ "ControlFlowError") ∧
    (∀ left t m e, Eval.Visits settings steps p (Machine.fresh input) left t m →
      (Eval.evaluators settings left).Fails t m (.error e) → e.name ≠ "ControlFlowError") ∧
    (∀ before s after v m o m', p = before ++ s :: after →
      Eval.runAll settings steps .null before (Machine.fresh input) = (.ok v, m) →
      Eval.execute settings steps s (Eval.entered settings s m) = (.ok o, m') →
      ∃ w, o = .value w) := by
  let d := Discipline.placement
  have hfresh := d.fresh input
  have hbody : d.regime.tasks.Body .none p := Placed.stmts_iff.mp hp
  have htakes : d.regime.Takes .none := .inl ⟨rfl, rfl⟩
  have hhost : d.regime.Fits settings := .inr (isSignalFree_defect _)
  have hrun : ∀ e, (Eval.runAll settings steps .null p (Machine.fresh input)).1 =
      .error (.error e) → e.name ≠ "ControlFlowError" := fun e he =>
    (Eval.keepsTo_runAll d.closed htakes hhost steps .null hbody _ hfresh (Nat.zero_le _)).failure
      _ he e rfl
  refine ⟨hrun, fun left t m e hvisits hfails => hrun e (hvisits.fails hfails nofun .null), ?_⟩
  rintro before s after v m o m' rfl hbefore hs
  have hm := (Eval.keepsTo_runAll d.closed htakes hhost steps (n := 0) .null
    (fun s h => hbody s (List.mem_append_left _ h)) _ hfresh (Nat.zero_le _)).upholds hfresh
  rw [hbefore] at hm
  have hentered : (Eval.entered settings s m).Upholds d.regime :=
    (Eval.keepsTo_trace (n := 0) settings _ _ hm (Nat.zero_le _)).upholds hm
  have ho := ((Eval.evaluators_keepTo d.closed settings steps).execute
    (hbody s (List.mem_append_right _ List.mem_cons_self)) _ hentered (Nat.zero_le _)).answer o
    (congrArg Prod.fst hs)
  obtain ⟨w, hw, -⟩ := ho.value rfl
  exact ⟨w, hw⟩

/-- A function that returns out of a loop, called in the condition of a loop that is left at once. -/
theorem wellPlaced_signals_taken_nested :
    let p : Program := [
      .function (.text "f") [] [.while_ (.bool true) [.return_ (some (.bool true))]],
      .while_ (.call (.name (.text "f")) []) [.block [.break_]]]
    ∀ e, (Eval.runAll {} 20 .null p (Machine.fresh "")).1 = .error (.error e) →
      e.name ≠ "ControlFlowError" :=
  (wellPlaced_signals_taken (by decide) {} 20 "").1

end Scripting
