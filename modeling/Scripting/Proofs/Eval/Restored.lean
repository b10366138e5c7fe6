import Scripting.Proofs.Eval.Flow

/-! The active frame and the depth of calls are restored by every computation, however it ends: a
value, a signal, an error at any depth, or a defect. A session can therefore always go on. -/
namespace Scripting

/-- Where a run stands: the active frame and the depth of calls. -/
def Machine.place (m : Machine) : FrameId × Nat := (m.active, m.callDepth)

namespace Eval

variable {α β : Type}

/-- A computation ends where it started. The outcome plays no part. -/
def Restores (a : Eval α) : Prop := ∀ m, (a m).2.place = m.place

theorem restores_pure (x : α) : Restores (pure x : Eval α) := fun _ => rfl

theorem restores_throw (e : Failure) : Restores (throw e : Eval α) := fun _ => rfl

theorem restores_trace (settings : Settings) (message : Message) :
    Restores (trace settings message) := by
  intro m
  obtain ⟨journal, h⟩ := trace_state settings message m
  rw [h]
  rfl

theorem Restores.bind {a : Eval α} {f : α → Eval β} (ha : Restores a)
    (hf : ∀ x, Restores (f x)) : Restores (a >>= f) := by
  intro m
  have h := ha m
  rw [bind_apply]
  rcases hm : a m with ⟨_ | x, m'⟩
  · rw [hm] at h
    exact h
  · rw [hm] at h
    exact (hf x m').trans h

/-- The frame inside is a new one: the frame that was active before is put back. -/
theorem Restores.inScope {a : Eval α} (ha : Restores a) : Restores (inScope a) := by
  intro m
  have h := congrArg Prod.snd (ha (m.inner m.active))
  exact congrArg (m.active, ·) h

/-- The body ends as deep as it started, one call deeper. At the limit nothing is done at all. -/
theorem Restores.enter {a : Eval α} (ha : Restores a) (settings : Settings) (closure : FrameId) :
    Restores (enter settings closure a) := by
  intro m
  by_cases h : settings.callLimit ≤ m.callDepth
  · rw [enter_of_le h]
  · rw [enter_of_lt (Int.not_le.mp h)]
    have hdepth := congrArg Prod.snd (ha { m.inner closure with callDepth := m.callDepth + 1 })
    exact congrArg (m.active, · - 1) hdepth

theorem Restores.onHostStack {a : Eval α} (ha : Restores a) (settings : Settings) :
    Restores (onHostStack settings a) := by
  intro m
  rcases Int.lt_or_le settings.host.greatestLimit settings.stackLimit with h | h
  · rw [onHostStack_of_lt h]
  · rw [onHostStack_of_le h]
    exact ha m

theorem Restores.repeated {a : Eval (Option α)} (ha : Restores a) (rounds : Nat) :
    Restores (repeated a rounds) := by
  induction rounds with
  | zero => exact restores_throw _
  | succ rounds ih =>
    refine ha.bind fun x => ?_
    cases x with
    | some x => exact restores_pure x
    | none => exact ih

end Eval

def Evaluators.next (settings : Settings) (r : Evaluators) : Evaluators :=
  ⟨Eval.evaluateStep settings r, Eval.executeStep settings r, r.rounds + 1⟩

structure Evaluators.Restore (r : Evaluators) : Prop where
  evaluate : ∀ e, Eval.Restores (r.evaluate e)
  execute : ∀ s, Eval.Restores (r.execute s)

namespace Eval

variable {α : Type}

/-- Each rule ends where it started when the evaluators do. -/
theorem Composed.restores {F : Failure → Prop} {parts : Task → Prop} {k : Effect}
    {c : Settings → Evaluators → Eval α} (h : Composed F parts k c) (settings : Settings)
    {r : Evaluators} (hr : r.Restore) : Restores (c settings r) := by
  induction h with
  | pure x => exact restores_pure x
  | throw h => exact restores_throw _
  | evaluate h => exact hr.evaluate _
  | execute h => exact hr.execute _
  | bind first rest ih ihrest => exact ih.bind ihrest
  | inScope h ih => exact ih.inScope
  | enter closure limit h ih => exact ih.enter settings closure
  | repeated stops h ih => exact ih.repeated r.rounds
  | trace message exhausted => exact restores_trace settings message
  | _ => exact fun _ => rfl

def evaluators (settings : Settings) (steps : Nat) : Evaluators :=
  ⟨evaluate settings steps, execute settings steps, steps⟩

/-- Both sorts at once, by induction on the steps: a step only calls evaluators with fewer. -/
theorem evaluators_restore (settings : Settings) (steps : Nat) :
    (evaluators settings steps).Restore := by
  induction steps with
  | zero =>
    constructor
    · intro e
      exact restores_throw _
    · intro s
      exact restores_throw _
  | succ steps ih =>
    constructor
    · intro e
      show Restores (evaluate settings (steps + 1) e)
      rw [evaluate]
      exact (composed_expr (k := .quiet) e).restores settings ih
    · intro s
      show Restores (execute settings (steps + 1) s)
      rw [execute]
      exact (composed_stmt s).restores settings ih

theorem restores_call {r : Evaluators} (hr : r.Restore) (settings : Settings) (callee : Value)
    (args : List Value) : Restores (call settings r callee args) := by
  have h : Composed (fun _ => True) (fun _ => True) .quiet
      (fun settings r => call settings r callee args) := composed_call common_true callee args
  exact h.restores settings hr

theorem restores_runStmt (settings : Settings) (steps : Nat) (s : Stmt) :
    Restores (runStmt settings steps s) := by
  have hr := evaluators_restore settings steps
  exact (restores_trace settings _).bind fun _ => ((hr.execute s).onHostStack settings).bind fun o =>
    (composed_leaveProgram (k := .quiet) o).restores settings hr

theorem restores_runExpr (settings : Settings) (steps : Nat) (e : Expr) :
    Restores (runExpr settings steps e) :=
  ((evaluators_restore settings steps).evaluate e).onHostStack settings

end Eval

/-- What a session does at a time: it runs a statement or an expression. -/
inductive Operation where
  | run (s : Stmt)
  | runExpr (e : Expr)

/-- The state after an operation, which may have failed. -/
def Operation.perform (settings : Settings) (m : Machine) : Operation → Machine
  | run s => (m.runStmt settings s).2
  | runExpr e => (m.runExpr settings e).2

theorem Operation.perform_place (settings : Settings) (m : Machine) (o : Operation) :
    (o.perform settings m).place = m.place := by
  cases o with
  | run s => exact Eval.restores_runStmt settings manySteps s m
  | runExpr e => exact Eval.restores_runExpr settings manySteps e m

theorem performAll_place (settings : Settings) (m : Machine) (os : List Operation) :
    (os.foldl (Operation.perform settings) m).place = m.place := by
  induction os generalizing m with
  | nil => rfl
  | cons o rest ih => exact (ih _).trans (o.perform_place settings m)

/-- Statements, expressions and calls end in the frame and at the depth in which they started,
whatever their outcome. So a session whose active frame is the outermost one and whose depth is zero
is in that state again after any operations, also if some of them failed. -/
theorem place_restored (settings : Settings) (m : Machine) :
    (∀ steps s, (Eval.execute settings steps s m).2.place = m.place) ∧
    (∀ steps e, (Eval.evaluate settings steps e m).2.place = m.place) ∧
    (∀ steps callee args,
      (Eval.call settings (Eval.evaluators settings steps) callee args m).2.place = m.place) ∧
    (∀ os : List Operation, m.active = globals → m.callDepth = 0 →
      (os.foldl (Operation.perform settings) m).active = globals ∧
        (os.foldl (Operation.perform settings) m).callDepth = 0) := by
  refine ⟨fun steps s => ?_, fun steps e => ?_, fun steps callee args => ?_,
    fun os hactive hdepth => ?_⟩
  · exact (Eval.evaluators_restore settings steps).execute s m
  · exact (Eval.evaluators_restore settings steps).evaluate e m
  · exact Eval.restores_call (Eval.evaluators_restore settings steps) settings callee args m
  · have h := performAll_place settings m os
    constructor
    · exact (congrArg Prod.fst h).trans hactive
    · exact (congrArg Prod.snd h).trans hdepth

/-- A signal that nothing takes, an error two blocks deep and a defect: the session goes on. -/
theorem place_restored_after_failures :
    let os : List Operation := [.run .break_,
      .run (.block [.while_ (.bool true) [.expr (.name (.text "missing"))]]),
      .runExpr (.list [.block [.expr (.stray (.misplaced .null))]])]
    (os.foldl (Operation.perform {}) (Machine.fresh "")).active = globals ∧
      (os.foldl (Operation.perform {}) (Machine.fresh "")).callDepth = 0 :=
  (place_restored {} (Machine.fresh "")).2.2.2 _ rfl rfl

end Scripting
