import Scripting.Proofs.Eval.Heap
import Scripting.Proofs.Syntax.Form

/-!
How rules are put together. The rule for a form of program consists of steps of its own, of calls of
the two evaluators for the parts of the form, and of three things around these: a new frame, the
entry of a function body, and repetition. What holds of the steps and is kept by the three holds of
every rule, so a law of all runs is proved by one induction on the composition.
-/

namespace Scripting

/-- A part of a program that can be evaluated or executed. -/
inductive Task where
  | expr (e : Expr)
  | stmt (s : Stmt)

/-- What the rule for an expression can evaluate or execute itself. The body of a function literal
is not among it. -/
@[simp] def Expr.parts : Expr → List Task
  | .number _ | .bool _ | .text _ | .datum _ | .name _ | .lambda _ _ | .invalid _ | .stray _ => []
  | .unary _ e | .assign _ e | .field e _ => [.expr e]
  | .binary a _ b | .index a b => [.expr a, .expr b]
  | .call f args => .expr f :: args.map .expr
  | .block ss => ss.map .stmt
  | .list es | .tuple es => es.map .expr
  | .dict ps => ps.flatMap fun p => [.expr p.1, .expr p.2]
  | .record _ fs => fs.map fun f => .expr f.2

@[simp] def Stmt.parts : Stmt → List Task
  | .expr e | .let_ _ e | .const _ e | .return_ (some e) | .print e => [.expr e]
  | .function _ _ _ | .return_ none | .import_ _ | .break_ | .continue_ | .invalid _ | .stray _ => []
  | .if_ c t e => .expr c :: (t ++ e.getD []).map .stmt
  | .while_ c body => .expr c :: body.map .stmt
  | .for_ _ a b body => .expr a :: .expr b :: body.map .stmt
  | .block ss => ss.map .stmt
  | .printAll es => es.map .expr
  | .type _ fs _ => fs.map fun f => .expr f.2

@[simp] def Task.parts : Task → List Task
  | expr e => e.parts
  | stmt s => s.parts

def Form.task (C : Form) : Task → Bool
  | .expr e => C.expr e
  | .stmt s => C.stmt s

/-- The name that a statement binds in the active frame. -/
def Stmt.declared? : Stmt → Option Name
  | .let_ n _ | .const n _ | .function n _ _ | .type n _ _ => some n
  | _ => none

/-- The state in a new frame inside of another one. -/
def Machine.inner (m : Machine) (parent : FrameId) : Machine :=
  { m with store := (m.store.child parent).2, active := (m.store.child parent).1 }

/-- The host can do with as much of its stack as the limit on calls needs. -/
def Settings.FitsHost (settings : Settings) : Prop :=
  settings.stackLimit ≤ settings.host.greatestLimit

instance (settings : Settings) : Decidable settings.FitsHost :=
  inferInstanceAs (Decidable (_ ≤ _))

namespace Eval

variable {α β : Type}

def inScope (body : Eval α) : Eval α := do
  let frame ← newFrame (← activeFrame)
  inFrame frame body

/-- Runs the body of a call one call deeper, in a new frame, unless the limit is reached. -/
def enter (settings : Settings) (closure : FrameId) (body : Eval α) : Eval α := fun m =>
  if settings.callLimit ≤ m.callDepth then fail (.callDepth settings.callLimit) m
  else (newFrame closure >>= fun frame => deeper (inFrame frame body)) m

/-- Runs a computation until it gives an answer, at most a number of times. -/
def repeated (body : Eval (Option α)) : (rounds : Nat) → Eval α
  | 0 => throw .outOfSteps
  | rounds + 1 => do
    match ← body with
    | some x => return x
    | none => repeated body rounds

theorem bind_apply (a : Eval α) (f : α → Eval β) (m : Machine) :
    (a >>= f) m = match a m with
      | (.ok x, m') => f x m'
      | (.error e, m') => (.error e, m') := by
  simp only [Bind.bind, ExceptT.bind, ExceptT.mk, StateT.bind]
  rcases a m with ⟨_ | x, m'⟩ <;> rfl

section Bind

variable {a : Eval α} {k : α → Eval β} {m m₁ : Machine}

theorem bind_of_ok {x : α} (h : a m = (.ok x, m₁)) : (a >>= k) m = k x m₁ := by
  rw [bind_apply, h]

theorem bind_of_error {e : Failure} (h : a m = (.error e, m₁)) : (a >>= k) m = (.error e, m₁) := by
  rw [bind_apply, h]

/-- Where two computations one after the other succeed, both do. -/
theorem bind_eq_ok {y : β} {m₂ : Machine} (h : (a >>= k) m = (.ok y, m₂)) :
    ∃ x m₁, a m = (.ok x, m₁) ∧ k x m₁ = (.ok y, m₂) := by
  rcases ha : a m with ⟨e | x, m₁⟩
  · rw [bind_of_error ha] at h
    cases h
  · rw [bind_of_ok ha] at h
    exact ⟨x, m₁, rfl, h⟩

theorem bind_fails {e : Failure} (h : (a m).1 = .error e) : ((a >>= k) m).1 = .error e := by
  rw [bind_of_error (Prod.ext h rfl)]

end Bind

theorem inScope_apply (body : Eval α) (m : Machine) :
    inScope body m = ((body (m.inner m.active)).1,
      { (body (m.inner m.active)).2 with active := m.active }) := rfl

/-- At the limit a call fails before its frame is made. -/
theorem enter_of_le {settings : Settings} {m : Machine} (h : settings.callLimit ≤ m.callDepth)
    (closure : FrameId) (body : Eval α) :
    enter settings closure body m = (.error (.error (.callDepth settings.callLimit)), m) :=
  if_pos h

theorem enter_of_lt {settings : Settings} {m : Machine} (h : m.callDepth < settings.callLimit)
    (closure : FrameId) (body : Eval α) :
    enter settings closure body m =
      let inside := body { m.inner closure with callDepth := m.callDepth + 1 }
      (inside.1, { inside.2 with active := m.active, callDepth := inside.2.callDepth - 1 }) :=
  if_neg (Int.not_le.mpr h)

section Trace

variable {settings : Settings} {message : Message} {m : Machine}

theorem trace_of_lt (h : settings.debugLevel < message.level) :
    trace settings message m = (.ok (), { m with told := m.told + 1 }) := if_pos h

theorem trace_of_holds (h : message.level ≤ settings.debugLevel)
    (hholds : settings.holds m.told message = true) :
    trace settings message m =
      (.ok (), { m with journal := m.journal.add message.line, told := m.told + 1 }) :=
  (if_neg (Int.not_lt.mpr h)).trans (if_pos hholds)

theorem trace_of_not_holds (h : message.level ≤ settings.debugLevel)
    (hholds : settings.holds m.told message = false) :
    trace settings message m = (.error .exhausted, { m with told := m.told + 1 }) :=
  (if_neg (Int.not_lt.mpr h)).trans (if_neg (Bool.eq_false_iff.mp hholds))

/-- Only the journal and the number of messages change. -/
theorem trace_state (settings : Settings) (message : Message) (m : Machine) :
    ∃ journal, (trace settings message m).2 = { m with journal := journal, told := m.told + 1 } := by
  rcases Int.lt_or_le settings.debugLevel message.level with h | h
  · exact ⟨m.journal, by rw [trace_of_lt h]⟩
  · cases hholds : settings.holds m.told message with
    | true => exact ⟨_, by rw [trace_of_holds h hholds]⟩
    | false => exact ⟨m.journal, by rw [trace_of_not_holds h hholds]⟩

/-- Telling the trace fails in one way only. -/
theorem trace_error {f : Failure} (h : (trace settings message m).1 = .error f) :
    f = .exhausted := by
  unfold trace at h
  dsimp only at h
  split at h
  · cases h
  · split at h <;> cases h
    rfl

end Trace

theorem unwound_eq_ok {x : Except Failure α} {y : α} : unwound x = .ok y ↔ x = .ok y := by
  unfold unwound
  split <;> simp

/-- A failure that leaves a run is its own failure, or stands for an exhausted stack of the host. -/
theorem unwound_eq_error {x : Except Failure α} {f : Failure} (h : unwound x = .error f) :
    x = .error .exhausted ∧ f = .error .stackExhausted ∨ x = .error f := by
  unfold unwound at h
  split at h
  · cases h
    exact .inl ⟨rfl, rfl⟩
  · exact .inr h

theorem unwound_error {x : Except Failure α} {f : Failure} (hf : f ≠ .exhausted)
    (h : x = .error f) : unwound x = .error f := by
  subst h
  cases f with
  | exhausted => exact absurd rfl hf
  | _ => rfl

theorem onHostStack_of_lt {settings : Settings}
    (h : settings.host.greatestLimit < settings.stackLimit) (a : Eval α) (m : Machine) :
    onHostStack settings a m = (.error (.defect .limitTooLarge), m) := if_pos h

theorem onHostStack_of_le {settings : Settings} (h : settings.FitsHost) (a : Eval α) (m : Machine) :
    onHostStack settings a m = (unwound (a m).1, (a m).2) := if_neg (Int.not_lt.mpr h)

theorem forRounds_succ (r : Evaluators) (n : Name) (body : List Stmt) (left : Nat) (i : Int) :
    forRounds r n body (left + 1) i =
      inScope (do
        Eval.bind n (.number (Float.ofInt i))
        executeAll r .null body) >>= fun outcome =>
      match outcome with
      | .broken => return .value .null
      | .returned v => return .returned v
      | _ => forRounds r n body left (i + 1) := by
  simp only [inScope, bind_assoc]
  rfl

/-- One round of a `while` loop, with the outcome of the loop if it ends there. -/
def whileRound (r : Evaluators) (c : Expr) (body : List Stmt) : Eval (Option Outcome) := do
  if (← r.evaluate c).isTruthy then
    match ← executeBlock r body with
    | .broken => return some (.value .null)
    | .returned v => return some (.returned v)
    | _ => return none
  else return some (.value .null)

/-- A `while` loop repeats one round. -/
theorem whileRounds_eq (r : Evaluators) (c : Expr) (body : List Stmt) (rounds : Nat) :
    whileRounds r c body rounds = repeated (whileRound r c body) rounds := by
  induction rounds with
  | zero => rfl
  | succ rounds ih =>
    rw [whileRounds, repeated, whileRound, bind_assoc]
    congr 1
    funext v
    split
    · rw [bind_assoc]
      congr 1
      funext o
      cases o with
      | value v => exact ih
      | returned v => rfl
      | broken => rfl
      | continued => exact ih
    · rfl

/-- The body of a call in its frame: the receiver and the arguments are bound before it runs. -/
def callBody (r : Evaluators) (f : Function) (args : List Value) : Eval Outcome := do
  match f.receiver with
  | some v => Eval.bind (.text "self") v
  | none => pure ()
  bindParams f.params args
  executeAll r .null f.body

/-- A call enters the body of the function and then leaves it. -/
theorem callDefined_eq (settings : Settings) (r : Evaluators) (f : Function) (args : List Value) :
    callDefined settings r f args =
      enter settings (f.closure.getD globals) (callBody r f args) >>= leaveCall := by
  funext m
  rw [bind_apply]
  by_cases h : settings.callLimit ≤ m.callDepth
  · rw [enter_of_le h]
    simp only [callDefined, bind_apply, callDepth, h, if_true]
    rfl
  · rw [enter_of_lt (Int.not_le.mp h)]
    simp only [callDefined, bind_apply, callDepth, h, if_false]
    rfl

/-- Whether a rule may bind names in the frame that is active when it starts. -/
inductive Effect where
  | quiet
  | declaring

/-- A rule, given the settings and the evaluators, is composed of steps that fail as `F` says and of
calls of the evaluators for tasks among `parts`. A body that is entered may hold any tasks. -/
inductive Composed (F : Failure → Prop) :
    (Task → Prop) → Effect → {α : Type} → (Settings → Evaluators → Eval α) → Prop
  | pure {parts : Task → Prop} {k : Effect} {α : Type} (x : α) :
      Composed F parts k fun _ _ => pure x
  | throw {parts : Task → Prop} {k : Effect} {α : Type} {f : Failure} (h : F f) :
      Composed F parts k fun _ _ => (throw f : Eval α)
  | activeFrame {parts : Task → Prop} {k : Effect} : Composed F parts k fun _ _ => activeFrame
  | store {parts : Task → Prop} {k : Effect} : Composed F parts k fun _ _ => store
  | assignStore {parts : Task → Prop} {k : Effect} (n : Name) (v : Value) :
      Composed F parts k fun _ _ => assignStore n v
  | set {parts : Task → Prop} (n : Name) (v : Value) :
      Composed F parts .declaring fun _ _ => changeStore fun active store => store.set active n v
  | declareConstant {parts : Task → Prop} (n : Name) (v : Value) :
      Composed F parts .declaring fun _ _ =>
        changeStore fun active store => store.declareConstant active n v
  | printLine {parts : Task → Prop} {k : Effect} (line : String) :
      Composed F parts k fun _ _ => printLine line
  | readLine {parts : Task → Prop} {k : Effect} :
      Composed F parts k fun settings _ => readLine settings
  | trace {parts : Task → Prop} {k : Effect} (message : Message) (exhausted : F .exhausted) :
      Composed F parts k fun settings _ => trace settings message
  | evaluate {parts : Task → Prop} {k : Effect} {e : Expr} (h : parts (.expr e)) :
      Composed F parts k fun _ r => r.evaluate e
  | execute {parts : Task → Prop} {s : Stmt} (h : parts (.stmt s)) :
      Composed F parts .declaring fun _ r => r.execute s
  | bind {parts : Task → Prop} {k : Effect} {α β : Type} {c : Settings → Evaluators → Eval α}
      {d : Settings → Evaluators → α → Eval β} (first : Composed F parts k c)
      (rest : ∀ x, Composed F parts k fun settings r => d settings r x) :
      Composed F parts k fun settings r => c settings r >>= d settings r
  | inScope {parts : Task → Prop} {k : Effect} {α : Type} {c : Settings → Evaluators → Eval α}
      (h : Composed F parts .declaring c) : Composed F parts k fun settings r => inScope (c settings r)
  | enter {parts : Task → Prop} {k : Effect} {α : Type} {c : Settings → Evaluators → Eval α}
      (closure : FrameId) (limit : ∀ n, F (.error (.callDepth n)))
      (h : Composed F (fun _ => True) .declaring c) :
      Composed F parts k fun settings r => enter settings closure (c settings r)
  | repeated {parts : Task → Prop} {k : Effect} {α : Type}
      {c : Settings → Evaluators → Eval (Option α)} (stops : F .outOfSteps)
      (h : Composed F parts k c) : Composed F parts k fun settings r => repeated (c settings r) r.rounds

/-- Only the remainder of two numbers fails for an infinity. -/
abbrev remainderFailure : Failure := .defect .remainderOfInfinity

end Eval

end Scripting
