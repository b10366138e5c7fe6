import Scripting.Proofs.Eval.Composed

/-!
What may come up in a run. A regime says which parts a program may have, which signals may leave its
statements, how it may fail, and what is known of the functions, records and frames that come up while
there is a number of frames. It goes down to the parts of every form: what a form admits is said here
once, for expressions and for statements.
-/

namespace Scripting

/-- The signals that may leave a statement: out of a loop, and out of a call. -/
structure Signals where
  breaks : Bool
  returns : Bool
  deriving DecidableEq

namespace Signals

def none : Signals := ⟨false, false⟩

def any : Signals := ⟨true, true⟩

def inCall : Signals := ⟨false, true⟩

def inLoop (σ : Signals) : Signals := { σ with breaks := true }

end Signals

/-- What the rules may do: with which failures they may end, which functions they may make, given the
parameters and the body, and whether it is asked which signals leave a statement. -/
structure Policy where
  failure : Failure → Prop
  function : List Name → List Stmt → Prop
  signals : Bool

namespace Policy

variable (P : Policy)

/-- A name that can be looked up, unless the failure to do so is left. -/
def Key (n : Name) : Prop := n.isKey = true ∨ P.failure (.defect .wrongType)

def Breaks (σ : Signals) : Prop := P.signals = true → σ.breaks = true

def Returns (σ : Signals) : Prop := P.signals = true → σ.returns = true

end Policy

/-- All that is in the value of an outcome satisfies `I`, and a signal is among those of `σ`. -/
def Outcome.Within (P : Policy) (I : Content) (σ : Signals) : Outcome → Prop
  | value v => v.All I
  | returned v => P.Returns σ ∧ v.All I
  | broken | continued => P.Breaks σ

/-- Without signals an outcome is a value. -/
theorem Outcome.Within.value {P : Policy} (hP : P.signals = true) {I : Content} {o : Outcome}
    (h : o.Within P I .none) : ∃ v, o = .value v ∧ v.All I := by
  cases o with
  | value v => exact ⟨v, rfl, h⟩
  | returned v => exact nomatch h.1 hP
  | broken => exact nomatch h hP
  | continued => exact nomatch h hP

/-- What may occur in a program: expressions, and statements that may end with some signals. -/
structure Tasks where
  expr : Expr → Prop
  stmt : Signals → Stmt → Prop

namespace Tasks

def all : Tasks := ⟨fun _ => True, fun _ _ => True⟩

def among (parts : Task → Prop) : Tasks :=
  ⟨fun e => parts (.expr e), fun _ s => parts (.stmt s)⟩

variable (T : Tasks)

def Body (σ : Signals) (ss : List Stmt) : Prop := ∀ s ∈ ss, T.stmt σ s

def Holds : Task → Prop
  | .expr e => T.expr e
  | .stmt s => ∃ σ, T.stmt σ s

theorem holds_all : all.Holds = fun _ => True := by
  funext t
  cases t with
  | expr e => rfl
  | stmt s => exact eq_true ⟨.any, trivial⟩

theorem holds_among (parts : Task → Prop) : (among parts).Holds = parts := by
  funext t
  cases t with
  | expr e => rfl
  | stmt s => exact propext ⟨fun ⟨_, h⟩ => h, fun h => ⟨.any, h⟩⟩

end Tasks

/-- The parts of an expression may occur, and its rule fails only as it may. -/
def Expr.Admitted (P : Policy) (T : Tasks) : Expr → Prop
  | .number _ | .bool _ | .text _ | .datum _ => True
  | .name n => P.Key n
  | .assign n e | .field e n => P.Key n ∧ T.expr e
  | .unary _ e => T.expr e
  | .binary a op b => T.expr a ∧ T.expr b ∧ (op = .mod → P.failure (.defect .remainderOfInfinity))
  | .call f args => T.expr f ∧ ∀ e ∈ args, T.expr e
  | .block ss =>
    ∃ σ, T.Body σ ss ∧ (P.signals = true ∧ σ = .none ∨ P.failure (.error .leavesBlock))
  | .lambda ps body => P.function ps body
  | .list es | .tuple es => ∀ e ∈ es, T.expr e
  | .dict ps => ∀ p ∈ ps, T.expr p.1 ∧ T.expr p.2
  | .index c i => T.expr c ∧ T.expr i
  | .record t fs => P.Key t ∧ ∀ f ∈ fs, P.Key f.1 ∧ T.expr f.2
  | .invalid s => P.failure (.error (.invalidExpression s))
  | .stray w => P.failure (.defect (Eval.strayExpression w))

def Stmt.IsMethod (P : Policy) : Stmt → Prop
  | .function n ps body => P.Key n ∧ P.function ps body
  | _ => P.failure (.defect .notMethod) ∧ P.failure (.defect .wrongType)

/-- The parts of a statement may occur, its signals are among those of `σ`, and its rule fails only as
it may. -/
def Stmt.Admitted (P : Policy) (T : Tasks) (σ : Signals) : Stmt → Prop
  | .expr e | .print e => T.expr e
  | .let_ n e | .const n e => P.Key n ∧ T.expr e
  | .function n ps body => P.Key n ∧ P.function ps body
  | .return_ e => P.Returns σ ∧ ∀ e' ∈ e, T.expr e'
  | .if_ c t e => T.expr c ∧ T.Body σ t ∧ ∀ ss ∈ e, T.Body σ ss
  | .while_ c body => T.expr c ∧ T.Body σ.inLoop body ∧ P.failure .outOfSteps
  | .for_ n a b body => P.Key n ∧ T.expr a ∧ T.expr b ∧ T.Body σ.inLoop body
  | .import_ _ => True
  | .block ss => T.Body σ ss
  | .break_ | .continue_ => P.Breaks σ
  | .printAll es => ∀ e ∈ es, T.expr e
  | .type n fs ms =>
    P.Key n ∧ (∀ f ∈ fs, P.Key f.1 ∧ T.expr f.2) ∧ ∀ s ∈ ms, s.IsMethod P
  | .invalid s => P.failure (.error (.invalidStatement s))
  | .stray w => P.failure (.defect (Eval.strayStatement w))

/-- Signals play no part, and whatever a program may do wrong is left to it, but for the remainder of an
infinity. -/
structure Policy.Lenient (P : Policy) : Prop where
  signals : P.signals = false
  defect {d : Defect} : d ≠ .remainderOfInfinity → P.failure (.defect d)
  error {e : RuntimeError} : (∀ op, e ≠ .unknownOperator op) → (∀ n, e ≠ .unknownBuiltin n) →
    P.failure (.error e)

/-- Functions are restricted and nothing else is. No rule ends for an operator that there is not. -/
def Policy.lax (function : List Name → List Stmt → Prop) : Policy where
  failure f := ∀ op, f ≠ .error (.unknownOperator op)
  function := function
  signals := false

theorem Policy.lax_lenient (function : List Name → List Stmt → Prop) : (lax function).Lenient where
  signals := rfl
  defect _ := nofun
  error h _ op heq := h op (Failure.error.inj heq)

theorem Policy.lax_exhausted (function : List Name → List Stmt → Prop) :
    (lax function).failure .exhausted := nofun

theorem Policy.lax_tolerant (function : List Name → List Stmt → Prop) :
    Tolerant (lax function).failure := by
  rintro e he op ⟨⟩
  cases he

section Lenient

variable {P : Policy} (hP : P.Lenient) {parts : Task → Prop}

namespace Policy.Lenient

include hP

theorem key (n : Name) : P.Key n := .inr (hP.defect nofun)

theorem breaks (σ : Signals) : P.Breaks σ := fun h => nomatch hP.signals.symm.trans h

theorem returns (σ : Signals) : P.Returns σ := fun h => nomatch hP.signals.symm.trans h

end Policy.Lenient

include hP

/-- Where nothing else is asked, an expression asks for its parts. -/
theorem Expr.admitted_of_parts {e : Expr} (hparts : ∀ t ∈ e.parts, parts t)
    (hfunction : ∀ ps body, e = .lambda ps body → P.function ps body)
    (hmod : ∀ a b, e = .binary a .mod b → P.failure (.defect .remainderOfInfinity)) :
    e.Admitted P (.among parts) := by
  cases e with
  | name n => exact hP.key n
  | assign n e => exact ⟨hP.key n, hparts _ (by simp)⟩
  | unary op e => exact hparts _ (by simp)
  | binary a op b => exact ⟨hparts _ (by simp), hparts _ (by simp), fun h => hmod a b (h ▸ rfl)⟩
  | call f args => exact ⟨hparts _ (by simp), fun e he => hparts _ (by simp [he])⟩
  | block ss =>
    exact ⟨.any, fun s hs => hparts _ (by simp [hs]), .inr (hP.error nofun nofun)⟩
  | lambda ps body => exact hfunction ps body rfl
  | list es => exact fun e he => hparts _ (by simp [he])
  | tuple es => exact fun e he => hparts _ (by simp [he])
  | dict ps =>
    exact fun p hp => ⟨hparts _ (List.mem_flatMap.mpr ⟨p, hp, by simp⟩),
      hparts _ (List.mem_flatMap.mpr ⟨p, hp, by simp⟩)⟩
  | field e n => exact ⟨hP.key n, hparts _ (by simp)⟩
  | index c i => exact ⟨hparts _ (by simp), hparts _ (by simp)⟩
  | record t fs =>
    exact ⟨hP.key t, fun f hf => ⟨hP.key _, hparts _ (List.mem_map.mpr ⟨f, hf, rfl⟩)⟩⟩
  | invalid s => exact hP.error nofun nofun
  | stray w => exact hP.defect (by cases w <;> nofun)
  | _ => trivial

theorem Stmt.isMethod {s : Stmt}
    (hfunction : ∀ n ps body, s = .function n ps body → P.function ps body) : s.IsMethod P := by
  cases s with
  | function n ps body => exact ⟨hP.key n, hfunction n ps body rfl⟩
  | _ => exact ⟨hP.defect nofun, hP.defect nofun⟩

/-- So does a statement. -/
theorem Stmt.admitted_of_parts {s : Stmt} (hparts : ∀ t ∈ s.parts, parts t)
    (hfunction : ∀ n ps body, s = .function n ps body → P.function ps body)
    (hmethods : ∀ n fs ms, s = .type n fs ms → ∀ m ps body, .function m ps body ∈ ms →
      P.function ps body)
    (hwhile : ∀ c body, s = .while_ c body → P.failure .outOfSteps) (σ : Signals) :
    s.Admitted P (.among parts) σ := by
  cases s with
  | let_ n e => exact ⟨hP.key n, hparts _ (by simp)⟩
  | const n e => exact ⟨hP.key n, hparts _ (by simp)⟩
  | function n ps body => exact ⟨hP.key n, hfunction n ps body rfl⟩
  | return_ e => exact ⟨hP.returns σ, fun e' he => by cases he; exact hparts _ (by simp)⟩
  | if_ c t e =>
    refine ⟨hparts _ (by simp), fun s hs => hparts _ (by simp [hs]), fun ss hss s hs => ?_⟩
    cases hss
    exact hparts _ (by simp [hs])
  | while_ c body =>
    exact ⟨hparts _ (by simp), fun s hs => hparts _ (by simp [hs]), hwhile c body rfl⟩
  | for_ n a b body =>
    exact ⟨hP.key n, hparts _ (by simp), hparts _ (by simp), fun s hs => hparts _ (by simp [hs])⟩
  | block ss => exact fun s hs => hparts _ (by simp [hs])
  | break_ => exact hP.breaks σ
  | continue_ => exact hP.breaks σ
  | printAll es => exact fun e he => hparts _ (by simp [he])
  | type n fs ms =>
    exact ⟨hP.key n, fun f hf => ⟨hP.key _, hparts _ (List.mem_map.mpr ⟨f, hf, rfl⟩)⟩,
      fun s hs => s.isMethod hP fun m ps body heq => hmethods n fs ms rfl m ps body (heq ▸ hs)⟩
  | invalid s => exact hP.error nofun nofun
  | stray w => exact hP.defect (by cases w <;> nofun)
  | import_ path => trivial
  | _ => exact hparts _ (by simp)

end Lenient

/-- A function that is defined can be called: its parameters can be bound, and its body may occur. -/
def Function.CanRun (P : Policy) (T : Tasks) (f : Function) : Prop :=
  (∀ p ∈ f.params, P.Key p) ∧ ∃ σ, T.Body σ f.body ∧
    (P.signals = true ∧ σ.breaks = false ∨
      P.failure (.error .breakOutside) ∧ P.failure (.error .continueOutside))

def Function.CanTake (P : Policy) (f : Function) (args : List Value) : Prop :=
  (∃ b, Builtin.ofName? f.name = some b ∧ b.accepts (f.receiver.toList ++ args) = true) ∨
    P.failure (.defect .wrongType) ∧ P.failure (.error (.unknownBuiltin f.name))

/-- The ways to give a name in a frame a value: as a variable, as a constant, and by assignment. -/
inductive Frame.Change (v : Value) : (Frame → Frame) → Prop
  | bind (n : Name) : Change v (Frame.bind n v)
  | bindConstant (n : Name) : Change v (Frame.bindConstant n v)
  | update (n : Name) : Change v (Frame.update n v)

/-- What may come up in a run. More frames take nothing from what is known. Functions made in a known
frame, methods of the program that are taken from a record, and built-in methods are known, and so is
the frame around the body of a known function. New frames in known ones and new values in frames keep
the shape of the store. -/
structure Regime extends Policy where
  tasks : Tasks
  known : (frames : Nat) → Function → Prop
  record : RecordType → List (Name × Value) → Prop
  frame : (frames : Nat) → FrameId → Prop
  shape : Store → Prop
  known_mono {n n' : Nat} {f : Function} : n ≤ n' → known n f → known n' f
  frame_mono {n n' : Nat} {f : FrameId} : n ≤ n' → frame n f → frame n' f
  made {n : Nat} {f : FrameId} {params : List Name} {body : List Stmt} (name : Name) :
    function params body → frame n f → known n (.mk params body name (some f) false none)
  bound {n : Nat} {f : Function} (v : Value) :
    known n f → f.native = false → known n (f.bindTo v)
  listMethod {n : Nat} {name : Name} {b : Builtin} (items : List Value) :
    Builtin.listMethod? name = some b → known n (b.function (some (.list items)))
  textMethod {n : Nat} {name : Name} {b : Builtin} (s : String) :
    Builtin.textMethod? name = some b → known n (b.function (some (.text s)))
  home {n : Nat} {f : Function} :
    known n f → f.native = false → frame n (f.closure.getD globals)
  defined {n : Nat} {f : Function} :
    known n f → f.native = false → f.CanRun toPolicy tasks
  native {n : Nat} {f : Function} {args : List Value} :
    known n f → f.native = true → args.length = f.params.length → f.CanTake toPolicy args
  dict (fields : List (Name × Value)) : record .dict fields
  declared {t : RecordType} {fields : List (Name × Value)} :
    Named.names fields = Named.names t.fields → record t fields
  child {s : Store} {parent : FrameId} :
    shape s → frame s.frames.size parent → shape (s.child parent).2
  modify {s : Store} {v : Value} {change : Frame → Frame} (f : FrameId) :
    shape s → Frame.Change v change → shape (s.modify f change)
  tolerant : Tolerant failure
  exhausted : failure .exhausted

namespace Regime

variable {R : Regime} {α : Type}

def content (R : Regime) (n : Nat) : Content := ⟨R.known n, R.record⟩

theorem content_mono {n n' : Nat} (hn : n ≤ n') : (R.content n).Le (R.content n') :=
  ⟨fun _ => R.known_mono hn, fun _ _ h => h⟩

/-- Nothing is asked: everything is known, and signals play no part. -/
structure IsFree (R : Regime) : Prop where
  known (n : Nat) (f : Function) : R.known n f
  record (t : RecordType) (fields : List (Name × Value)) : R.record t fields
  frame (n : Nat) (f : FrameId) : R.frame n f
  signals : R.signals = false

theorem IsFree.loose (h : R.IsFree) (n : Nat) : (R.content n).Loose :=
  ⟨h.record, fun _ _ => h.known n _⟩

/-- A property of answers. More frames do not take it away, and where nothing is asked, every answer
has it. -/
structure Mark (R : Regime) (α : Type) where
  holds : (frames : Nat) → α → Prop
  mono {n n' : Nat} {x : α} : n ≤ n' → holds n x → holds n' x
  free : R.IsFree → ∀ n x, holds n x

def any (R : Regime) (α : Type) : R.Mark α where
  holds _ _ := True
  mono _ _ := trivial
  free _ _ _ := trivial

def value (R : Regime) : R.Mark Value where
  holds n v := v.All (R.content n)
  mono hn hv := hv.mono (content_mono hn)
  free h n v := Value.all_of_holds (h.loose n) v fun f _ => h.known n f

def place (R : Regime) : R.Mark FrameId where
  holds := R.frame
  mono := R.frame_mono
  free h := h.frame

def fields (R : Regime) : R.Mark (List (Name × Value)) where
  holds n fs := FieldsAll (R.content n) fs
  mono hn hfs p hp := R.value.mono hn (hfs p hp)
  free h n _ p _ := R.value.free h n p.2

/-- What is in the values of fields is known, and so is the record of a type that has them. -/
def recordOf (R : Regime) (t : RecordType) : R.Mark (List (Name × Value)) where
  holds n fs := FieldsAll (R.content n) fs ∧ R.record t fs
  mono hn hfs := ⟨R.fields.mono hn hfs.1, hfs.2⟩
  free h n fs := ⟨R.fields.free h n fs, h.record t fs⟩

/-- Methods are known, and so are they when they are taken from a record. -/
def methods (R : Regime) : R.Mark (List (Name × Function)) where
  holds n ms := ∀ p ∈ ms, p.2.All (R.content n) ∧ ∀ v, R.known n (p.2.bindTo v)
  mono hn hms p hp := ⟨(hms p hp).1.mono (content_mono hn),
    fun v => R.known_mono hn ((hms p hp).2 v)⟩
  free h n _ p _ := ⟨Function.all_of_holds (h.loose n) p.2 fun f _ => h.known n f,
    fun _ => h.known n _⟩

def outcome (R : Regime) (σ : Signals) : R.Mark Outcome where
  holds n o := o.Within R.toPolicy (R.content n) σ
  mono {_ _ o} hn ho := by
    cases o with
    | value v => exact R.value.mono hn ho
    | returned v => exact ⟨ho.1, R.value.mono hn ho.2⟩
    | broken => exact ho
    | continued => exact ho
  free h n o := by
    have hsignals : R.signals ≠ true := by simp [h.signals]
    cases o with
    | value v => exact R.value.free h n v
    | returned v => exact ⟨fun hs => absurd hs hsignals, R.value.free h n v⟩
    | broken => exact fun hs => absurd hs hsignals
    | continued => exact fun hs => absurd hs hsignals

namespace Mark

def opt (Q : R.Mark α) : R.Mark (Option α) where
  holds n x := ∀ y ∈ x, Q.holds n y
  mono hn hx y hy := Q.mono hn (hx y hy)
  free h n _ y _ := Q.free h n y

def each (Q : R.Mark α) : R.Mark (List α) where
  holds n xs := ∀ x ∈ xs, Q.holds n x
  mono hn hxs x hx := Q.mono hn (hxs x hx)
  free h n _ x _ := Q.free h n x

end Mark

/-- What may occur may be run: a regime is closed if it admits the parts of whatever it admits. -/
structure Closed (R : Regime) : Prop where
  expr {e : Expr} : R.tasks.expr e → e.Admitted R.toPolicy R.tasks
  stmt {σ : Signals} {s : Stmt} : R.tasks.stmt σ s → s.Admitted R.toPolicy R.tasks σ
  outOfSteps : R.failure .outOfSteps

end Regime

/-- The host can do with the limit on calls, or it is left that it cannot. -/
def Policy.Fits (P : Policy) (settings : Settings) : Prop :=
  settings.FitsHost ∨ P.failure (.defect .limitTooLarge)

/-- Statements after which a program goes on: no signal leaves them, or it is left that one does. -/
def Policy.Takes (P : Policy) (σ : Signals) : Prop :=
  P.signals = true ∧ σ = .none ∨ P.failure (.error .returnOutside) ∧
    P.failure (.error .breakOutside) ∧ P.failure (.error .continueOutside)

end Scripting
