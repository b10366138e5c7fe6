import Scripting.Eval.Builtin

/-!
Evaluation of expressions and execution of statements. A statement ends with a value or with a
signal that travels outward until a call or a loop takes it. Every block, loop round and call has a
frame of its own, and whatever happens inside, the frame that was active before is active again
afterwards.
-/

namespace Scripting

inductive Outcome where
  | value (v : Value)
  | returned (v : Value)
  | broken
  | continued

/-- The two evaluators as the rules below call them, and a bound on the rounds of a loop. -/
structure Evaluators where
  evaluate : Expr → Eval Value
  execute : Stmt → Eval Outcome
  rounds : Nat

namespace Eval

/-- Executes statements in order; the last value is the answer. A signal stops them. -/
def executeAll (r : Evaluators) (last : Value) : List Stmt → Eval Outcome
  | [] => return .value last
  | s :: rest => do
    match ← r.execute s with
    | .value v => executeAll r v rest
    | signal => return signal

def executeBlock (r : Evaluators) (statements : List Stmt) : Eval Outcome := do
  let frame ← newFrame (← activeFrame)
  inFrame frame (executeAll r .null statements)

def evaluateAll (r : Evaluators) : List Expr → Eval (List Value)
  | [] => return []
  | e :: rest => do
    let v ← r.evaluate e
    return v :: (← evaluateAll r rest)

/-- Evaluates the pairs of a dictionary: each key, then its value. -/
def evaluatePairs (r : Evaluators) (fields : List (Name × Value)) :
    List (Expr × Expr) → Eval (List (Name × Value))
  | [] => return fields
  | (k, e) :: rest => do
    match ← r.evaluate k with
    | .text n =>
      let v ← r.evaluate e
      evaluatePairs r (Named.put (.text n) v fields) rest
    | v => fail (.dictKey v.typeName)

def evaluateFields (r : Evaluators) (fields : List (Name × Value)) :
    List (Name × Expr) → Eval (List (Name × Value))
  | [] => return fields
  | (n, e) :: rest => do
    let v ← r.evaluate e
    requireKey n
    evaluateFields r (Named.put n v fields) rest

/-- Evaluates the fields of a record literal, each of which its type has to have. -/
def evaluateRecord (r : Evaluators) (t : RecordType) (fields : List (Name × Value)) :
    List (Name × Expr) → Eval (List (Name × Value))
  | [] => return fields
  | (n, e) :: rest => do
    requireKey n
    if Named.has n t.fields then
      let v ← r.evaluate e
      evaluateRecord r t (Named.put n v fields) rest
    else fail (.noSuchField t.name n)

def bindParams : List Name → List Value → Eval Unit
  | p :: params, v :: args => do
    Eval.bind p v
    bindParams params args
  | _, _ => return ()

/-- The answer of a call whose body has ended. -/
def leaveCall : Outcome → Eval Value
  | .value v => return v
  | .returned v => return v
  | .broken => fail .breakOutside
  | .continued => fail .continueOutside

def callDefined (settings : Settings) (r : Evaluators) (f : Function) (args : List Value) :
    Eval Value := do
  if settings.callLimit ≤ (← callDepth) then fail (.callDepth settings.callLimit)
  let frame ← newFrame (f.closure.getD globals)
  let outcome ← deeper (inFrame frame do
    match f.receiver with
    | some v => Eval.bind (.text "self") v
    | none => pure ()
    bindParams f.params args
    executeAll r .null f.body)
  leaveCall outcome

def callBuiltin (settings : Settings) (f : Function) (args : List Value) : Eval Value :=
  match Builtin.ofName? f.name with
  | none => fail (.unknownBuiltin f.name)
  | some b => b.apply settings (f.receiver.toList ++ args)

def call (settings : Settings) (r : Evaluators) (callee : Value) (args : List Value) : Eval Value :=
  match callee with
  | .function f => do
    if args.length != f.params.length then
      fail (.argumentCount f.name f.params.length args.length)
    trace settings (.call f.name args)
    if f.native then callBuiltin settings f args else callDefined settings r f args
  | v => fail (.notCallable v.typeName)

def makeRecord (r : Evaluators) (type : Name) (fields : List (Name × Expr)) : Eval Value := do
  match ← lookup type with
  | some (.type t) => return .record t (← evaluateRecord r t t.fields fields)
  | _ => fail (.unknownType type)

/-- The failure of a stray that is reached as an expression. -/
def strayExpression : Stray → Defect
  | .misplaced t => .notExpression t.fullTypeName
  | .unusable _ => .wrongType
  | .noMethod _ => .notMethod

def strayStatement : Stray → Defect
  | .misplaced t => .notStatement t.fullTypeName
  | .unusable _ => .wrongType
  | .noMethod _ => .notMethod

def evaluateStep (settings : Settings) (r : Evaluators) : Expr → Eval Value
  | .number x => return .number x
  | .bool b => return .bool b
  | .text s => return .text s
  | .datum t => return .ofTree t
  | .name n => do
    match ← lookup n with
    | none | some (.datum .null) => fail (.undefinedVariable n)
    | some v => return v
  | .assign n e => do
    let v ← r.evaluate e
    assign n v
    return v
  | .unary op e => do
    let v ← r.evaluate e
    ofExcept (v.applyUnary op)
  | .binary a op b => do
    let v ← r.evaluate a
    let w ← r.evaluate b
    ofExcept (Value.applyBinary op v w)
  | .call f args => do
    let callee ← r.evaluate f
    let values ← evaluateAll r args
    call settings r callee values
  | .block ss => do
    match ← executeBlock r ss with
    | .value v => return v
    | _ => fail .leavesBlock
  | .lambda ps body => do
    return .function (.mk ps body Function.unnamed (some (← activeFrame)) false none)
  | .list es => do return .list (← evaluateAll r es)
  | .tuple es => do return .list (← evaluateAll r es)
  | .dict ps => do return .record RecordType.dict (← evaluatePairs r [] ps)
  | .field e n => do
    let v ← r.evaluate e
    ofExcept (v.getMember n)
  | .index c i => do
    let v ← r.evaluate c
    let k ← r.evaluate i
    ofExcept (v.getIndex k)
  | .record t fs => makeRecord r t fs
  | .invalid s => fail (.invalidExpression s)
  | .stray w => spoil (strayExpression w)

def whileRounds (r : Evaluators) (c : Expr) (body : List Stmt) : (rounds : Nat) → Eval Outcome
  | 0 => throw .outOfSteps
  | rounds + 1 => do
    if (← r.evaluate c).isTruthy then
      match ← executeBlock r body with
      | .broken => return .value .null
      | .returned v => return .returned v
      | _ => whileRounds r c body rounds
    else return .value .null

/-- The rounds of a `for` loop that are left, from a number on. Each has a frame of its own. -/
def forRounds (r : Evaluators) (n : Name) (body : List Stmt) :
    (left : Nat) → (i : Int) → Eval Outcome
  | 0, _ => return .value .null
  | left + 1, i => do
    let frame ← newFrame (← activeFrame)
    let outcome ← inFrame frame do
      Eval.bind n (.number (Float.ofInt i))
      executeAll r .null body
    match outcome with
    | .broken => return .value .null
    | .returned v => return .returned v
    | _ => forRounds r n body left (i + 1)

/-- The integer that a bound of a range cuts off to. -/
def rangeBound (v : Value) : Eval Int :=
  match v with
  | .number x =>
    match Number.truncate? x with
    | some n => return n
    | none => fail (.rangeBound v.typeName)
  | _ => fail (.rangeBound v.typeName)

def executeFor (r : Evaluators) (n : Name) (a b : Expr) (body : List Stmt) : Eval Outcome := do
  let first ← r.evaluate a
  let stop ← r.evaluate b
  let first ← rangeBound first
  let stop ← rangeBound stop
  forRounds r n body (stop - first).toNat first

/-- The name of a method behind that of its type. -/
def methodName (type method : Name) : Name := .text (type.shown ++ "." ++ method.shown)

def makeMethods (type : Name) (frame : FrameId) (methods : List (Name × Function)) :
    List Stmt → Eval (List (Name × Function))
  | [] => return methods
  | .function n ps body :: rest => do
    requireKey n
    makeMethods type frame
      (Named.put n (.mk ps body (methodName type n) (some frame) false none) methods) rest
  | .stray (.unusable _) :: _ => spoil .wrongType
  | _ :: _ => spoil .notMethod

def executeType (settings : Settings) (r : Evaluators) (n : Name) (fields : List (Name × Expr))
    (methods : List Stmt) : Eval Outcome := do
  let fs ← evaluateFields r [] fields
  let ms ← makeMethods n (← activeFrame) [] methods
  Eval.bind n (.type (.mk n fs ms))
  trace settings (.type n (Named.names fs) (Named.names ms))
  return .value .null

def executeStep (settings : Settings) (r : Evaluators) : Stmt → Eval Outcome
  | .expr e => do return .value (← r.evaluate e)
  | .let_ n e => do
    let v ← r.evaluate e
    Eval.bind n v
    let depth := (← store).depth (← activeFrame)
    trace settings (.let_ n v depth)
    return .value .null
  | .const n e => do
    let v ← r.evaluate e
    Eval.bindConstant n v
    trace settings (.const n v)
    return .value .null
  | .function n ps body => do
    Eval.bind n (.function (.mk ps body n (some (← activeFrame)) false none))
    trace settings (.function n ps)
    return .value .null
  | .return_ none => return .returned .null
  | .return_ (some e) => do return .returned (← r.evaluate e)
  | .if_ c t e => do
    let v ← r.evaluate c
    trace settings (.condition v)
    if v.isTruthy then executeBlock r t
    else match e with
      | some ss => executeBlock r ss
      | none => return .value .null
  | .while_ c body => whileRounds r c body r.rounds
  | .for_ n a b body => executeFor r n a b body
  | .import_ path => do
    trace settings (.import_ path)
    return .value .null
  | .block ss => executeBlock r ss
  | .break_ => return .broken
  | .continue_ => return .continued
  | .print e => do
    printLine (← r.evaluate e).shown
    return .value .null
  | .printAll es => do
    let vs ← evaluateAll r es
    printLine (" ".intercalate (vs.map Value.shown))
    return .value .null
  | .type n fs ms => executeType settings r n fs ms
  | .invalid s => fail (.invalidStatement s)
  | .stray w => spoil (strayStatement w)

mutual

/-- Evaluates an expression within a number of steps. -/
def evaluate (settings : Settings) : (steps : Nat) → Expr → Eval Value
  | 0, _ => throw .outOfSteps
  | steps + 1, e =>
    evaluateStep settings ⟨evaluate settings steps, execute settings steps, steps⟩ e

def execute (settings : Settings) : (steps : Nat) → Stmt → Eval Outcome
  | 0, _ => throw .outOfSteps
  | steps + 1, s =>
    executeStep settings ⟨evaluate settings steps, execute settings steps, steps⟩ s

end

/-- The answer of a statement that stands in no function and no loop. -/
def leaveProgram : Outcome → Eval Value
  | .value v => return v
  | .returned _ => fail .returnOutside
  | .broken => fail .breakOutside
  | .continued => fail .continueOutside

def runStmt (settings : Settings) (steps : Nat) (s : Stmt) : Eval Value := do
  trace settings (.statement s)
  leaveProgram (← onHostStack settings (execute settings steps s))

def runExpr (settings : Settings) (steps : Nat) (e : Expr) : Eval Value :=
  onHostStack settings (evaluate settings steps e)

/-- Runs the statements of a program; the last value is the answer. -/
def runAll (settings : Settings) (steps : Nat) (last : Value) : Program → Eval Value
  | [] => return last
  | s :: rest => do
    let v ← runStmt settings steps s
    runAll settings steps v rest

end Eval

/-- More steps than any run takes that ends. -/
def manySteps : Nat := 1000000000000000

end Scripting
