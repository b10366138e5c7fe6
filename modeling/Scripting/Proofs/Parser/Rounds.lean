import Scripting.Proofs.Parser.Basic

/-!
The loops of the parser, round by round. Every loop goes through `rounds` of one parser, its round,
which stops with a result or lets the loop go on.
-/

namespace Scripting

namespace Parser

variable {σ α β : Type}

/-- How a round ends: the loop stops with a result, or it goes on in the state `s` and `f` makes its
result of the result of the rest. -/
inductive Round (σ α : Type) where
  | stop (a : α)
  | again (s : σ) (f : α → α)

namespace Round

/-- What a loop does behind a round, where `rest` is the loop. -/
def go (rest : σ → Parser α) : Round σ α → Parser α
  | stop a => return a
  | again s f => return f (← rest s)

def goesOn : Round σ α → Bool
  | stop _ => false
  | again _ _ => true

end Round

/-- One round after the other, at most `bound` of them. -/
def rounds (round : σ → Parser (Round σ α)) : (bound : Nat) → σ → Parser α
  | 0, _ => exhausted
  | bound + 1, s => round s >>= Round.go (rounds round bound)

/-! ### The rounds -/

def paramRound : Parser (Round Unit (List Name)) := do
  if ← atMark .rparen then return .stop []
  let p ← expectName .parameterName
  if ← accept .comma then return .again () (.text p :: ·)
  if ← atMark .rparen then return .stop [.text p]
  refuse .commaOrParen

/-- A semicolon or a statement. -/
def statementRound (r : Sorts) : Parser (Round Unit (List Stmt)) := do
  match ← lookKind with
  | none => return .stop []
  | some (.mark .rbrace) => return .stop []
  | some (.mark .semicolon) =>
    advance
    return .again () id
  | some _ =>
    let s ← r.statement
    return .again () (s :: ·)

/-- The same at the top of a program, where no brace ends the statements. -/
def programRound (r : Sorts) : Parser (Round Unit Program) := do
  match ← lookKind with
  | none => return .stop []
  | some (.mark .semicolon) =>
    advance
    return .again () id
  | some _ =>
    let s ← r.statement
    return .again () (s :: ·)

/-- A comma, a semicolon, a method or a field. -/
def memberRound (r : Sorts) (type : String) :
    Parser (Round Unit (List (Name × Expr) × List Stmt)) := do
  match ← lookKind with
  | some (.mark .rbrace) => return .stop ([], [])
  | some (.mark .comma) | some (.mark .semicolon) =>
    advance
    return .again () id
  | some (.keyword .fn) =>
    let m ← function r
    return .again () fun x => (x.1, m :: x.2)
  | some (.name n) =>
    advance
    let _ ← expect .colon
    let e ← r.expression true
    return .again () fun x => ((.text n, e) :: x.1, x.2)
  | _ => refuse (.typeMember type)

def expressionRound (r : Sorts) (closing : Mark) : Parser (Round Unit (List Expr)) := do
  if ← atMark closing then return .stop []
  let e ← r.expression true
  if ← accept .comma then return .again () (e :: ·)
  return .stop [e]

def fieldRound (r : Sorts) : Parser (Round Unit (List (Name × Expr))) := do
  if ← atMark .rbrace then return .stop []
  let n ← expectName .fieldName
  let _ ← expect .colon
  let e ← r.expression true
  if ← accept .comma then return .again () ((.text n, e) :: ·)
  return .stop [(.text n, e)]

def commaExpressionRound (r : Sorts) : Parser (Round Unit (List Expr)) := do
  if ← accept .comma then
    let e ← r.expression true
    return .again () (e :: ·)
  return .stop []

def commaPairRound (r : Sorts) : Parser (Round Unit (List (Expr × Expr))) := do
  if ← accept .comma then
    if ← atMark .rbrace then return .stop []
    let k ← r.expression true
    let _ ← expect .colon
    let v ← r.expression true
    return .again () ((k, v) :: ·)
  return .stop []

/-- A call, a field access or an indexing behind `e`. -/
def trailerRound (r : Sorts) (e : Expr) : Parser (Round Expr Expr) := do
  match ← lookKind with
  | some (.mark .lparen) =>
    advance
    let args ← expressions r .rparen r.bound
    let _ ← expect .rparen
    return .again (.call e args) id
  | some (.mark .dot) =>
    advance
    let n ← expectName .memberName
    return .again (.field e (.text n)) id
  | some (.mark .lbracket) =>
    advance
    let i ← r.expression true
    let _ ← expect .rbracket
    return .again (.index e i) id
  | _ => return .stop e

def chainRound (op? : Mark → Option BinaryOp) (operand : Parser Expr) (e : Expr) :
    Parser (Round Expr Expr) := do
  match ← lookKind with
  | some (.mark m) =>
    match op? m with
    | some op =>
      advance
      let e' ← operand
      return .again (.binary e op e') id
    | none => return .stop e
  | _ => return .stop e

/-- A sign, or what the signs stand in front of. -/
def signRound (r : Sorts) (records : Bool) : Parser (Round Unit Expr) := do
  if ← accept .minus then return .again () (.unary .neg)
  if ← accept .bang then return .again () (.unary .not)
  let e ← trailed r records
  return .stop e

/-- A base and the sign of a power, or the last exponent. -/
def powerRound (r : Sorts) (records : Bool) : Parser (Round Unit Expr) := do
  let e ← signed r records r.bound
  if ← accept .caret then return .again () (.binary e .pow)
  return .stop e

/-! ### The loops are made of rounds -/

/-- A loop is made of the rounds that it unfolds to. -/
theorem eq_rounds (loop : Nat → σ → Parser α) {round : σ → Parser (Round σ α)}
    (hzero : ∀ s, loop 0 s = exhausted)
    (hsucc : ∀ b s, loop (b + 1) s = round s >>= Round.go (loop b)) (b : Nat) (s : σ) :
    loop b s = rounds round b s := by
  induction b generalizing s with
  | zero => exact hzero s
  | succ b ih => rw [hsucc, rounds, funext ih]

theorem ite_bind {c : Bool} {p q : Parser α} {f : α → Parser β} :
    (if c then p else q) >>= f = if c then p >>= f else q >>= f := by
  cases c <;> rfl

theorem refuse_bind (w : Wanted) (f : α → Parser β) : refuse w >>= f = refuse w := by
  funext S
  cases S <;> rfl

theorem paramsRest_eq (b : Nat) : paramsRest b = rounds (fun _ => paramRound) b () := by
  refine eq_rounds (fun b _ => paramsRest b) (fun _ => rfl) (fun b _ => ?_) b ()
  simp only [paramsRest, paramRound, bind_assoc, ite_bind, pure_bind, refuse_bind, Round.go]

section Sorts

variable (r : Sorts)

theorem statements_eq (b : Nat) : statements r b = rounds (fun _ => statementRound r) b () := by
  refine eq_rounds (fun b _ => statements r b) (fun _ => rfl) (fun b _ => ?_) b ()
  rw [statements, statementRound, bind_assoc]
  refine bind_congr fun k => ?_
  split <;> simp [Round.go]

theorem program_eq (b : Nat) : program r b = rounds (fun _ => programRound r) b () := by
  refine eq_rounds (fun b _ => program r b) (fun _ => rfl) (fun b _ => ?_) b ()
  rw [program, programRound, bind_assoc]
  refine bind_congr fun k => ?_
  split <;> simp [Round.go]

theorem typeMembers_eq (type : String) (b : Nat) :
    typeMembers r type b = rounds (fun _ => memberRound r type) b () := by
  refine eq_rounds (fun b _ => typeMembers r type b) (fun _ => rfl) (fun b _ => ?_) b ()
  rw [typeMembers, memberRound, bind_assoc]
  refine bind_congr fun k => ?_
  split <;> simp [Round.go, refuse_bind]

theorem expressions_eq (closing : Mark) (b : Nat) :
    expressions r closing b = rounds (fun _ => expressionRound r closing) b () := by
  refine eq_rounds (fun b _ => expressions r closing b) (fun _ => rfl) (fun b _ => ?_) b ()
  simp only [expressions, expressionRound, bind_assoc, ite_bind, pure_bind, Round.go]

theorem recordFields_eq (b : Nat) : recordFields r b = rounds (fun _ => fieldRound r) b () := by
  refine eq_rounds (fun b _ => recordFields r b) (fun _ => rfl) (fun b _ => ?_) b ()
  simp only [recordFields, fieldRound, bind_assoc, ite_bind, pure_bind, Round.go]

theorem commaExpressions_eq (b : Nat) :
    commaExpressions r b = rounds (fun _ => commaExpressionRound r) b () := by
  refine eq_rounds (fun b _ => commaExpressions r b) (fun _ => rfl) (fun b _ => ?_) b ()
  simp only [commaExpressions, commaExpressionRound, bind_assoc, ite_bind, pure_bind, Round.go]

theorem commaPairs_eq (b : Nat) : commaPairs r b = rounds (fun _ => commaPairRound r) b () := by
  refine eq_rounds (fun b _ => commaPairs r b) (fun _ => rfl) (fun b _ => ?_) b ()
  simp only [commaPairs, commaPairRound, bind_assoc, ite_bind, pure_bind, Round.go]

theorem trailers_eq (b : Nat) (e : Expr) : trailers r b e = rounds (trailerRound r) b e := by
  refine eq_rounds (trailers r) (fun _ => rfl) (fun b e => ?_) b e
  rw [trailers, trailerRound, bind_assoc]
  refine bind_congr fun k => ?_
  split <;> simp [Round.go]

/-- A chain is its rounds one after the other. -/
theorem chain_eq (op? : Mark → Option BinaryOp) (operand : Parser Expr) (b : Nat) (e : Expr) :
    chain op? operand b e = rounds (chainRound op? operand) b e := by
  refine eq_rounds (chain op? operand) (fun _ => rfl) (fun b e => ?_) b e
  rw [chain, chainRound, bind_assoc]
  refine bind_congr fun k => ?_
  cases k with
  | none => rfl
  | some k =>
    cases k with
    | mark m =>
      dsimp only
      generalize op? m = op
      cases op with
      | none => rfl
      | some op => simp [Round.go]
    | _ => rfl

theorem signed_eq (records : Bool) (b : Nat) :
    signed r records b = rounds (fun _ => signRound r records) b () := by
  refine eq_rounds (fun b _ => signed r records b) (fun _ => rfl) (fun b _ => ?_) b ()
  simp only [signed, signRound, bind_assoc, ite_bind, pure_bind, bind_pure, Round.go]

theorem power_eq (records : Bool) (b : Nat) :
    power r records b = rounds (fun _ => powerRound r records) b () := by
  refine eq_rounds (fun b _ => power r records b) (fun _ => rfl) (fun b _ => ?_) b ()
  simp only [power, powerRound, bind_assoc, ite_bind, pure_bind, Round.go]

end Sorts

end Parser

end Scripting
