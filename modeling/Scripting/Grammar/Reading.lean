import Scripting.Grammar.Rules
import Scripting.Syntax

/-!
From derivations to programs. Every alternative of a symbol turns what its symbols stand for into
what the symbol stands for, from the bottom up and from left to right; the first error on the way
is the answer. An engine takes a text apart, and `parseGrammarWith` makes a front end of it, beside the
recursive-descent parser.
-/

namespace Scripting.Grammar

/-- What a part of a derivation stands for. -/
inductive Meaning where
  | leaf (l : Leaf)
  | nothing
  | expr (e : Expr)
  | exprs (es : List Expr)
  | stmt (s : Stmt)
  | stmts (ss : List Stmt)
  | names (ns : List Name)
  | pairs (ps : List (Expr × Expr))
  | fields (fs : List (Name × Expr))
  | members (fs : List (Name × Expr)) (ms : List Stmt)
  | body (ss : List Stmt) (first last : Position)

/-- The text between the quotes of a leaf, escapes undone. -/
def unescaped : List Char → List Char
  | '\\' :: c :: rest => Text.unescape c :: unescaped rest
  | c :: rest => c :: unescaped rest
  | [] => []

def Leaf.value (l : Leaf) : String := String.ofList (unescaped (l.text.drop 1).dropLast)

def Leaf.spelling (l : Leaf) : String := String.ofList l.text

def Leaf.name (l : Leaf) : Name := .text l.spelling

def startOf : List Derivation → Position
  | .leaf l :: _ => l.position
  | .node _ _ children :: _ => startOf children
  | [] => .start

def operatorOf : Mark → Option BinaryOp
  | .or => some .or
  | .and => some .and
  | .eq => some .eq
  | .neq => some .neq
  | .lt => some .lt
  | .le => some .le
  | .gt => some .gt
  | .ge => some .ge
  | .plus => some .add
  | .minus => some .sub
  | .plusPlus => some .concat
  | .star => some .mul
  | .slash => some .div
  | .percent => some .mod
  | .caret => some .pow
  | _ => none

/-- Refuses a function with too many lines between its braces. -/
def checkLength (limit : Option Int) (name : String) (first last : Position) :
    Except SyntaxError Unit :=
  match limit with
  | none => .ok ()
  | some limit =>
    let lines := last.line - first.line
    if limit < lines then .error ⟨.tooLong name limit lines, first⟩ else .ok ()

def withLast : List Stmt → Meaning → List Stmt
  | ss, .expr e => ss ++ [.expr e]
  | ss, _ => ss

def contents : List Meaning → List Stmt
  | .stmts ss :: rest => withLast ss (rest.headD .nothing)
  | m :: _ => withLast [] m
  | [] => []

/-- A body with the positions of its braces. -/
def bodyMeaning : List Meaning → Meaning
  | .leaf first :: rest =>
    match rest.reverse with
    | .leaf last :: inner => .body (contents inner.reverse) first.position last.position
    | _ => .nothing
  | _ => .nothing

/-- Drops the annotations, which have no meaning. -/
def withoutAnnotations (ms : List Meaning) : List Meaning :=
  ms.filter fun m =>
    match m with
    | .nothing => false
    | _ => true

def addMember (fs : List (Name × Expr)) (ms : List Stmt) : Meaning → Meaning
  | .fields new => .members (fs ++ new) ms
  | .stmt m => .members fs (ms ++ [m])
  | _ => .members fs ms

def exprsOf (ms : List Meaning) : List Expr :=
  ms.flatMap fun m =>
    match m with
    | .expr e => [e]
    | .exprs es => es
    | _ => []

def namesOf (ms : List Meaning) : List Name :=
  ms.flatMap fun m =>
    match m with
    | .leaf ⟨.name, cs, _⟩ => [.text (String.ofList cs)]
    | .names ns => ns
    | _ => []

def pairsOf (ms : List Meaning) : List (Expr × Expr) :=
  ms.flatMap fun m =>
    match m with
    | .pairs ps => ps
    | _ => []

def fieldsOf (ms : List Meaning) : List (Name × Expr) :=
  ms.flatMap fun m =>
    match m with
    | .fields fs => fs
    | _ => []

/-- The statement that prints expressions. A single tuple prints its elements. -/
def printing : List Expr → Stmt
  | [.tuple es] => .printAll es
  | [e] => .print e
  | es => .printAll es

def numberMeaning (l : Leaf) : Except SyntaxError Meaning :=
  match Number.numeral? l.text with
  | some x =>
    if x.isInf then .error ⟨.lexical .numberRange, l.position⟩ else .ok (.expr (.number x))
  | none => .error ⟨.lexical (.badNumeral l.spelling), l.position⟩

/-- A record literal, whose type name has to start with a capital. -/
def recordMeaning (l : Leaf) (fs : List (Name × Expr)) : Except SyntaxError Meaning :=
  if (l.text.head?.map Text.isCapital).getD false then .ok (.expr (.record l.name fs))
  else .error ⟨.recordName l.spelling, l.position⟩

def primaryMeaning : List Meaning → Except SyntaxError Meaning
  | [.leaf l] =>
    match l.terminal with
    | .number => numberMeaning l
    | .text => .ok (.expr (.text l.value))
    | .keyword .true_ => .ok (.expr (.bool true))
    | .keyword .false_ => .ok (.expr (.bool false))
    | _ => .ok (.expr (.name l.name))
  | .leaf l :: rest =>
    match l.terminal, rest with
    | .mark .lparen, [.expr e, _] => .ok (.expr e)
    | .mark .lparen, rest => .ok (.expr (.tuple (exprsOf rest)))
    | .mark .lbracket, rest => .ok (.expr (.list (exprsOf rest)))
    | .name, rest => recordMeaning l (fieldsOf rest)
    | _, [_] => .ok (.expr (.dict []))
    | _, .pairs ps :: rest => .ok (.expr (.dict (ps ++ pairsOf rest)))
    | _, rest => .ok (.expr (.block (contents rest.dropLast)))
  | _ => .ok .nothing

def trailedMeaning : List Meaning → Meaning
  | [.expr e, .leaf ⟨.mark .dot, _, _⟩, .leaf n] => .expr (.field e n.name)
  | [.expr e, .leaf ⟨.mark .lbracket, _, _⟩, .expr i, _] => .expr (.index e i)
  | .expr e :: .leaf _ :: rest => .expr (.call e (exprsOf rest))
  | [m] => m
  | _ => .nothing

/-- An operator between two expressions, a sign before one, or a single expression. -/
def operatorMeaning : List Meaning → Meaning
  | [.expr l, .leaf ⟨.mark m, _, _⟩, .expr r] =>
    match operatorOf m with
    | some op => .expr (.binary l op r)
    | none => .nothing
  | [.leaf ⟨.mark .minus, _, _⟩, .expr e] => .expr (.unary .neg e)
  | [.leaf ⟨.mark .bang, _, _⟩, .expr e] => .expr (.unary .not e)
  | [m] => m
  | _ => .nothing

def lambdaBody : Meaning → List Stmt
  | .stmts ss => ss
  | .expr e => [.expr e]
  | _ => []

/-- An `if` statement behind its keyword. -/
def conditionalMeaning : List Meaning → Meaning
  | .expr c :: .body t _ _ :: rest =>
    match rest with
    | [_, .stmt s] => .stmt (.if_ c t (some [s]))
    | [_, .body e _ _] => .stmt (.if_ c t (some e))
    | _ => .stmt (.if_ c t none)
  | _ => .nothing

/-- What a symbol stands for, given what the symbols of its alternative stand for. -/
def meaning (limit : Option Int) (head : Nonterminal) (position : Position) (ms : List Meaning) :
    Except SyntaxError Meaning :=
  match head, withoutAnnotations ms with
  | .start, ms => .ok (.stmts (contents ms))
  | .typeNote, _ => .ok .nothing
  | .letStmt, [_, .leaf n, _, .expr e, _] => .ok (.stmt (.let_ n.name e))
  | .constStmt, [_, .leaf n, _, .expr e, _] => .ok (.stmt (.const n.name e))
  | .params, ms => .ok (.names (namesOf ms))
  | .fnBody, ms => .ok (bodyMeaning ms)
  | .body, ms => .ok (bodyMeaning ms)
  | .fnStmt, [_, .leaf n, .names ps, .body ss first last] => do
    checkLength limit n.spelling first last
    .ok (.stmt (.function n.name ps ss))
  | .returnStmt, [_, .expr e, _] => .ok (.stmt (.return_ (some e)))
  | .returnStmt, _ => .ok (.stmt (.return_ none))
  | .ifStmt, _ :: rest => .ok (conditionalMeaning rest)
  | .whileStmt, [_, .expr c, .body ss _ _] => .ok (.stmt (.while_ c ss))
  | .forStmt, [_, .leaf n, _, .expr a, _, .expr b, .body ss _ _] =>
    .ok (.stmt (.for_ n.name a b ss))
  | .importStmt, [_, .leaf l, _] => .ok (.stmt (.import_ (.text l.value)))
  | .breakStmt, _ => .ok (.stmt .break_)
  | .continueStmt, _ => .ok (.stmt .continue_)
  | .printStmt, ms => .ok (.stmt (printing (exprsOf ms)))
  | .typeStmt, [_, .leaf n, _, .members fs methods, _] => .ok (.stmt (.type n.name fs methods))
  | .typeStmt, [_, .leaf n, _, _] => .ok (.stmt (.type n.name [] []))
  | .fieldDef, [.leaf n, _, .expr e] => .ok (.fields [(n.name, e)])
  | .fieldInit, [.leaf n, _, .expr e] => .ok (.fields [(n.name, e)])
  | .blockStmt, [.body ss _ _] => .ok (.stmt (.block ss))
  | .lambdaBlock, [.body ss first last] => do
    checkLength limit "<lambda>" first last
    .ok (.stmts ss)
  | .exprStmt, [.expr e, _] => .ok (.stmt (.expr e))
  | .expr, [_, .names ps, body] => .ok (.expr (.lambda ps (lambdaBody body)))
  | .assignment, [.expr target, _, .expr value] =>
    match target with
    | .name n => .ok (.expr (.assign n value))
    | _ => .error ⟨.assignTarget, position⟩
  | .trailed, ms => .ok (trailedMeaning ms)
  | .args, ms => .ok (.exprs (exprsOf ms))
  | .primary, ms => primaryMeaning ms
  | .pair, [.expr k, _, .expr v] => .ok (.pairs [(k, v)])
  | .items, [.stmts ss, .stmt s] => .ok (.stmts (ss ++ [s]))
  | .items, [.stmts ss, _] => .ok (.stmts ss)
  | .items, [.stmt s] => .ok (.stmts [s])
  | .items, _ => .ok (.stmts [])
  | .moreNames, ms => .ok (.names (namesOf ms))
  | .moreExprs, ms => .ok (.exprs (exprsOf ms))
  | .morePairs, ms => .ok (.pairs (pairsOf ms))
  | .moreInits, ms => .ok (.fields (fieldsOf ms))
  | .members, [.members fs methods, m] => .ok (addMember fs methods m)
  | .members, [m] => .ok (addMember [] [] m)
  | _, ms => .ok (operatorMeaning ms)

mutual

def Derivation.meaning (limit : Option Int) : Derivation → Except SyntaxError Meaning
  | .leaf l => .ok (.leaf l)
  | .node head _ children => do
    let ms ← meanings limit children
    Grammar.meaning limit head (startOf children) ms

def meanings (limit : Option Int) : List Derivation → Except SyntaxError (List Meaning)
  | [] => .ok []
  | d :: rest => do
    let m ← d.meaning limit
    let ms ← meanings limit rest
    .ok (m :: ms)

end

/-- The names of terminals, sorted and each once. -/
def listing (ts : List Terminal) : List String :=
  ((ts.map Terminal.listed).mergeSort (· ≤ ·)).eraseDups

/-- Why an engine cannot take a text apart. -/
inductive Mishap where
  /-- No rule takes the leaf; these terminals could stand there. -/
  | rejected (leaf : Leaf) (expected : List Terminal)
  /-- A character starts no leaf. -/
  | invalid (c : Char) (position : Position)
  /-- The text ends too soon. -/
  | incomplete

/-- What takes a text apart by the rules: it cuts the text into leaves and answers with one of their
derivations. -/
abbrev Engine := String → Except Mishap Derivation

/-- The error for a text that cannot be taken apart. -/
def Mishap.report (source : String) : Mishap → SyntaxError
  | rejected l expected => ⟨.unacceptable l.spelling (listing expected), l.position⟩
  | invalid c p => ⟨.lexical (.unexpected c), p⟩
  | incomplete => ⟨.incomplete, Position.start.after source.toList⟩

end Scripting.Grammar

namespace Scripting

/-- Parses a text by the grammar. No function may have more than `limit` lines between its braces. -/
def parseGrammarWith (engine : Grammar.Engine) (limit : Option Int) (source : String) :
    Except SyntaxError (List Stmt) :=
  match engine source with
  | .error mishap => .error (mishap.report source)
  | .ok d =>
    match d.meaning limit with
    | .ok (.stmts ss) => .ok ss
    | .ok _ => .error ⟨.outOfSteps, .start⟩
    | .error e => .error e

end Scripting
