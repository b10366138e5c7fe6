import Scripting.Grammar.Terminal

/-!
The rules of the grammar. Simple statements end with a semicolon, except for an expression that
ends a body or the program; the body of a function literal reaches as far right as it can. The
grammar is ambiguous where a brace can open a block or an expression; priorities settle that, and
after them the order of the alternatives.
-/

namespace Scripting.Grammar

/-- The symbols that rules define. The last ones stand for repetitions. -/
inductive Nonterminal where
  | start | item | statement | letStmt | constStmt | typeNote | fnStmt | fnBody | params
  | returnStmt | ifStmt | whileStmt | forStmt | importStmt | breakStmt | continueStmt | printStmt
  | typeStmt | fieldDef | blockStmt | exprStmt | body | expr | assignment | orExpr | andExpr
  | equality | comparison | sum | product | power | unary | trailed | args | primary | lambdaBlock
  | pair | fieldInit | items | moreNames | moreExprs | morePairs | moreInits | members
  deriving DecidableEq, Ord, Repr

inductive Symbol where
  | terminal (t : Terminal)
  | rule (n : Nonterminal)
  deriving DecidableEq, Repr

def word (k : Keyword) : Symbol := .terminal (.keyword k)

def sign (m : Mark) : Symbol := .terminal (.mark m)

def aName : Symbol := .terminal .name

def aText : Symbol := .terminal .text

/-- Braces around items and a last expression, each of which may be missing. -/
def bracedAlternatives : List (List Symbol) :=
  [[sign .lbrace, .rule .items, .rule .expr, sign .rbrace],
    [sign .lbrace, .rule .items, sign .rbrace],
    [sign .lbrace, .rule .expr, sign .rbrace],
    [sign .lbrace, sign .rbrace]]

/-- An optional list between an opening and a closing part: a first element, further ones, and a
last comma. -/
def listAlternatives (opening : List Symbol) (element more : Symbol) (closing : Symbol) :
    List (List Symbol) :=
  [opening ++ [element, more, sign .comma, closing],
    opening ++ [element, more, closing],
    opening ++ [element, sign .comma, closing],
    opening ++ [element, closing],
    opening ++ [closing]]

def repeated (n : Nonterminal) (alternatives : List (List Symbol)) : List (List Symbol) :=
  alternatives ++ alternatives.map (.rule n :: ·)

/-- An operator between two levels, the left one being the level itself. -/
def leftAssociative (n operand : Nonterminal) (marks : List Mark) : List (List Symbol) :=
  marks.map (fun m => [.rule n, sign m, .rule operand]) ++ [[.rule operand]]

/-- The alternatives of a symbol, preferred ones first. -/
def alternatives : Nonterminal → List (List Symbol)
  | .start => [[.rule .items, .rule .expr], [.rule .items], [.rule .expr], []]
  | .item => [[.rule .statement], [sign .semicolon]]
  | .statement =>
    [[.rule .letStmt], [.rule .constStmt], [.rule .fnStmt], [.rule .returnStmt], [.rule .ifStmt],
      [.rule .whileStmt], [.rule .forStmt], [.rule .importStmt], [.rule .breakStmt],
      [.rule .continueStmt], [.rule .printStmt], [.rule .typeStmt], [.rule .blockStmt],
      [.rule .exprStmt]]
  | .letStmt =>
    [[word .let_, aName, .rule .typeNote, sign .assign, .rule .expr, sign .semicolon],
      [word .let_, aName, sign .assign, .rule .expr, sign .semicolon]]
  | .constStmt =>
    [[word .const, aName, .rule .typeNote, sign .assign, .rule .expr, sign .semicolon],
      [word .const, aName, sign .assign, .rule .expr, sign .semicolon]]
  | .typeNote => [[sign .colon, aName], [sign .colon]]
  | .fnStmt =>
    [[word .fn, aName, .rule .params, .rule .typeNote, .rule .fnBody],
      [word .fn, aName, .rule .params, .rule .fnBody]]
  | .fnBody => bracedAlternatives
  | .params => listAlternatives [sign .lparen] aName (.rule .moreNames) (sign .rparen)
  | .returnStmt =>
    [[word .return_, .rule .expr, sign .semicolon], [word .return_, sign .semicolon]]
  | .ifStmt =>
    [[word .if_, .rule .expr, .rule .body, word .else_, .rule .ifStmt],
      [word .if_, .rule .expr, .rule .body, word .else_, .rule .body],
      [word .if_, .rule .expr, .rule .body]]
  | .whileStmt => [[word .while_, .rule .expr, .rule .body]]
  | .forStmt =>
    [[word .for_, aName, word .in_, .rule .expr, sign .dots, .rule .expr, .rule .body]]
  | .importStmt => [[word .import_, aText, sign .semicolon]]
  | .breakStmt => [[word .break_, sign .semicolon]]
  | .continueStmt => [[word .continue_, sign .semicolon]]
  | .printStmt =>
    [[word .print, .rule .expr, .rule .moreExprs, sign .semicolon],
      [word .print, .rule .expr, sign .semicolon]]
  | .typeStmt =>
    [[word .type, aName, sign .lbrace, .rule .members, sign .rbrace],
      [word .type, aName, sign .lbrace, sign .rbrace]]
  | .fieldDef => [[aName, sign .colon, .rule .expr]]
  | .blockStmt => [[.rule .body]]
  | .exprStmt => [[.rule .expr, sign .semicolon]]
  | .body => bracedAlternatives
  | .expr =>
    [[.rule .assignment],
      [word .fn, .rule .params, .rule .typeNote, .rule .lambdaBlock],
      [word .fn, .rule .params, .rule .typeNote, .rule .expr],
      [word .fn, .rule .params, .rule .lambdaBlock],
      [word .fn, .rule .params, .rule .expr]]
  | .assignment => [[.rule .trailed, sign .assign, .rule .expr], [.rule .orExpr]]
  | .orExpr => leftAssociative .orExpr .andExpr [.or]
  | .andExpr => leftAssociative .andExpr .equality [.and]
  | .equality => leftAssociative .equality .comparison [.eq, .neq]
  | .comparison => leftAssociative .comparison .sum [.lt, .le, .gt, .ge]
  | .sum => leftAssociative .sum .product [.plus, .minus, .plusPlus]
  | .product => leftAssociative .product .power [.star, .slash, .percent]
  | .power => [[.rule .unary, sign .caret, .rule .power], [.rule .unary]]
  | .unary => [[sign .minus, .rule .unary], [sign .bang, .rule .unary], [.rule .trailed]]
  | .trailed =>
    [[.rule .trailed, sign .lparen, .rule .args, sign .rparen],
      [.rule .trailed, sign .lparen, sign .rparen],
      [.rule .trailed, sign .dot, aName],
      [.rule .trailed, sign .lbracket, .rule .expr, sign .rbracket],
      [.rule .primary]]
  | .args =>
    [[.rule .expr, .rule .moreExprs, sign .comma], [.rule .expr, .rule .moreExprs],
      [.rule .expr, sign .comma], [.rule .expr]]
  | .primary =>
    [[.terminal .number], [aText], [word .true_], [word .false_], [aName],
      [sign .lparen, .rule .expr, sign .rparen],
      [sign .lparen, .rule .expr, .rule .moreExprs, sign .rparen],
      [sign .lbracket, .rule .args, sign .rbracket],
      [sign .lbracket, sign .rbracket]]
    ++ listAlternatives [sign .lbrace] (.rule .pair) (.rule .morePairs) (sign .rbrace)
    ++ listAlternatives [aName, sign .lbrace] (.rule .fieldInit) (.rule .moreInits) (sign .rbrace)
    ++ [[sign .lbrace, .rule .items, .rule .expr, sign .rbrace],
      [sign .lbrace, .rule .items, sign .rbrace],
      [sign .lbrace, .rule .expr, sign .rbrace]]
  | .lambdaBlock => [[.rule .body]]
  | .pair => [[.rule .expr, sign .colon, .rule .expr]]
  | .fieldInit => [[aName, sign .colon, .rule .expr]]
  | .items => repeated .items [[.rule .item]]
  | .moreNames => repeated .moreNames [[sign .comma, aName]]
  | .moreExprs => repeated .moreExprs [[sign .comma, .rule .expr]]
  | .morePairs => repeated .morePairs [[sign .comma, .rule .pair]]
  | .moreInits => repeated .moreInits [[sign .comma, .rule .fieldInit]]
  | .members =>
    repeated .members [[.rule .fieldDef], [.rule .fnStmt], [sign .comma], [sign .semicolon]]

/-- What a symbol adds to the priority of a tree: blocks are preferred. -/
def weight : Nonterminal → Nat
  | .blockStmt | .lambdaBlock => 2
  | _ => 0

def bodyOf (n : Nonterminal) (alternative : Nat) : List Symbol :=
  (alternatives n)[alternative]?.getD []

/-- A derivation: a leaf, or an alternative of a symbol with derivations of its symbols. -/
inductive Derivation where
  | leaf (l : Leaf)
  | node (head : Nonterminal) (alternative : Nat) (children : List Derivation)

end Scripting.Grammar
