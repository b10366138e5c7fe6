import Scripting.Lexer

/-!
Syntax errors: a cause and a position. Each cause belongs to one of three kinds, of which an
unfinished input is one, and has one wording.
-/

namespace Scripting

inductive Wanted where
  | token (class_ : TokenClass)
  | variableName
  | constantName
  | parameterName
  | functionName
  | loopVariable
  | typeName
  | fieldName
  | memberName
  | commaOrParen
  | expression
  | typeMember (type : String)
  deriving DecidableEq, Repr

def Wanted.describe : Wanted → String
  | token c => c.describe
  | variableName => "a variable name"
  | constantName => "a constant name"
  | parameterName => "a parameter name"
  | functionName => "a function name"
  | loopVariable => "a loop variable"
  | typeName => "a type name"
  | fieldName => "a field name"
  | memberName => "a field or method name"
  | commaOrParen => "',' or ')'"
  | expression => "an expression"
  | typeMember type => "a field or method in type " ++ ticked type

/-- Why a text is no program. -/
inductive SyntaxFault where
  /-- A part of the text is no token. -/
  | lexical (fault : LexFault)
  /-- Another token stands where something is asked for. -/
  | mismatch (wanted : Wanted) (found : Token.Kind)
  /-- The input ends where something is asked for. -/
  | unfinished (wanted : Wanted)
  | reserved (word : Keyword)
  | assignTarget
  | tooLong (name : String) (limit : Int) (lines : Nat)
  /-- A token that no rule of the grammar takes, with the names of the terminals that one does. -/
  | unacceptable (text : String) (expected : List String)
  /-- The input ends before a rule of the grammar is complete. -/
  | incomplete
  | recordName (name : String)
  /-- The bound on the number of steps was too small. -/
  | outOfSteps

inductive SyntaxFault.Kind where
  | unexpectedToken
  | unexpectedEnd
  | custom
  deriving DecidableEq, Repr

namespace SyntaxFault

def kind : SyntaxFault → Kind
  | mismatch _ _ | unacceptable _ _ => .unexpectedToken
  | unfinished _ | incomplete => .unexpectedEnd
  | lexical _ | reserved _ | assignTarget | tooLong _ _ _ | recordName _ | outOfSteps => .custom

def message : SyntaxFault → String
  | lexical f => f.message
  | mismatch w found => "expected " ++ w.describe ++ ", found " ++ found.describe
  | unfinished w => "expected " ++ w.describe ++ ", found " ++ TokenClass.finish.describe
  | reserved k => ticked k.text ++ " is not supported yet"
  | assignTarget => "invalid assignment target"
  | tooLong name limit lines =>
    "function " ++ ticked name ++ " exceeds " ++ toString limit ++ " lines (" ++ toString lines
      ++ " lines)"
  | unacceptable text expected =>
    "unexpected " ++ ticked text ++ " (expected one of: " ++ ", ".intercalate expected ++ ")"
  | incomplete => "unexpected end of input"
  | recordName name =>
    "record literal needs a type name starting with an upper-case letter, got " ++ ticked name
  | outOfSteps => "too many steps"

end SyntaxFault

structure SyntaxError where
  fault : SyntaxFault
  position : Position

def SyntaxError.text (e : SyntaxError) : String :=
  "ParseError at " ++ e.position.text ++ ": " ++ e.fault.message

end Scripting
