import Scripting.Syntax.Kind
import Scripting.Syntax.Operator

/-!
Trees are programs as storage holds them: nodes of known kinds whose members may still hold
anything. `Tree.same` compares two trees; numbers are compared by value.
-/

namespace Scripting

inductive Tree where
  | null
  | bool (b : Bool)
  | int (n : Int)
  | float (x : Float)
  | text (s : String)
  | binaryOp (op : BinaryOp)
  | unaryOp (op : UnaryOp)
  | list (items : List Tree)
  | pair (first second : Tree)
  | node (kind : NodeKind) (members : List Tree)

namespace Tree

/-- Whether two number literals agree. -/
def sameFloat (x y : Float) : Bool := x == y || (x.isNaN && y.isNaN)

mutual

def same : Tree → Tree → Bool
  | null, null => true
  | bool a, bool b => a == b
  | int a, int b => a == b
  | float a, float b => sameFloat a b
  | text a, text b => a == b
  | binaryOp a, binaryOp b => a == b
  | unaryOp a, unaryOp b => a == b
  | list as, list bs => sameAll as bs
  | pair a b, pair c d => same a c && same b d
  | node k as, node l bs => k == l && sameAll as bs
  | _, _ => false

def sameAll : List Tree → List Tree → Bool
  | [], [] => true
  | a :: as, b :: bs => same a b && sameAll as bs
  | _, _ => false

end

end Tree

end Scripting
