import Scripting.Grammar.Chart

/-!
The derivation that a text stands for. Of the divisions of a stretch the one of greatest priority
is taken, then the one whose alternative comes first, then the one found first; the priority of a
derivation is the number of its blocks, weighted.
-/

namespace Scripting.Grammar

/-- A part of a divided stretch. -/
inductive Part where
  | leaf (place : Nat)
  | span (s : Span)

/-- The symbol that a label stands for, the alternative of a division, and its dot. -/
def Label.dotOf (label : Label) (alternative : Nat) : Nonterminal × Nat :=
  match label with
  | .whole n => (n, (bodyOf n alternative).length)
  | .part head _ dot => (head, dot)

/-- What stands before the last symbol of a divided stretch, and that symbol. -/
def partsOf (span : Span) (split : Split) : Option Span × Option Part :=
  let (head, dot) := span.label.dotOf split.alternative
  let left := if dot ≤ 1 then none
    else some ⟨.part head split.alternative (dot - 1), span.first, split.middle⟩
  let right := match (bodyOf head split.alternative)[dot - 1]? with
    | some (.terminal _) => some (.leaf split.middle)
    | some (.rule n) => some (.span ⟨.whole n, split.middle, span.last⟩)
    | none => none
  (left, right)

/-- What a whole symbol adds to the priority of its parts. -/
def Label.weight : Label → Nat
  | .whole n => Grammar.weight n
  | .part _ _ _ => 0

abbrev Known := Std.TreeMap Span Nat

/-- The priority of a stretch: that of its best division. -/
def priority (forest : Forest) : (bound : Nat) → Span → StateM Known Nat
  | 0, _ => pure 0
  | bound + 1, span => do
    match (← get)[span]? with
    | some p => return p
    | none =>
      let p ← (forest.getD span #[]).foldlM (fun best split => do
        let (left, right) := partsOf span split
        let l ← match left with
          | some s => priority forest bound s
          | none => pure 0
        let r ← match right with
          | some (.span s) => priority forest bound s
          | _ => pure 0
        return max best (span.label.weight + l + r)) 0
      modify (·.insert span p)
      return p

def splitPriority (forest : Forest) (bound : Nat) (span : Span) (split : Split) :
    StateM Known Nat := do
  let (left, right) := partsOf span split
  let l ← match left with
    | some s => priority forest bound s
    | none => pure 0
  let r ← match right with
    | some (.span s) => priority forest bound s
    | _ => pure 0
  return span.label.weight + l + r

/-- The better of two divisions with their priorities, the first one if they are equal. -/
def better (a b : Split × Nat) : Split × Nat :=
  if a.2 < b.2 || (a.2 == b.2 && b.1.alternative < a.1.alternative) then b else a

def choose (forest : Forest) (bound : Nat) (span : Span) : StateM Known (Option Split) := do
  match (forest.getD span #[]).toList with
  | [] => return none
  | [split] => return some split
  | split :: rest =>
    let start := (split, ← splitPriority forest bound span split)
    let best ← rest.foldlM (fun best s => do
      return better best (s, ← splitPriority forest bound span s)) start
    return some best.1

mutual

def derive (forest : Forest) (leaves : Array Leaf) (limit : Nat) :
    (bound : Nat) → Span → StateM Known (Nat × List Derivation)
  | 0, _ => pure (0, [])
  | bound + 1, span => do
    match ← choose forest limit span with
    | none => return (0, [])
    | some split =>
      let (left, right) := partsOf span split
      let before ← match left with
        | some s => derive forest leaves limit bound s
        | none => pure (0, [])
      let last ← match right with
        | some p => derivePart forest leaves limit bound p
        | none => pure []
      return (split.alternative, before.2 ++ last)

def derivePart (forest : Forest) (leaves : Array Leaf) (limit : Nat) :
    (bound : Nat) → Part → StateM Known (List Derivation)
  | 0, _ => pure []
  | bound + 1, part =>
    match part with
    | .leaf place => pure (leaves[place]?.toList.map .leaf)
    | .span s => do
      let (alternative, children) ← derive forest leaves limit bound s
      match s.label with
      | .whole n => return [.node n alternative children]
      | .part _ _ _ => return children

end

/-- The derivation of a whole text from the divisions of its stretches. -/
def derivation (forest : Forest) (leaves : Array Leaf) : Derivation :=
  let bound := 2 * forest.size + 2
  let ((alternative, children), _) :=
    (derive forest leaves bound bound ⟨.whole .start, 0, leaves.size⟩).run {}
  .node .start alternative children

/-- The engine that works by the chart. -/
def chart : Engine := fun source => do
  let ls := leaves source
  let forest ← recognize ls
  return derivation forest ls.toList.toArray

end Scripting.Grammar

namespace Scripting

/-- Parses a text by the grammar, with the chart. No function may have more than `limit` lines between
its braces. -/
def parseGrammar (limit : Option Int) (source : String) : Except SyntaxError (List Stmt) :=
  parseGrammarWith Grammar.chart limit source

end Scripting
