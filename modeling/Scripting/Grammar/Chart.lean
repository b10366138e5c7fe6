import Scripting.Grammar.Reading
import Std.Data.TreeMap
import Std.Data.TreeSet

/-!
Recognition by a chart. A text is cut into leaves from its front on. A column holds the rules that are under way at a place of the text, each
with a dot behind the part that has been found and the place where it began. A column is worked off
as a stack: an unfinished rule brings in the rules of the symbol behind its dot, a finished one
moves the dots that waited for it. Every way to divide a stretch of the text is recorded in the
order of its discovery; `recognize` answers with these divisions, or with the first leaf that no
rule takes and the terminals that one could take instead.
-/

namespace Scripting.Grammar

/-- The leaves of a text, up to its end or to a character that starts none. -/
inductive Leaves where
  | leaf (l : Leaf) (rest : Leaves)
  | finish (position : Position)
  | invalid (c : Char) (position : Position)

/-- The leaves of the text that starts at a position. Each takes a character. -/
def leavesFrom : (bound : Nat) → Position → List Char → Leaves
  | 0, p, _ => .finish p
  | bound + 1, p, cs =>
    let gap := gapLength false cs
    let p := p.after (cs.take gap)
    let cs := cs.drop gap
    match cs with
    | [] => .finish p
    | c :: _ =>
      match leafAt? cs with
      | none => .invalid c p
      | some (t, n) => .leaf ⟨t, cs.take n, p⟩ (leavesFrom bound (p.after (cs.take n)) (cs.drop n))

def leaves (s : String) : Leaves := leavesFrom (s.toList.length + 1) .start s.toList

def Leaves.toList : Leaves → List Leaf
  | .leaf l rest => l :: rest.toList
  | _ => []

/-- The symbols that the alternatives of a symbol start with. -/
def firstRules (n : Nonterminal) : List Nonterminal :=
  (alternatives n).filterMap fun symbols =>
    match symbols with
    | .rule m :: _ => some m
    | _ => none

/-- Extends a list of symbols, breadth first, by those that their alternatives start with. -/
def reachFrom : (bound : Nat) → (found pending : List Nonterminal) → List Nonterminal
  | 0, found, _ => found
  | _ + 1, found, [] => found
  | bound + 1, found, n :: pending =>
    let new := (firstRules n).foldl (fun new m =>
      if found.contains m || new.contains m then new else new ++ [m]) []
    reachFrom bound (found ++ new) (pending ++ new)

/-- The symbols that can stand at the front of a symbol, nearest first. -/
def reach (n : Nonterminal) : List Nonterminal := reachFrom 64 [n] [n]

/-- A rule under way: the dot has passed some symbols of an alternative since `origin`. -/
structure Item where
  head : Nonterminal
  alternative : Nat
  dot : Nat
  origin : Nat
  deriving DecidableEq, Repr

/-- What a stretch of text is: a whole symbol, or the part of a rule before its dot. -/
inductive Label where
  | whole (n : Nonterminal)
  | part (head : Nonterminal) (alternative dot : Nat)
  deriving DecidableEq, Ord, Repr

/-- A stretch of text with what it is. -/
structure Span where
  label : Label
  first : Nat
  last : Nat
  deriving DecidableEq, Ord, Repr

/-- A way to divide a stretch: the alternative, and where its last symbol begins. -/
structure Split where
  alternative : Nat
  middle : Nat
  deriving DecidableEq, Repr

/-- All divisions found, in the order of discovery. -/
abbrev Forest := Std.TreeMap Span (Array Split)

namespace Item

/-- The symbol behind the dot; none when the rule is finished. -/
def next? (i : Item) : Option Symbol := (bodyOf i.head i.alternative)[i.dot]?

def advance (i : Item) : Item := { i with dot := i.dot + 1 }

def label (i : Item) : Label :=
  if i.next?.isNone then .whole i.head else .part i.head i.alternative i.dot

end Item

/-- What tells the items of a column apart. -/
structure Key where
  label : Label
  origin : Nat
  deriving DecidableEq, Ord, Repr

/-- The rules under way at one place: those that wait for a symbol or are finished, and those that
wait for a leaf, each in the order of discovery. -/
structure Column where
  waiting : Array Item := #[]
  scanning : Array Item := #[]
  seen : Std.TreeSet Key := {}

/-- A column under construction, with the items still to be worked off, latest first. -/
structure Stage where
  column : Column := {}
  agenda : List Item := []
  forest : Forest := {}

namespace Stage

def put : Stage → Item → Stage
  | ⟨⟨waiting, scanning, seen⟩, agenda, forest⟩, i =>
    let key : Key := ⟨i.label, i.origin⟩
    if seen.contains key then ⟨⟨waiting, scanning, seen⟩, agenda, forest⟩
    else match i.next? with
      | some (.terminal _) => ⟨⟨waiting, scanning.push i, seen.insert key⟩, agenda, forest⟩
      | _ => ⟨⟨waiting.push i, scanning, seen.insert key⟩, i :: agenda, forest⟩

def record : Stage → Span → Split → Stage
  | ⟨column, agenda, forest⟩, span, split =>
    if (forest.getD span #[]).contains split then ⟨column, agenda, forest⟩
    else ⟨column, agenda, forest.insert span ((forest.getD span #[]).push split)⟩

/-- Moves the dot of an item over a symbol that reaches from `middle` to `here`. -/
def move (here middle : Nat) (s : Stage) (i : Item) : Stage :=
  let moved := i.advance
  (s.record ⟨moved.label, i.origin, here⟩ ⟨i.alternative, middle⟩).put moved

def predict (here : Nat) (s : Stage) (n : Nonterminal) : Stage :=
  (reach n).foldl (fun s m =>
    (List.range (alternatives m).length).foldl (fun s k => s.put ⟨m, k, 0, here⟩) s) s

def step (before : Array Column) (here : Nat) (s : Stage) (i : Item) : Stage :=
  match i.next? with
  | some (.rule n) => predict here s n
  | some (.terminal _) => s
  | none =>
    let s :=
      if i.dot == 0 then s.record ⟨.whole i.head, i.origin, here⟩ ⟨i.alternative, here⟩ else s
    let column := before[i.origin]?.getD s.column
    column.waiting.foldl (fun s o =>
      if o.next? = some (.rule i.head) then move here i.origin s o else s) s

def close (before : Array Column) (here : Nat) : (bound : Nat) → Stage → Stage
  | 0, s => s
  | bound + 1, s =>
    match s.agenda with
    | [] => s
    | i :: rest => close before here bound (step before here { s with agenda := rest } i)

/-- The next column, when the leaf at `here` is a terminal. -/
def scan (here : Nat) (column : Column) (forest : Forest) (t : Terminal) : Stage :=
  column.scanning.foldl (fun next i =>
    if i.next? = some (.terminal t) then move (here + 1) here next i else next) ⟨{}, [], forest⟩

end Stage

/-- The number of items that a column can hold for each place where they begin. -/
def itemBound : Nat := 1000

def Column.expected (c : Column) : List Terminal :=
  c.scanning.toList.filterMap fun i =>
    match i.next? with
    | some (.terminal t) => some t
    | _ => none

/-- Recognizes leaves, given the columns before them and the one at their front. -/
def recognizeFrom (before : Array Column) (here : Nat) (s : Stage) :
    Leaves → Except Mishap Forest
  | .invalid c p => .error (.invalid c p)
  | .finish _ =>
    let s := s.close before here (itemBound * (here + 1))
    if s.column.seen.contains ⟨.whole .start, 0⟩ then .ok s.forest else .error .incomplete
  | .leaf l rest =>
    let ⟨column, _, forest⟩ := s.close before here (itemBound * (here + 1))
    let next := Stage.scan here column forest l.terminal
    if next.column.waiting.isEmpty && next.column.scanning.isEmpty then
      .error (.rejected l column.expected)
    else recognizeFrom (before.push column) (here + 1) next rest

def recognize (ls : Leaves) : Except Mishap Forest :=
  recognizeFrom #[] 0 (Stage.predict 0 {} .start) ls

end Scripting.Grammar
