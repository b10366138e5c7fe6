import Scripting.Value

/-!
Frames: each binds names, marks some of them constant, and may have a parent. `Store.chain` lists
the frames that are looked through from a frame on, and all questions about names go through it.
-/

namespace Scripting

/-- One scope: its parent, its bindings in the order of their introduction, and which of them are
constant. -/
structure Frame where
  parent : Option FrameId
  bindings : List (Name × Value)
  constants : List Name

structure Store where
  frames : Array Frame

namespace Frame

def empty (parent : Option FrameId) : Frame := ⟨parent, [], []⟩

/-- Binds a name, which is then no constant. -/
def bind (name : Name) (value : Value) (f : Frame) : Frame :=
  ⟨f.parent, Named.put name value f.bindings, f.constants.filter (· != name)⟩

def bindConstant (name : Name) (value : Value) (f : Frame) : Frame :=
  ⟨f.parent, Named.put name value f.bindings,
    if f.constants.contains name then f.constants else f.constants ++ [name]⟩

def update (name : Name) (value : Value) (f : Frame) : Frame :=
  ⟨f.parent, Named.put name value f.bindings, f.constants⟩

/-- Whether a frame binds a name itself. -/
def owns (name : Name) (f : Frame) : Bool := Named.has name f.bindings

end Frame

namespace Store

def root : Store := ⟨#[Frame.empty none]⟩

/-- A frame, which is empty if there is none of that number. -/
def frame (s : Store) (f : FrameId) : Frame := s.frames[f]?.getD (Frame.empty none)

/-- Frames from one to the outermost, at most `bound` of them. -/
def chainFrom (s : Store) : (bound : Nat) → FrameId → List FrameId
  | 0, _ => []
  | bound + 1, f =>
    f :: match (s.frame f).parent with
      | some p => chainFrom s bound p
      | none => []

/-- The frames that are looked through from a frame on. A parent is older than its children, so
the number of a frame bounds the length. -/
def chain (s : Store) (f : FrameId) : List FrameId := chainFrom s (f + 1) f

/-- The nearest frame that binds a name. -/
def owner? (s : Store) (f : FrameId) (name : Name) : Option FrameId :=
  (s.chain f).find? fun g => (s.frame g).owns name

def get? (s : Store) (f : FrameId) (name : Name) : Option Value :=
  (s.owner? f name).bind fun g => (s.frame g).bindings.lookup name

def isDefined (s : Store) (f : FrameId) (name : Name) : Bool := (s.owner? f name).isSome

/-- The number of frames around a frame. -/
def depth (s : Store) (f : FrameId) : Nat := (s.chain f).length - 1

def modify (s : Store) (f : FrameId) (change : Frame → Frame) : Store :=
  ⟨s.frames.modify f change⟩

/-- Adds a frame inside of another one, and gives its number. -/
def child (s : Store) (parent : FrameId) : FrameId × Store :=
  (s.frames.size, ⟨s.frames.push (Frame.empty (some parent))⟩)

def set (s : Store) (f : FrameId) (name : Name) (value : Value) : Store :=
  s.modify f (Frame.bind name value)

def declareConstant (s : Store) (f : FrameId) (name : Name) (value : Value) : Store :=
  s.modify f (Frame.bindConstant name value)

inductive Assigned where
  | done
  | undefined
  | constant
  deriving DecidableEq, Repr

/-- Gives a name another value in the nearest frame that binds it, unless it is a constant there. -/
def assign (s : Store) (f : FrameId) (name : Name) (value : Value) : Assigned × Store :=
  match s.owner? f name with
  | none => (.undefined, s)
  | some g =>
    if (s.frame g).constants.contains name then (.constant, s)
    else (.done, s.modify g (Frame.update name value))

end Store

end Scripting
