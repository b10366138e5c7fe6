import Scripting.Proofs.Eval.Evolution

/-!
The form of the frames in a session. A frame is made inside of one that is there already, so parents are
older than their children, and every search outward ends in the outermost frame. A function of the
program refers to the frame in which it was made.
-/

namespace Scripting

namespace Named

variable {κ α : Type} [BEq κ] [LawfulBEq κ]

theorem has_put_self (name : κ) (value : α) (xs : List (κ × α)) :
    has name (put name value xs) = true := by
  rw [has, lookup_put_self]
  rfl

theorem has_put {name other : κ} {xs : List (κ × α)} (h : has other xs = true) (value : α) :
    has other (put name value xs) = true := by
  by_cases heq : other = name
  · subst heq
    exact has_put_self other value xs
  · rw [has, lookup_put_of_ne heq]
    exact h

theorem mem_names {name : κ} {xs : List (κ × α)} (h : has name xs = true) : name ∈ names xs := by
  rw [← contains_names] at h
  exact List.contains_iff_mem.mp h

end Named

/-- The outermost frame is there and has no parent, every other frame has an older parent, and
constants are bound. -/
structure Store.Shaped (s : Store) : Prop where
  outermost : globals < s.frames.size
  root : (s.frame globals).parent = none
  older : ∀ f < s.frames.size, f ≠ globals → ∃ p < f, (s.frame f).parent = some p
  constants : ∀ f, ∀ c ∈ (s.frame f).constants, (s.frame f).owns c = true

/-- A new value does not take a name away, and a constant is bound when it is marked. -/
theorem Frame.Change.owns {v : Value} {change : Frame → Frame} (h : Frame.Change v change) {f : Frame}
    (hf : ∀ c ∈ f.constants, f.owns c = true) :
    ∀ c ∈ (change f).constants, (change f).owns c = true := by
  intro c hc
  cases h with
  | bind n => exact Named.has_put (hf c (List.mem_filter.mp hc).1) v
  | bindConstant n =>
    unfold Frame.bindConstant at hc
    dsimp only at hc
    split at hc
    · exact Named.has_put (hf c hc) v
    · rcases List.mem_append.mp hc with hc | hc
      · exact Named.has_put (hf c hc) v
      · obtain rfl := List.mem_singleton.mp hc
        exact Named.has_put_self c v f.bindings
  | update n => exact Named.has_put (hf c hc) v

namespace Store

variable {s s' : Store}

/-- A new frame has an older parent. -/
theorem Shaped.child (h : s.Shaped) {parent : FrameId} (hparent : parent < s.frames.size) :
    (s.child parent).2.Shaped := by
  refine ⟨?_, ?_, fun f hf hne => ?_, fun f c hc => ?_⟩
  · rw [size_child]
    exact Nat.lt_succ_of_lt h.outermost
  · rw [s.frame_child_of_ne parent (Nat.ne_of_lt h.outermost)]
    exact h.root
  · rw [size_child] at hf
    by_cases heq : f = s.frames.size
    · subst heq
      exact ⟨parent, hparent, congrArg Frame.parent (s.frame_child_self parent)⟩
    · rw [s.frame_child_of_ne parent heq]
      exact h.older f (by omega) hne
  · rcases s.frame_child parent f with heq | heq
    · rw [heq] at hc ⊢
      exact h.constants f c hc
    · rw [heq] at hc
      cases hc

/-- Values do not change the shape of a store. -/
theorem Shaped.modify (h : s.Shaped) (f : FrameId) {v : Value} {change : Frame → Frame}
    (hchange : Frame.Change v change) : (s.modify f change).Shaped := by
  have hparent : ∀ g, ((s.modify f change).frame g).parent = (s.frame g).parent := by
    intro g
    rcases s.frame_modify f g change with heq | heq
    · rw [heq]
    · rw [heq, hchange.parent]
  refine ⟨?_, ?_, fun g hg hne => ?_, fun g => ?_⟩
  · rw [size_modify]
    exact h.outermost
  · rw [hparent]
    exact h.root
  · rw [size_modify] at hg
    rw [hparent]
    exact h.older g hg hne
  · rcases s.frame_modify f g change with heq | heq
    · rw [heq]
      exact h.constants g
    · rw [heq]
      exact hchange.owns (h.constants g)

/-- The frames from one outward, each the parent of the one before, up to one that has none. -/
inductive Path (s : Store) : FrameId → List FrameId → Prop
  | last {f : FrameId} (h : (s.frame f).parent = none) : Path s f [f]
  | outward {f p : FrameId} {path : List FrameId} (h : (s.frame f).parent = some p)
      (rest : Path s p path) : Path s f (f :: path)

/-- The search for the frame that binds a name, frame by frame, comes to an end. -/
inductive Search (s : Store) (n : Name) : FrameId → Option FrameId → Prop
  | here {f : FrameId} (h : (s.frame f).owns n = true) : Search s n f (some f)
  | missing {f : FrameId} (h : (s.frame f).owns n = false) (hlast : (s.frame f).parent = none) :
      Search s n f none
  | outward {f p : FrameId} {answer : Option FrameId} (h : (s.frame f).owns n = false)
      (hp : (s.frame f).parent = some p) (rest : Search s n p answer) : Search s n f answer

/-- The bound on a search plays no part if it is large enough. -/
theorem Path.chainFrom {f : FrameId} {path : List FrameId} (h : s.Path f path) {bound : Nat}
    (hbound : path.length ≤ bound) : s.chainFrom bound f = path := by
  induction h generalizing bound with
  | last h =>
    obtain ⟨bound, rfl⟩ := Nat.exists_eq_succ_of_ne_zero (Nat.ne_of_gt hbound)
    rw [Store.chainFrom, h]
  | outward h rest ih =>
    obtain ⟨bound, rfl⟩ := Nat.exists_eq_succ_of_ne_zero (Nat.ne_of_gt (Nat.zero_lt_of_lt hbound))
    rw [Store.chainFrom, h]
    exact congrArg _ (ih (Nat.le_of_succ_le_succ hbound))

/-- The search for a name goes along the path to the outermost frame. -/
theorem Path.search {f : FrameId} {path : List FrameId} (h : s.Path f path) (n : Name) :
    s.Search n f (path.find? fun g => (s.frame g).owns n) := by
  induction h with
  | @last f h =>
    rw [List.find?_cons]
    cases howns : (s.frame f).owns n with
    | true => exact .here howns
    | false => exact .missing howns h
  | @outward f p path h rest ih =>
    rw [List.find?_cons]
    cases howns : (s.frame f).owns n with
    | true => exact .here howns
    | false => exact .outward howns h ih

/-- Numbers go down along a path, so no frame comes up twice. -/
theorem Shaped.path (hs : s.Shaped) (f : FrameId) (hf : f < s.frames.size) :
    ∃ path, s.Path f path ∧ path.Pairwise (· > ·) ∧ (∀ g ∈ path, g ≤ f) ∧ path.length ≤ f + 1 ∧
      path.getLast? = some globals := by
  induction f using Nat.strongRecOn with
  | _ f ih =>
    by_cases hglobals : f = globals
    · subst hglobals
      exact ⟨[globals], .last hs.root, List.pairwise_singleton _ _, by simp, by simp, rfl⟩
    · obtain ⟨p, hp, hparent⟩ := hs.older f hf hglobals
      obtain ⟨path, hpath, hdown, hle, hlength, hlast⟩ := ih p hp (Nat.lt_trans hp hf)
      refine ⟨f :: path, .outward hparent hpath, ?_, ?_, ?_, ?_⟩
      · exact List.pairwise_cons.mpr ⟨fun g hg => Nat.lt_of_le_of_lt (hle g hg) hp, hdown⟩
      · intro g hg
        rcases List.mem_cons.mp hg with rfl | hg
        · exact Nat.le_refl _
        · exact Nat.le_trans (hle g hg) (Nat.le_of_lt hp)
      · rw [List.length_cons]
        omega
      · rw [List.getLast?_cons, hlast]
        rfl

theorem root_shaped : root.Shaped := by
  refine ⟨by decide, rfl, fun f hf hne => ?_, fun f c hc => ?_⟩
  · exact absurd (Nat.lt_one_iff.mp hf) hne
  · rw [frame_root] at hc
    cases hc

end Store

/-- What is asked of the frames in which functions were made, and of the shape of a store. Nothing is
asked of programs. -/
structure Homes where
  known : (frames : Nat) → Function → Prop
  frame : (frames : Nat) → FrameId → Prop
  shape : Store → Prop
  known_mono {n n' : Nat} {f : Function} : n ≤ n' → known n f → known n' f
  frame_mono {n n' : Nat} {f : FrameId} : n ≤ n' → frame n f → frame n' f
  made {n : Nat} {f : FrameId} (name : Name) (params : List Name) (body : List Stmt) :
    frame n f → known n (.mk params body name (some f) false none)
  bound {n : Nat} {f : Function} (v : Value) :
    known n f → f.native = false → known n (f.bindTo v)
  builtin (n : Nat) (b : Builtin) (receiver : Option Value) : known n (b.function receiver)
  home {n : Nat} {f : Function} :
    known n f → f.native = false → frame n (f.closure.getD globals)
  child {s : Store} {parent : FrameId} :
    shape s → frame s.frames.size parent → shape (s.child parent).2
  modify {s : Store} {v : Value} {change : Frame → Frame} (f : FrameId) :
    shape s → Frame.Change v change → shape (s.modify f change)

namespace Homes

variable (H : Homes)

def regime : Regime where
  toPolicy := .lax fun _ _ => True
  tasks := .all
  known := H.known
  record _ _ := True
  frame := H.frame
  shape := H.shape
  known_mono := H.known_mono
  frame_mono := H.frame_mono
  made name _ := H.made name _ _
  bound := H.bound
  listMethod _ _ := H.builtin _ _ _
  textMethod _ _ := H.builtin _ _ _
  home := H.home
  defined _ _ := ⟨fun _ _ => (Policy.lax_lenient _).key _, .any, fun _ _ => trivial,
    .inr ⟨nofun, nofun⟩⟩
  native _ _ _ := .inr ⟨nofun, nofun⟩
  dict _ := trivial
  declared _ := trivial
  child := H.child
  modify := H.modify
  tolerant := Policy.lax_tolerant _
  exhausted := Policy.lax_exhausted _

theorem closed : H.regime.Closed where
  expr _ := Expr.admitted_of_parts (Policy.lax_lenient _) (fun _ _ => trivial)
    (fun _ _ _ => trivial) fun _ _ _ => nofun
  stmt _ := Stmt.admitted_of_parts (Policy.lax_lenient _) (fun _ _ => trivial)
    (fun _ _ _ _ => trivial) (fun _ _ _ _ _ _ _ _ => trivial) (fun _ _ _ => nofun) _
  outOfSteps := nofun

theorem fits (settings : Settings) : H.regime.Fits settings := .inr nofun

theorem takes (σ : Signals) : H.regime.Takes σ := .inr ⟨nofun, nofun, nofun⟩

/-- Functions of the program were made in frames that are there, and the frames form a tree. -/
def anchored : Homes where
  known n f := f.native = false → ∃ c < n, f.closure = some c
  frame n f := f < n
  shape := Store.Shaped
  known_mono hn hf hnative := by
    obtain ⟨c, hc, hclosure⟩ := hf hnative
    exact ⟨c, Nat.lt_of_lt_of_le hc hn, hclosure⟩
  frame_mono hn hf := Nat.lt_of_lt_of_le hf hn
  made _ _ _ hf _ := ⟨_, hf, rfl⟩
  bound _ hf hnative _ := hf hnative
  builtin _ _ _ hnative := nomatch hnative
  home hf hnative := by
    obtain ⟨c, hc, hclosure⟩ := hf hnative
    rw [hclosure]
    exact hc
  child h hparent := h.child hparent
  modify f h hchange := h.modify f hchange

end Homes

theorem Store.root_upholds : root.Upholds Homes.anchored.regime := by
  refine ⟨fun n _ f => ?_, fun f _ => ?_, fun f p _ hp => ?_, root_shaped⟩
  · exact Nat.lt_succ_iff_lt_or_eq.trans Or.comm
  · rw [frame_root]
    exact fieldsAll_nil
  · rw [frame_root] at hp
    cases hp

/-- In a fresh state the built-ins have been bound in the outermost frame, and that is all. -/
theorem Machine.fresh_evolves (input : String) :
    Store.root.Evolves Homes.anchored.regime (Machine.fresh input).store := by
  have hadd : ∀ (bs : List Builtin) (s : Store), Store.root.Evolves Homes.anchored.regime s →
      Store.root.Evolves Homes.anchored.regime (bs.foldl (fun s b =>
        s.set globals (.text b.name) (.function (b.function none))) s) := by
    intro bs
    induction bs with
    | nil => exact fun s hs => hs
    | cons b rest ih =>
      intro s hs
      have hglobals : globals < s.frames.size :=
        Nat.lt_of_lt_of_le Store.root_shaped.outermost hs.size
      refine ih _ (.modify hs hglobals (.function ?_) (.bind _))
      exact .mk (Homes.anchored.builtin _ b none) fun _ h => nomatch h
  exact hadd _ _ .refl

/-- The states of a session: a fresh one, and the state after a statement was run or an expression was
evaluated, whatever it was, with any settings and whether it succeeded or failed. -/
inductive Machine.OfSession : Machine → Prop
  | fresh (input : String) : OfSession (Machine.fresh input)
  | run {m : Machine} (h : OfSession m) (settings : Settings) (steps : Nat) (s : Stmt) :
      OfSession (Eval.runStmt settings steps s m).2
  | evaluate {m : Machine} (h : OfSession m) (settings : Settings) (steps : Nat) (e : Expr) :
      OfSession (Eval.runExpr settings steps e m).2

theorem Machine.OfSession.runAll {m : Machine} (h : m.OfSession) (settings : Settings) (steps : Nat)
    (last : Value) (p : Program) : (Eval.runAll settings steps last p m).2.OfSession := by
  induction p generalizing m last with
  | nil => exact h
  | cons s rest ih =>
    have hs := h.run settings steps s
    rw [Eval.runAll]
    rcases hrun : Eval.runStmt settings steps s m with ⟨e | v, m₁⟩
    · rw [hrun] at hs
      rw [Eval.bind_of_error hrun]
      exact hs
    · rw [hrun] at hs
      rw [Eval.bind_of_ok hrun]
      exact ih hs v

/-- The frames of a state form a tree, the active one is among them, and so are those in which functions
of the program were made. -/
abbrev Machine.Formed (m : Machine) : Prop := m.Upholds Homes.anchored.regime

/-- Every session keeps to the regime, because each operation does. -/
theorem Machine.OfSession.formed {m : Machine} (h : m.OfSession) : m.Formed := by
  have hclosed := Homes.anchored.closed
  induction h with
  | fresh input =>
    have hevolves := Machine.fresh_evolves input
    refine ⟨Store.root_upholds.evolves hevolves, ?_⟩
    exact Nat.lt_of_lt_of_le Store.root_shaped.outermost hevolves.size
  | run _ settings steps s ih =>
    exact (Eval.keepsTo_runStmt hclosed (Homes.anchored.takes .any)
      (Homes.anchored.fits settings) steps trivial _ ih (Nat.zero_le _)).upholds ih
  | evaluate _ settings steps e ih =>
    exact (Eval.keepsTo_runExpr hclosed (Homes.anchored.fits settings) steps trivial _ ih
      (Nat.zero_le _)).upholds ih

/-- In every state of a session, the frames around a frame form a path without repetition to the
outermost one, and a search for a name along it ends with the frame that the program finds. Each
function of the program, wherever in a value it stands, was made in a frame that is there. Constants are
bound where they are marked. -/
theorem session_state_formed {m : Machine} (h : m.OfSession) :
    (∀ f < m.store.frames.size, ∃ path, m.store.Path f path ∧ path.Nodup ∧
      path.getLast? = some globals ∧ path.length = m.store.depth f + 1 ∧
      ∀ n, m.store.Search n f (m.store.owner? f n)) ∧
    (∀ f n v g, (n, v) ∈ (m.store.frame f).bindings → v.Holds g → g.native = false →
      ∃ c < m.store.frames.size, g.closure = some c) ∧
    (∀ f c, c ∈ (m.store.frame f).constants → c ∈ Named.names (m.store.frame f).bindings) := by
  have hformed := h.formed
  have hshaped : m.store.Shaped := hformed.store.shape
  refine ⟨fun f hf => ?_, fun f n v g hv hg => ?_, fun f c hc => ?_⟩
  · obtain ⟨path, hpath, hdown, -, hlength, hlast⟩ := hshaped.path f hf
    have hchain : m.store.chain f = path := hpath.chainFrom hlength
    refine ⟨path, hpath, hdown.imp Nat.ne_of_gt, hlast, ?_, fun n => ?_⟩
    · rw [Store.depth, hchain]
      cases hpath <;> rfl
    · rw [Store.owner?, hchain]
      exact hpath.search n
  · by_cases hf : f < m.store.frames.size
    · exact (hformed.store.values f hf (n, v) hv).holds hg
    · rw [m.store.frame_of_size_le (Nat.not_lt.mp hf)] at hv
      cases hv
  · exact Named.mem_names (hshaped.constants f c hc)

/-- A function that is made in a block and kept in a list, after a statement that failed: the frame of
the block is still there, and it leads to the outermost one. -/
theorem session_state_formed_block :
    let s : Stmt := .let_ (.text "fs") (.list [.block [.expr (.lambda [] [])]])
    let m := (Eval.runStmt {} 9 s (Eval.runStmt {} 9 .break_ (Machine.fresh "")).2).2
    ∃ path, m.store.Path 1 path ∧ path.Nodup ∧ path.getLast? = some globals ∧
      path.length = m.store.depth 1 + 1 ∧ ∀ n, m.store.Search n 1 (m.store.owner? 1 n) :=
  (session_state_formed (.run (.run (.fresh "") {} 9 .break_) {} 9 _)).1 1 (by decide)

end Scripting
