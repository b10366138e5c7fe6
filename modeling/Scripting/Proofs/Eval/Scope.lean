import Scripting.Parser.Statement
import Scripting.Proofs.Eval.Restored

/-!
What a run can do to the frames that are there. A block, a round of a loop and a call have frames of
their own, and an assignment changes a value only. So a frame keeps its parent, its names and its
constants, except for the active one, in which a declaration binds the one name that it declares. The
declaration is told to the trace afterwards, and the stack of the host may fail to hold the line; then
the statement fails with its name bound.
-/

namespace Scripting

/-- What a frame keeps when variables in it get other values: its parent, its names in order, and its
constants with their values. -/
structure Frame.Kept (f f' : Frame) : Prop where
  parent : f'.parent = f.parent
  names : Named.names f'.bindings = Named.names f.bindings
  constants : f'.constants = f.constants
  values : ∀ n ∈ f.constants, f'.bindings.lookup n = f.bindings.lookup n

namespace Frame.Kept

theorem refl (f : Frame) : f.Kept f := ⟨rfl, rfl, rfl, fun _ _ => rfl⟩

theorem trans {f f' f'' : Frame} (h : f.Kept f') (h' : f'.Kept f'') : f.Kept f'' where
  parent := h'.parent.trans h.parent
  names := h'.names.trans h.names
  constants := h'.constants.trans h.constants
  values n hn := (h'.values n (h.constants ▸ hn)).trans (h.values n hn)

theorem update {f : Frame} {n : Name} (howns : f.owns n = true)
    (hvariable : f.constants.contains n = false) (v : Value) : f.Kept (f.update n v) where
  parent := rfl
  names := Named.names_put_of_has howns v
  constants := rfl
  values c hc := by
    refine Named.lookup_put_of_ne (fun heq => ?_) v f.bindings
    subst heq
    simp at hvariable
    exact hvariable hc

end Frame.Kept

/-- What a declaration of a name does to a frame: it binds the name as a variable or as a constant. -/
inductive Frame.Declaration (n : Name) : (Frame → Frame) → Prop
  | plain (v : Value) : Declaration n (Frame.bind n v)
  | constant (v : Value) : Declaration n (Frame.bindConstant n v)

namespace Frame.Declaration

variable {n : Name} {change : Frame → Frame}

theorem parent (h : Declaration n change) (f : Frame) : (change f).parent = f.parent := by
  cases h with
  | plain v => rfl
  | constant v => rfl

theorem names (h : Declaration n change) (f : Frame) :
    Named.names (change f).bindings = Named.withName n (Named.names f.bindings) := by
  cases h with
  | plain v => exact Named.names_put n v f.bindings
  | constant v => exact Named.names_put n v f.bindings

/-- The mark and the value of another constant stay. -/
theorem constants (h : Declaration n change) {f : Frame} {c : Name} (hc : c ∈ f.constants)
    (hne : c ≠ n) :
    c ∈ (change f).constants ∧ (change f).bindings.lookup c = f.bindings.lookup c := by
  cases h with
  | plain v =>
    refine ⟨?_, Named.lookup_put_of_ne hne v f.bindings⟩
    show c ∈ f.constants.filter (· != n)
    simp [hc, hne]
  | constant v =>
    refine ⟨?_, Named.lookup_put_of_ne hne v f.bindings⟩
    unfold Frame.bindConstant
    dsimp only
    split
    · exact hc
    · exact List.mem_append_left [n] hc

end Frame.Declaration

/-- A store grows to another one: there may be new frames, and the old ones are kept, except for one
that may get other names. -/
structure Store.Grows (except : Option FrameId) (s s' : Store) : Prop where
  size : s.frames.size ≤ s'.frames.size
  parent : ∀ f < s.frames.size, (s'.frame f).parent = (s.frame f).parent
  kept : ∀ f < s.frames.size, some f ≠ except → (s.frame f).Kept (s'.frame f)

namespace Store.Grows

variable {except : Option FrameId} {s s' s'' : Store}

theorem refl (s : Store) : s.Grows except s := ⟨Nat.le_refl _, fun _ _ => rfl, fun _ _ _ => .refl _⟩

theorem trans (h : s.Grows except s') (h' : s'.Grows except s'') : s.Grows except s'' where
  size := Nat.le_trans h.size h'.size
  parent f hf := (h'.parent f (Nat.lt_of_lt_of_le hf h.size)).trans (h.parent f hf)
  kept f hf hne := (h.kept f hf hne).trans (h'.kept f (Nat.lt_of_lt_of_le hf h.size) hne)

theorem of_none (h : s.Grows none s') : s.Grows except s' :=
  ⟨h.size, h.parent, fun f hf _ => h.kept f hf nofun⟩

/-- Names in a frame that was not there do not count. -/
theorem of_new {f : FrameId} (h : s.Grows none s') (h' : s'.Grows (some f) s'')
    (hnew : s.frames.size ≤ f) : s.Grows none s'' where
  size := Nat.le_trans h.size h'.size
  parent g hg := (h'.parent g (Nat.lt_of_lt_of_le hg h.size)).trans (h.parent g hg)
  kept g hg _ := by
    refine (h.kept g hg nofun).trans (h'.kept g (Nat.lt_of_lt_of_le hg h.size) fun heq => ?_)
    cases heq
    omega

theorem child (s : Store) (parent : FrameId) : s.Grows none (s.child parent).2 := by
  have hframe : ∀ f < s.frames.size, (s.child parent).2.frame f = s.frame f :=
    fun f hf => s.frame_child_of_ne parent (Nat.ne_of_lt hf)
  refine ⟨by simp, fun f hf => ?_, fun f hf _ => ?_⟩
  · rw [hframe f hf]
  · rw [hframe f hf]
    exact .refl _

/-- A change of one frame that leaves its parent alone. -/
theorem modify (s : Store) (f : FrameId) {change : Frame → Frame}
    (hparent : ∀ g, (change g).parent = g.parent) : s.Grows (some f) (s.modify f change) := by
  refine ⟨by simp, fun g _ => ?_, fun g _ hne => ?_⟩
  · rcases s.frame_modify f g change with h | h
    · rw [h]
    · rw [h, hparent]
  · rw [s.frame_modify_of_ne (fun heq => hne (congrArg some heq))]
    exact .refl _

/-- An assignment changes the value of a variable in the frame that binds it. -/
theorem assign (s : Store) (f : FrameId) (n : Name) (v : Value) :
    s.Grows none (s.assign f n v).2 := by
  unfold Store.assign
  cases howner : s.owner? f n with
  | none => exact refl s
  | some g =>
    dsimp only
    split
    · exact refl s
    · rename_i hvariable
      have howns : (s.frame g).owns n = true := by
        unfold Store.owner? at howner
        exact List.find?_some (p := fun h => (s.frame h).owns n) howner
      have hgrows : s.Grows (some g) (s.modify g (Frame.update n v)) := modify s g fun _ => rfl
      refine ⟨hgrows.size, hgrows.parent, fun h hh _ => ?_⟩
      by_cases hg : h = g
      · subst hg
        rcases s.frame_modify h h (Frame.update n v) with heq | heq
        · rw [heq]
          exact .refl _
        · rw [heq]
          exact .update howns (Bool.eq_false_iff.mpr hvariable) v
      · exact hgrows.kept h hh fun heq => hg (Option.some.inj heq)

end Store.Grows

namespace Eval

variable {α β : Type}

def Effect.frame? (k : Effect) (m : Machine) : Option FrameId :=
  match k with
  | .quiet => none
  | .declaring => some m.active

/-- A computation keeps the frames that are there, except for what its effect allows. -/
def Contained (k : Effect) (a : Eval α) : Prop :=
  ∀ m : Machine, m.store.Grows (k.frame? m) (a m).2.store

theorem contained_of_store {k : Effect} {a : Eval α} (h : ∀ m, (a m).2.store = m.store) :
    Contained k a := by
  intro m
  rw [h m]
  exact .refl _

theorem Contained.of_quiet {k : Effect} {a : Eval α} (h : Contained .quiet a) : Contained k a :=
  fun m => (h m).of_none

/-- The frames that both parts keep are kept: the first part ends in the frame where it started. -/
theorem Contained.bind {k : Effect} {a : Eval α} {f : α → Eval β} (ha : Contained k a)
    (hrestores : Restores a) (hf : ∀ x, Contained k (f x)) : Contained k (a >>= f) := by
  intro m
  have hfirst := ha m
  have hactive : (a m).2.active = m.active := congrArg Prod.fst (hrestores m)
  rcases hrun : a m with ⟨e | x, m₁⟩
  · rw [bind_of_error hrun]
    rw [hrun] at hfirst
    exact hfirst
  · rw [bind_of_ok hrun]
    rw [hrun] at hfirst hactive
    have hrest := hf x m₁
    have hframe : k.frame? m₁ = k.frame? m := by
      cases k with
      | quiet => rfl
      | declaring => exact congrArg some hactive
    rw [hframe] at hrest
    exact hfirst.trans hrest

/-- Inside of a new frame, names go there. -/
theorem Contained.inner {k : Effect} {a : Eval α} (ha : Contained .declaring a) (m : Machine)
    (parent : FrameId) (depth : Nat) :
    m.store.Grows (k.frame? m) (a { m.inner parent with callDepth := depth }).2.store := by
  have hinside := ha { m.inner parent with callDepth := depth }
  exact ((Store.Grows.child m.store parent).of_new hinside (Nat.le_refl _)).of_none

theorem Contained.inScope {k : Effect} {a : Eval α} (ha : Contained .declaring a) :
    Contained k (inScope a) := fun m => ha.inner m m.active m.callDepth

theorem Contained.enter {k : Effect} {a : Eval α} (ha : Contained .declaring a)
    (settings : Settings) (closure : FrameId) : Contained k (enter settings closure a) := by
  intro m
  by_cases h : settings.callLimit ≤ m.callDepth
  · rw [enter_of_le h]
    exact .refl _
  · rw [enter_of_lt (Int.not_le.mp h)]
    exact ha.inner m closure (m.callDepth + 1)

theorem contained_trace {k : Effect} (settings : Settings) (message : Message) :
    Contained k (trace settings message) := by
  refine contained_of_store fun m => ?_
  obtain ⟨journal, h⟩ := trace_state settings message m
  rw [h]

theorem Contained.repeated {k : Effect} {a : Eval (Option α)} (ha : Contained k a)
    (hrestores : Restores a) (rounds : Nat) : Contained k (repeated a rounds) := by
  induction rounds with
  | zero => exact contained_of_store fun _ => rfl
  | succ rounds ih =>
    refine ha.bind hrestores fun x => ?_
    cases x with
    | some x => exact contained_of_store fun _ => rfl
    | none => exact ih

end Eval

structure Evaluators.Contain (r : Evaluators) : Prop where
  evaluate : ∀ e, Eval.Contained .quiet (r.evaluate e)
  execute : ∀ s, Eval.Contained .declaring (r.execute s)

namespace Eval

variable {α β : Type} {settings : Settings} {r : Evaluators}

/-- Each rule keeps the frames that are there when the evaluators do, except for what its effect
allows. -/
theorem Composed.contained {F : Failure → Prop} {parts : Task → Prop} {k : Effect}
    {c : Settings → Evaluators → Eval α} (h : Composed F parts k c) (settings : Settings)
    (hr : r.Restore) (hc : r.Contain) : Contained k (c settings r) := by
  induction h with
  | assignStore n v => exact fun m => (Store.Grows.assign m.store m.active n v).of_none
  | set n v => exact fun m => .modify m.store m.active fun _ => rfl
  | declareConstant n v => exact fun m => .modify m.store m.active fun _ => rfl
  | evaluate h => exact (hc.evaluate _).of_quiet
  | execute h => exact hc.execute _
  | bind first rest ih ihrest => exact ih.bind (first.restores settings hr) ihrest
  | inScope h ih => exact ih.inScope
  | enter closure limit h ih => exact ih.enter settings closure
  | repeated stops h ih => exact ih.repeated (h.restores settings hr) r.rounds
  | trace message exhausted => exact contained_trace settings message
  | _ => exact contained_of_store fun _ => rfl

theorem evaluators_contain (settings : Settings) (steps : Nat) :
    (evaluators settings steps).Contain := by
  induction steps with
  | zero => exact ⟨fun _ => contained_of_store fun _ => rfl, fun _ => contained_of_store fun _ => rfl⟩
  | succ steps ih =>
    have hr := evaluators_restore settings steps
    constructor
    · exact fun e => (composed_expr e).contained settings hr ih
    · exact fun s => (composed_stmt s).contained settings hr ih

/-- A statement that declares nothing keeps the active frame, too. -/
theorem contained_execute {s : Stmt} (hs : s.declared? = none) (settings : Settings) (steps : Nat) :
    Contained .quiet (execute settings steps s) := by
  cases steps with
  | zero => exact contained_of_store fun _ => rfl
  | succ steps =>
    have hcomposed : Composed (fun _ => True) (· ∈ s.parts) .quiet
        (fun settings r => executeStep settings r s) := by
      refine composed_executeStep common_true (fun _ _ _ => trivial) fun h => ?_
      rw [hs] at h
      cases h
    exact hcomposed.contained settings (evaluators_restore settings steps)
      (evaluators_contain settings steps)

/-- A declaration of a name is the last change of the frames between two stores. -/
def Bound (n : Name) (m m' : Machine) : Prop :=
  ∃ s change, m.store.Grows none s ∧ Frame.Declaration n change ∧
    m'.store = s.modify m.active change

/-- A failure of a line about a declaration. -/
def Untold (settings : Settings) (f : Failure) : Prop := f = .exhausted ∧ 2 ≤ settings.debugLevel

/-- A declaration of a name keeps all frames until it binds the name in the active one, and that is
the last change. If it fails, it does so before, or when the trace is told of it. -/
def Binds (settings : Settings) (n : Name) (a : Eval α) : Prop := ∀ m : Machine,
  match (a m).1 with
  | .error f => m.store.Grows none (a m).2.store ∨ Untold settings f ∧ Bound n m (a m).2
  | .ok _ => Bound n m (a m).2

section Bound

variable {n : Name} {m m' m'' : Machine}

theorem Bound.names (h : Bound n m m') (hactive : m.active < m.store.frames.size) :
    Named.names (m'.store.frame m.active).bindings =
      Named.withName n (Named.names (m.store.frame m.active).bindings) := by
  obtain ⟨s, change, hgrows, hchange, hstore⟩ := h
  rw [hstore, s.frame_modify_self (Nat.lt_of_lt_of_le hactive hgrows.size), hchange.names,
    (hgrows.kept _ hactive nofun).names]

/-- The declaration of a name leaves the other constants alone. -/
theorem Bound.constants (h : Bound n m m') {c : Name} (hactive : m.active < m.store.frames.size)
    (hc : c ∈ (m.store.frame m.active).constants) (hne : c ≠ n) :
    c ∈ (m'.store.frame m.active).constants ∧
      (m'.store.frame m.active).bindings.lookup c = (m.store.frame m.active).bindings.lookup c := by
  obtain ⟨s, change, hgrows, hchange, hstore⟩ := h
  have hkept := hgrows.kept _ hactive nofun
  obtain ⟨hmem, hvalue⟩ := hchange.constants (hkept.constants ▸ hc) hne
  rw [hstore, s.frame_modify_self (Nat.lt_of_lt_of_le hactive hgrows.size)]
  exact ⟨hmem, hvalue.trans (hkept.values c hc)⟩

theorem Bound.of_grows (hgrows : m.store.Grows none m'.store) (hactive : m'.active = m.active)
    (h : Bound n m' m'') : Bound n m m'' := by
  obtain ⟨s, change, hgrows', hchange⟩ := h
  rw [hactive] at hchange
  exact ⟨s, change, hgrows.trans hgrows', hchange⟩

end Bound

/-- What comes before the declaration is quiet. -/
theorem Contained.binds {n : Name} {a : Eval α} {f : α → Eval β} (ha : Contained .quiet a)
    (hrestores : Restores a) (hf : ∀ x, Binds settings n (f x)) : Binds settings n (a >>= f) := by
  intro m
  have hfirst : m.store.Grows none (a m).2.store := ha m
  have hactive : (a m).2.active = m.active := congrArg Prod.fst (hrestores m)
  rcases hrun : a m with ⟨e | x, m₁⟩
  · rw [bind_of_error hrun]
    rw [hrun] at hfirst
    exact .inl hfirst
  · rw [bind_of_ok hrun]
    rw [hrun] at hfirst hactive
    have hrest := hf x m₁
    cases houtcome : (f x m₁).1 with
    | error e =>
      rw [houtcome] at hrest
      exact hrest.imp hfirst.trans fun ⟨huntold, hbound⟩ =>
        ⟨huntold, hbound.of_grows hfirst hactive⟩
    | ok y =>
      rw [houtcome] at hrest
      exact hrest.of_grows hfirst hactive

/-- What comes behind it leaves the frames alone and does not fail but as a line of the trace. -/
theorem Binds.bind {n : Name} {a : Eval α} {f : α → Eval β} (ha : Binds settings n a)
    (hstore : ∀ x m, (f x m).2.store = m.store)
    (hf : ∀ x m e, (f x m).1 = .error e → Untold settings e) : Binds settings n (a >>= f) := by
  intro m
  have hfirst := ha m
  rcases hrun : a m with ⟨e | x, m₁⟩
  · rw [bind_of_error hrun]
    rw [hrun] at hfirst
    exact hfirst
  · rw [bind_of_ok hrun]
    rw [hrun] at hfirst
    have hbound : Bound n m (f x m₁).2 := by
      unfold Bound
      rw [hstore x m₁]
      exact hfirst
    cases houtcome : (f x m₁).1 with
    | error e => exact .inr ⟨hf x m₁ e houtcome, hbound⟩
    | ok y => exact hbound

/-- A declaration is told to the trace, and is then done. -/
theorem Binds.told {n : Name} {a : Eval Unit} (ha : Binds settings n a)
    (message : Machine → Message) (hlevel : ∀ m, (message m).level = 2) :
    Binds settings n (a >>= fun _ m =>
      (trace settings (message m) >>= fun _ => return Outcome.value .null) m) := by
  refine ha.bind (fun _ m => ?_) fun _ m e he => ?_
  · rw [bind_apply]
    obtain ⟨journal, h⟩ := trace_state settings (message m) m
    rcases hrun : trace settings (message m) m with ⟨_ | x, m'⟩ <;> rw [hrun] at h <;> exact h ▸ rfl
  · rcases hrun : trace settings (message m) m with ⟨e' | x, m'⟩
    · rw [bind_of_error hrun] at he
      cases he
      refine ⟨trace_error (congrArg Prod.fst hrun), ?_⟩
      refine Int.not_lt.mp fun hlt => ?_
      rw [trace_of_lt (hlevel m ▸ hlt)] at hrun
      cases hrun
    · rw [bind_of_ok hrun] at he
      cases he

/-- The name is checked first. -/
theorem binds_change {n : Name} {change : Frame → Frame} (h : Frame.Declaration n change) :
    Binds settings n (requireKey n >>= fun _ =>
      changeStore fun active store => store.modify active change) := by
  unfold Eval.requireKey
  split
  · exact fun m => ⟨m.store, change, .refl m.store, h, rfl⟩
  · exact fun m => .inl (.refl m.store)

/-- The rule for a declaration binds the name in the active frame and does no more to it. -/
theorem binds_executeStep (hr : r.Restore) (hc : r.Contain) {s : Stmt} {n : Name}
    (hs : s.declared? = some n) : Binds settings n (executeStep settings r s) := by
  have hevaluate : ∀ e {f : Value → Eval Outcome}, (∀ v, Binds settings n (f v)) →
      Binds settings n (r.evaluate e >>= f) := fun e f hf => (hc.evaluate e).binds (hr.evaluate e) hf
  cases s with
  | let_ n' e =>
    cases hs
    exact hevaluate e fun v => (binds_change (.plain v)).told
      (fun m => .let_ n v (m.store.depth m.active)) fun _ => rfl
  | const n' e =>
    cases hs
    exact hevaluate e fun v => (binds_change (.constant v)).told (fun _ => .const n v) fun _ => rfl
  | function n' ps body =>
    cases hs
    exact Contained.binds (contained_of_store fun _ => rfl) (fun _ => rfl) fun frame =>
      (binds_change (.plain _)).told (fun _ => .function n ps) fun _ => rfl
  | type n' fs ms =>
    cases hs
    have hfields : Composed (fun _ => True) (fun _ => True) .quiet
        (fun _ r => evaluateFields r [] fs) := composed_evaluateFields common_true fs
    have hmethods : ∀ frame, Composed (fun _ => True) (fun _ => True) .quiet
        (fun _ _ => makeMethods n frame [] ms) := fun frame => composed_makeMethods common_true n frame ms
    refine (hfields.contained settings hr hc).binds (hfields.restores settings hr) fun fs' => ?_
    refine Contained.binds (contained_of_store fun _ => rfl) (fun _ => rfl) fun frame => ?_
    refine ((hmethods frame).contained settings hr hc).binds
      ((hmethods frame).restores settings hr) fun ms' => ?_
    exact (binds_change (.plain _)).told (fun _ => .type n (Named.names fs') (Named.names ms'))
      fun _ => rfl
  | _ => cases hs

theorem binds_execute {s : Stmt} {n : Name} (hs : s.declared? = some n) (settings : Settings)
    (steps : Nat) : Binds settings n (execute settings steps s) := by
  cases steps with
  | zero => exact fun m => .inl (.refl m.store)
  | succ steps =>
    exact binds_executeStep (evaluators_restore settings steps)
      (evaluators_contain settings steps) hs

end Eval

/-- A constant stays one and keeps its value in every frame that has it, whatever a statement runs and
however it ends. Only a declaration of the same name in the active frame takes its place. -/
theorem constants_kept (settings : Settings) (steps : Nat) (m : Machine) (s : Stmt) {f : FrameId}
    {c : Name} (hc : c ∈ (m.store.frame f).constants)
    (hs : f = m.active → s.declared? ≠ some c) :
    let after := (Eval.execute settings steps s m).2.store.frame f
    c ∈ after.constants ∧ after.bindings.lookup c = (m.store.frame f).bindings.lookup c := by
  have hf : f < m.store.frames.size := by
    refine Nat.lt_of_not_le fun hge => ?_
    rw [m.store.frame_of_size_le hge] at hc
    cases hc
  have hkept : ∀ {f' : Frame}, (m.store.frame f).Kept f' →
      c ∈ f'.constants ∧ f'.bindings.lookup c = (m.store.frame f).bindings.lookup c :=
    fun hkept => ⟨hkept.constants ▸ hc, hkept.values c hc⟩
  by_cases hactive : f = m.active
  · subst hactive
    cases hdeclared : s.declared? with
    | none => exact hkept ((Eval.contained_execute hdeclared settings steps m).kept _ hf nofun)
    | some n =>
      -- up to the declaration the constant is kept, and the declaration binds another name
      have hne : c ≠ n := fun heq => hs rfl (heq ▸ hdeclared)
      have hbinds := Eval.binds_execute hdeclared settings steps m
      cases houtcome : (Eval.execute settings steps s m).1 with
      | error e =>
        rw [houtcome] at hbinds
        rcases hbinds with hgrows | ⟨-, hbound⟩
        · exact hkept (hgrows.kept _ hf nofun)
        · exact hbound.constants hf hc hne
      | ok o =>
        rw [houtcome] at hbinds
        exact hbinds.constants hf hc hne
  · have hgrows := (Eval.evaluators_contain settings steps).execute s m
    exact hkept (hgrows.kept f hf fun heq => hactive (Option.some.inj heq))

/-- A counter, a parameter and a local constant have the name of a constant, and it is assigned to in
the scope of each and outside of them all. -/
theorem constants_kept_shadowed :
    let c : Name := .text "c"
    let change : Stmt := .expr (.assign c (.number 3))
    let m : Machine := ⟨⟨#[⟨none, [(c, .number 1)], [c]⟩]⟩, globals, 0, [], "", {}, 0⟩
    let s : Stmt := .block [
      .for_ c (.number 0) (.number 2) [change, .block [.const c (.number 2)]],
      .expr (.call (.lambda [c] [change]) [.number 4]), change]
    let after := (Eval.execute {} 9 s m).2.store.frame globals
    c ∈ after.constants ∧ after.bindings.lookup c = some (.number 1) :=
  constants_kept {} 9 _ _ (List.mem_singleton_self _) fun _ => nofun

end Scripting
