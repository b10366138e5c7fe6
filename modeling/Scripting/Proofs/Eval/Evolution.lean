import Scripting.Proofs.Eval.Restored

/-!
What a run does in a regime. It adds frames inside of frames that are known and gives names in known
frames known values; it does nothing else to the store. It ends with an answer that is known or fails as
it may. What such changes keep, every run keeps, whatever its outcome.
-/

namespace Scripting

namespace Frame.Change

variable {v : Value} {change : Frame → Frame}

theorem parent (h : Change v change) (f : Frame) : (change f).parent = f.parent := by
  cases h with
  | bind n => rfl
  | bindConstant n => rfl
  | update n => rfl

theorem all {I : Content} (h : Change v change) (hv : v.All I) {f : Frame} (hf : f.All I) :
    (change f).All I := by
  cases h with
  | bind n => exact hf.put n hv
  | bindConstant n => exact hf.put n hv
  | update n => exact hf.put n hv

end Frame.Change

/-- A store turns into another one in a regime: frames are added inside of known ones, and known frames
get known values. -/
inductive Store.Evolves (R : Regime) (s : Store) : Store → Prop
  | refl : Evolves R s s
  | child {s' : Store} {parent : FrameId} (h : Evolves R s s')
      (hparent : R.frame s'.frames.size parent) : Evolves R s (s'.child parent).2
  | modify {s' : Store} {f : FrameId} {v : Value} {change : Frame → Frame} (h : Evolves R s s')
      (hf : R.frame s'.frames.size f) (hv : v.All (R.content s'.frames.size))
      (hchange : Frame.Change v change) : Evolves R s (s'.modify f change)

/-- A store keeps to a regime: in known frames there are known values only, and their parents are
known. From here on, each new frame gets known, and no other. The store has the shape that is asked. -/
structure Store.Upholds (R : Regime) (s : Store) : Prop where
  next : ∀ n, s.frames.size ≤ n → ∀ f, R.frame (n + 1) f ↔ f = n ∨ R.frame n f
  values : ∀ f, R.frame s.frames.size f → (s.frame f).All (R.content s.frames.size)
  parents : ∀ f p, R.frame s.frames.size f → (s.frame f).parent = some p →
    R.frame s.frames.size p
  shape : R.shape s

/-- A state keeps to a regime, with a known active frame. -/
structure Machine.Upholds (R : Regime) (m : Machine) : Prop where
  store : m.store.Upholds R
  active : R.frame m.store.frames.size m.active

namespace Store

variable {R : Regime} {s s' s'' : Store}

theorem Evolves.trans (h : s.Evolves R s') (h' : s'.Evolves R s'') : s.Evolves R s'' := by
  induction h' with
  | refl => exact h
  | child _ hparent ih => exact .child ih hparent
  | modify _ hf hv hchange ih => exact .modify ih hf hv hchange

theorem Evolves.size (h : s.Evolves R s') : s.frames.size ≤ s'.frames.size := by
  induction h with
  | refl => exact Nat.le_refl _
  | child _ _ ih =>
    rw [size_child]
    exact Nat.le_succ_of_le ih
  | modify _ _ _ _ ih =>
    rw [size_modify]
    exact ih

/-- A new frame inside of a known one keeps the store to the regime. -/
theorem Upholds.child (h : s.Upholds R) {parent : FrameId} (hparent : R.frame s.frames.size parent) :
    (s.child parent).2.Upholds R := by
  have hframe : ∀ f, R.frame (s.child parent).2.frames.size f →
      (s.child parent).2.frame f = Frame.empty (some parent) ∨
      R.frame s.frames.size f ∧ (s.child parent).2.frame f = s.frame f := by
    intro f hf
    rw [size_child, h.next _ (Nat.le_refl _)] at hf
    by_cases heq : f = s.frames.size
    · subst heq
      exact .inl (s.frame_child_self parent)
    · exact .inr ⟨hf.resolve_left heq, s.frame_child_of_ne parent heq⟩
  have hsize : s.frames.size ≤ (s.child parent).2.frames.size := by
    rw [size_child]
    exact Nat.le_succ _
  refine ⟨fun n hn => h.next n (Nat.le_trans hsize hn), fun f hf => ?_, fun f p hf hp => ?_,
    R.child h.shape hparent⟩
  · rcases hframe f hf with heq | ⟨hold, heq⟩
    · rw [heq]
      exact fieldsAll_nil
    · rw [heq]
      exact R.fields.mono hsize (h.values f hold)
  · rcases hframe f hf with heq | ⟨hold, heq⟩
    · rw [heq] at hp
      exact Option.some.inj hp ▸ R.frame_mono hsize hparent
    · rw [heq] at hp
      exact R.frame_mono hsize (h.parents f p hold hp)

/-- A known value in a known frame keeps the store to the regime. -/
theorem Upholds.modify (h : s.Upholds R) (f : FrameId) {v : Value}
    (hv : v.All (R.content s.frames.size)) {change : Frame → Frame} (hchange : Frame.Change v change) :
    (s.modify f change).Upholds R := by
  refine ⟨fun n hn => ?_, fun g hg => ?_, fun g p hg hp => ?_, R.modify f h.shape hchange⟩
  · rw [size_modify] at hn
    exact h.next n hn
  · rw [size_modify] at hg ⊢
    rcases s.frame_modify f g change with heq | heq
    · rw [heq]
      exact h.values g hg
    · rw [heq]
      exact hchange.all hv (h.values g hg)
  · rw [size_modify] at hg ⊢
    refine h.parents g p hg ?_
    rcases s.frame_modify f g change with heq | heq
    · rw [← heq, hp]
    · rw [← hchange.parent, ← heq, hp]

/-- The step lemmas for the two changes carry over to all of them. -/
theorem Upholds.evolves (hs : s.Upholds R) (h : s.Evolves R s') : s'.Upholds R := by
  induction h with
  | refl => exact hs
  | child _ hparent ih => exact ih.child hparent
  | modify _ _ hv hchange ih => exact ih.modify _ hv hchange

/-- A search through the frames around a known frame stays in known ones. -/
theorem Upholds.chainFrom (h : s.Upholds R) (bound : Nat) {f g : FrameId}
    (hf : R.frame s.frames.size f) (hg : g ∈ s.chainFrom bound f) : R.frame s.frames.size g := by
  induction bound generalizing f with
  | zero => cases hg
  | succ bound ih =>
    rcases List.mem_cons.mp hg with rfl | hg
    · exact hf
    · split at hg
      · rename_i p hp
        exact ih (h.parents f p hf hp) hg
      · cases hg

theorem Upholds.owner (h : s.Upholds R) {f g : FrameId} {n : Name} (hf : R.frame s.frames.size f)
    (hg : s.owner? f n = some g) : R.frame s.frames.size g :=
  h.chainFrom (f + 1) hf (List.mem_of_find?_eq_some hg)

theorem Upholds.get? (h : s.Upholds R) {f : FrameId} {n : Name} {v : Value}
    (hf : R.frame s.frames.size f) (hv : s.get? f n = some v) :
    v.All (R.content s.frames.size) := by
  obtain ⟨g, hg, hlookup⟩ := Option.bind_eq_some_iff.mp hv
  exact (h.values g (h.owner hf hg)).lookup hlookup

theorem Upholds.assign (h : s.Upholds R) {f : FrameId} (hf : R.frame s.frames.size f) (n : Name)
    {v : Value} (hv : v.All (R.content s.frames.size)) : s.Evolves R (s.assign f n v).2 := by
  unfold Store.assign
  cases howner : s.owner? f n with
  | none => exact .refl
  | some g =>
    dsimp only
    split
    · exact .refl
    · exact .modify .refl (h.owner hf howner) hv (.update n)

end Store

namespace Eval

variable {α β : Type} {R : Regime}

/-- A run ends in a regime: the store has evolved, the active frame is the same, the answer has a
property, and a failure is one of those that are left. -/
structure Upheld (Q : R.Mark α) (m : Machine) (result : Except Failure α × Machine) : Prop where
  evolves : m.store.Evolves R result.2.store
  active : result.2.active = m.active
  answer : ∀ x, result.1 = .ok x → Q.holds result.2.store.frames.size x
  failure : ∀ f, result.1 = .error f → R.failure f

/-- A computation keeps to a regime when there are at least a number of frames. -/
def KeepsTo (n : Nat) (Q : R.Mark α) (a : Eval α) : Prop :=
  ∀ m : Machine, m.Upholds R → n ≤ m.store.frames.size → Upheld Q m (a m)

variable {n : Nat} {Q : R.Mark α}

theorem Upheld.upholds {m : Machine} {result : Except Failure α × Machine} (h : Upheld Q m result)
    (hm : m.Upholds R) : result.2.Upholds R := by
  refine ⟨hm.store.evolves h.evolves, ?_⟩
  rw [h.active]
  exact R.frame_mono h.evolves.size hm.active

/-- A computation that leaves the frames alone and gives an answer. -/
theorem keepsTo_of_ok {a : Eval α} (answer : Machine → α)
    (hok : ∀ m, (a m).1 = .ok (answer m))
    (hstore : ∀ m, (a m).2.store = m.store ∧ (a m).2.active = m.active)
    (hanswer : ∀ m, m.Upholds R → n ≤ m.store.frames.size →
      Q.holds m.store.frames.size (answer m)) : KeepsTo n Q a := by
  intro m hm hn
  refine ⟨?_, (hstore m).2, fun x hx => ?_, fun f hf => ?_⟩
  · rw [(hstore m).1]
    exact .refl
  · obtain rfl := Except.ok.inj ((hok m).symm.trans hx)
    rw [(hstore m).1]
    exact hanswer m hm hn
  · exact nomatch (hok m).symm.trans hf

theorem keepsTo_throw {f : Failure} (hf : R.failure f) : KeepsTo n Q (throw f) := fun _ _ _ =>
  ⟨.refl, rfl, nofun, fun _ h => Except.error.inj h ▸ hf⟩

theorem keepsTo_trace (settings : Settings) (message : Message) :
    KeepsTo n (R.any Unit) (trace settings message) := by
  intro m _ _
  obtain ⟨journal, hstate⟩ := trace_state settings message m
  refine ⟨?_, ?_, fun _ _ => trivial, fun f hf => trace_error hf ▸ R.exhausted⟩
  · rw [hstate]
    exact .refl
  · rw [hstate]

theorem KeepsTo.mono {a : Eval α} {n' : Nat} (h : KeepsTo n Q a) (hn : n ≤ n') : KeepsTo n' Q a :=
  fun m hm hn' => h m hm (Nat.le_trans hn hn')

/-- What keeps to a regime can be put together: the second computation may rely on the answer of the
first. -/
theorem KeepsTo.bind {Q' : R.Mark β} {a : Eval α} {f : α → Eval β} (ha : KeepsTo n Q a)
    (hf : ∀ n', n ≤ n' → ∀ x, Q.holds n' x → KeepsTo n' Q' (f x)) : KeepsTo n Q' (a >>= f) := by
  intro m hm hn
  have hfirst := ha m hm hn
  have hm₁ := hfirst.upholds hm
  rcases hrun : a m with ⟨e | x, m₁⟩
  · rw [hrun] at hfirst
    rw [bind_of_error hrun]
    exact ⟨hfirst.evolves, hfirst.active, nofun, fun f hf => by
      cases hf
      exact hfirst.failure e rfl⟩
  · rw [hrun] at hfirst hm₁
    rw [bind_of_ok hrun]
    -- the rest starts with exactly the frames for which the first answer has its property
    have hrest := hf _ (Nat.le_trans hn hfirst.evolves.size) x (hfirst.answer x rfl) m₁ hm₁
      (Nat.le_refl _)
    exact ⟨hfirst.evolves.trans hrest.evolves, hrest.active.trans hfirst.active, hrest.answer,
      hrest.failure⟩

/-- Inside of a new frame in a known one. -/
theorem KeepsTo.inner {a : Eval α} (ha : KeepsTo n Q a) {m : Machine} (hm : m.Upholds R)
    (hn : n ≤ m.store.frames.size) {parent : FrameId} (hparent : R.frame m.store.frames.size parent)
    (depth depth' : Nat) :
    let inside := a { m.inner parent with callDepth := depth }
    Upheld Q m (inside.1, { inside.2 with active := m.active, callDepth := depth' }) := by
  have hactive : R.frame (m.inner parent).store.frames.size (m.inner parent).active := by
    show R.frame (m.store.child parent).2.frames.size m.store.frames.size
    rw [Store.size_child]
    exact (hm.store.next _ (Nat.le_refl _) _).mpr (.inl rfl)
  have hinside := ha { m.inner parent with callDepth := depth }
    ⟨hm.store.child hparent, hactive⟩ (Nat.le_trans hn (Store.Evolves.refl.child hparent).size)
  exact ⟨(Store.Evolves.refl.child hparent).trans hinside.evolves, rfl, hinside.answer,
    hinside.failure⟩

theorem KeepsTo.inScope {a : Eval α} (ha : KeepsTo n Q a) : KeepsTo n Q (inScope a) := by
  intro m hm hn
  have hinside := ha.inner hm hn hm.active m.callDepth
  exact hinside _

theorem KeepsTo.enter {a : Eval α} (ha : KeepsTo n Q a) (settings : Settings) {closure : FrameId}
    (hclosure : R.frame n closure) : KeepsTo n Q (enter settings closure a) := by
  intro m hm hn
  by_cases h : settings.callLimit ≤ m.callDepth
  · rw [enter_of_le h]
    exact ⟨.refl, rfl, nofun, fun _ h => Except.error.inj h ▸ R.tolerant _ rfl⟩
  · rw [enter_of_lt (Int.not_le.mp h)]
    exact ha.inner hm hn (R.frame_mono hn hclosure) (m.callDepth + 1) _

theorem KeepsTo.repeated {a : Eval (Option α)} (ha : KeepsTo n Q.opt a)
    (hstops : R.failure .outOfSteps) (rounds : Nat) : KeepsTo n Q (repeated a rounds) := by
  induction rounds with
  | zero => exact keepsTo_throw hstops
  | succ rounds ih =>
    refine ha.bind fun n' hn x hx => ?_
    cases x with
    | some x =>
      exact keepsTo_of_ok (fun _ => x) (fun _ => rfl) (fun _ => ⟨rfl, rfl⟩) fun m _ hm =>
        Q.mono hm (hx x rfl)
    | none => exact ih.mono hn

theorem KeepsTo.onHostStack {a : Eval α} (ha : KeepsTo n Q a) {settings : Settings}
    (hhost : R.Fits settings) : KeepsTo n Q (onHostStack settings a) := by
  intro m hm hn
  rcases Int.lt_or_le settings.host.greatestLimit settings.stackLimit with h | h
  · rw [onHostStack_of_lt h]
    have hrefused := hhost.resolve_left (Int.not_le.mpr h)
    exact ⟨.refl, rfl, nofun, fun _ h => Except.error.inj h ▸ hrefused⟩
  · rw [onHostStack_of_le h]
    obtain ⟨hevolves, hactive, hanswer, hfailure⟩ := ha m hm hn
    refine ⟨hevolves, hactive, fun x hx => hanswer x (unwound_eq_ok.mp hx), fun f hf => ?_⟩
    rcases unwound_eq_error hf with ⟨-, rfl⟩ | hf
    · exact R.tolerant _ rfl
    · exact hfailure f hf

end Eval

structure Evaluators.KeepTo (R : Regime) (r : Evaluators) : Prop where
  evaluate {e : Expr} : R.tasks.expr e → Eval.KeepsTo 0 R.value (r.evaluate e)
  execute {σ : Signals} {s : Stmt} : R.tasks.stmt σ s → Eval.KeepsTo 0 (R.outcome σ) (r.execute s)

namespace Eval

variable {α : Type} {R : Regime}

/-- What flows through a rule keeps to the regime. -/
theorem Flows.keepsTo {n : Nat} {T : Tasks} {k : Effect} {Q : R.Mark α}
    {c : Settings → Evaluators → Eval α} (h : Flows R n T k Q c) (hT : T = R.tasks)
    (settings : Settings) {r : Evaluators} (hr : r.KeepTo R) : KeepsTo n Q (c settings r) := by
  induction h with
  | pure h =>
    exact keepsTo_of_ok (fun _ => _) (fun _ => rfl) (fun _ => ⟨rfl, rfl⟩) fun m _ hn =>
      Regime.Mark.mono _ hn h
  | throw h => exact keepsTo_throw h
  | activeFrame =>
    exact keepsTo_of_ok Machine.active (fun _ => rfl) (fun _ => ⟨rfl, rfl⟩) fun m hm _ => hm.active
  | find name =>
    exact keepsTo_of_ok (fun m => m.store.get? m.active name) (fun _ => rfl) (fun _ => ⟨rfl, rfl⟩)
      fun m hm _ v hv => hm.store.get? hm.active hv
  | activeDepth =>
    exact keepsTo_of_ok (fun m => m.store.depth m.active) (fun _ => rfl) (fun _ => ⟨rfl, rfl⟩)
      fun _ _ _ => trivial
  | assignStore name hv =>
    exact fun m hm hn =>
      ⟨hm.store.assign hm.active name (R.value.mono hn hv), rfl, fun _ _ => trivial, nofun⟩
  | set name hv =>
    exact fun m hm hn =>
      ⟨.modify .refl hm.active (R.value.mono hn hv) (.bind name), rfl, fun _ _ => trivial, nofun⟩
  | declareConstant name hv =>
    exact fun m hm hn =>
      ⟨.modify .refl hm.active (R.value.mono hn hv) (.bindConstant name), rfl, fun _ _ => trivial,
        nofun⟩
  | printLine line =>
    exact keepsTo_of_ok (fun _ => ()) (fun _ => rfl) (fun _ => ⟨rfl, rfl⟩) fun _ _ _ => trivial
  | readLine =>
    exact fun m hm hn => ⟨.refl, rfl, fun _ _ => trivial, nofun⟩
  | trace message => exact keepsTo_trace settings message
  | evaluate h => exact (hr.evaluate (hT ▸ h)).mono (Nat.zero_le _)
  | execute h => exact (hr.execute (hT ▸ h)).mono (Nat.zero_le _)
  | bind first rest ih ihrest => exact (ih hT).bind fun n' hn x hx => ihrest n' hn x hx hT
  | inScope h ih => exact (ih hT).inScope
  | enter hclosure h ih => exact (ih rfl).enter settings hclosure
  | repeated stops h ih => exact (ih hT).repeated stops r.rounds

end Eval

/-- One step more. -/
theorem Evaluators.KeepTo.next {R : Regime} {r : Evaluators} (hr : r.KeepTo R) (hR : R.Closed)
    (settings : Settings) : (r.next settings).KeepTo R :=
  ⟨fun he => (Eval.flows_evaluateStep (k := .quiet) (hR.expr he)).keepsTo rfl settings hr,
    fun hs => (Eval.flows_executeStep (hR.stmt hs) fun _ => rfl).keepsTo rfl settings hr⟩

namespace Eval

variable {R : Regime}

/-- Both sorts at once, by induction on the steps. -/
theorem evaluators_keepTo (hR : R.Closed) (settings : Settings) (steps : Nat) :
    (evaluators settings steps).KeepTo R := by
  induction steps with
  | zero => exact ⟨fun _ => keepsTo_throw hR.outOfSteps, fun _ => keepsTo_throw hR.outOfSteps⟩
  | succ steps ih => exact ih.next hR settings

section Programs

variable {σ : Signals} {settings : Settings} (hR : R.Closed) (hσ : R.Takes σ)
  (hhost : R.Fits settings)
include hR hσ hhost

/-- A run of an admitted statement keeps to its regime. -/
theorem keepsTo_runStmt (steps : Nat) {s : Stmt} (hs : R.tasks.stmt σ s) :
    KeepsTo 0 R.value (runStmt settings steps s) := by
  have hr := evaluators_keepTo hR settings steps
  refine (keepsTo_trace settings _).bind fun n _ _ _ =>
    (((hr.execute hs).onHostStack hhost).mono n.zero_le).bind fun _ _ o ho => ?_
  exact (flows_leaveProgram (T := R.tasks) (k := .quiet) ho hσ).keepsTo rfl settings hr

/-- A whole program, by induction on its statements. -/
theorem keepsTo_runAll (steps : Nat) {n : Nat} {last : Value}
    (hlast : R.value.holds n last) {p : Program} (hp : R.tasks.Body σ p) :
    KeepsTo n R.value (runAll settings steps last p) := by
  induction p generalizing last n with
  | nil =>
    exact keepsTo_of_ok (fun _ => last) (fun _ => rfl) (fun _ => ⟨rfl, rfl⟩) fun m _ hn =>
      R.value.mono hn hlast
  | cons s rest ih =>
    exact ((keepsTo_runStmt hR hσ hhost steps (hp s List.mem_cons_self)).mono
      (Nat.zero_le _)).bind fun _ _ v hv => ih hv fun s' h => hp s' (List.mem_cons_of_mem s h)

omit hσ in
theorem keepsTo_runExpr (steps : Nat) {e : Expr} (he : R.tasks.expr e) :
    KeepsTo 0 R.value (runExpr settings steps e) :=
  ((evaluators_keepTo hR settings steps).evaluate he).onHostStack hhost

end Programs

end Eval

end Scripting
