import Mathlib.Data.List.Find
import Scripting.Proofs.Eval.Formed
import Scripting.Proofs.Eval.Reached

/-!
Locality of runs. From the active frame, a run can get to the frames around it and, by calls, to the
frames in which functions at hand were made. It changes no other frame, and what stands in the others
has no influence on it. The set of frames that it can get to is a regime of its own: it is closed under
parents and under calls, and new frames belong to it.
-/

namespace Scripting

/-- The frames that can be reached from the active one: the parents of reached frames, and the frames in
which functions were made that stand in values of reached frames. -/
inductive Machine.Reachable (m : Machine) : FrameId → Prop
  | active : Reachable m m.active
  | parent {f p : FrameId} (h : Reachable m f) (hp : (m.store.frame f).parent = some p) :
      Reachable m p
  | closure {f c : FrameId} {n : Name} {v : Value} {g : Function} (h : Reachable m f)
      (hv : (n, v) ∈ (m.store.frame f).bindings) (hg : v.Holds g) (hc : g.closure = some c) :
      Reachable m c

/-- The outermost frame is around the active one. -/
def Machine.Rooted (m : Machine) : Prop :=
  ∃ path, m.store.Path m.active path ∧ path.getLast? = some globals

/-- A computation is local to what a state can reach. Other frames keep their contents. If they had
other contents, then the outcome, the input and output and the contents of all frames that can be reached
or are new would be the same. -/
structure Machine.Confines {α : Type} (m : Machine) (a : Eval α) : Prop where
  untouched : ∀ f < m.store.frames.size, ¬ m.Reachable f →
    (a m).2.store.frame f = m.store.frame f
  unseen : ∀ s : Store, s.frames.size = m.store.frames.size →
    (∀ f, m.Reachable f → s.frame f = m.store.frame f) →
    ∃ s' : Store, a { m with store := s } = ((a m).1, { (a m).2 with store := s' }) ∧
      s'.frames.size = (a m).2.store.frames.size ∧
      ∀ f, m.Reachable f ∨ m.store.frames.size ≤ f → s'.frame f = (a m).2.store.frame f

/-- Functions of the program run inside of a set of frames. -/
def Homes.within (P : FrameId → Prop) : Homes where
  known _ g := g.native = false → P (g.closure.getD globals)
  frame _ f := P f
  shape _ := True
  known_mono _ h := h
  frame_mono _ h := h
  made _ _ _ h _ := h
  bound _ h hnative _ := h hnative
  builtin _ _ _ hnative := nomatch hnative
  home h hnative := h hnative
  child _ _ := trivial
  modify _ _ _ := trivial

/-- Functions that would run inside of a set of frames, also those that are built in. -/
def Content.within (P : FrameId → Prop) : Content where
  function g := P (g.closure.getD globals)
  record _ _ := True

theorem Content.within_loose (P : FrameId → Prop) : (Content.within P).Loose :=
  ⟨fun _ _ => trivial, fun _ h => h⟩

abbrev Regime.within (P : FrameId → Prop) : Regime := (Homes.within P).regime

structure Store.Alike (P : FrameId → Prop) (s s' : Store) : Prop where
  size : s'.frames.size = s.frames.size
  frames : ∀ f, P f → s'.frame f = s.frame f

namespace Store

variable {P : FrameId → Prop} {s s' : Store}

/-- A run in the regime of a set of frames leaves the others as they are. -/
theorem Evolves.untouched (h : s.Evolves (.within P) s') (hnew : ∀ f, s.frames.size ≤ f → P f)
    {f : FrameId} (hf : ¬ P f) : s'.frame f = s.frame f := by
  induction h with
  | refl => rfl
  | @child s' parent h hparent ih =>
    have hne : f ≠ s'.frames.size := fun heq => hf (hnew f (heq ▸ h.size))
    rw [s'.frame_child_of_ne parent hne]
    exact ih
  | @modify s' g v change h hg hv hchange ih =>
    have hne : f ≠ g := fun heq => hf (heq ▸ hg)
    rw [s'.frame_modify_of_ne hne]
    exact ih

namespace Alike

variable (h : s.Alike P s')
include h

theorem child (parent : FrameId) : (s.child parent).2.Alike P (s'.child parent).2 := by
  refine ⟨by rw [size_child, size_child, h.size], fun f hf => ?_⟩
  by_cases heq : f = s.frames.size
  · subst heq
    rw [s.frame_child_self, ← h.size, s'.frame_child_self]
  · rw [s.frame_child_of_ne parent heq, s'.frame_child_of_ne parent (h.size ▸ heq), h.frames f hf]

theorem modify (f : FrameId) (change : Frame → Frame) :
    (s.modify f change).Alike P (s'.modify f change) := by
  refine ⟨by rw [size_modify, size_modify, h.size], fun g hg => ?_⟩
  by_cases heq : g = f
  · subst heq
    by_cases hlt : g < s.frames.size
    · rw [s.frame_modify_self hlt, s'.frame_modify_self (h.size ▸ hlt), h.frames g hg]
    · have hge : s.frames.size ≤ g := Nat.not_lt.mp hlt
      rw [(s.modify g change).frame_of_size_le (by rwa [size_modify]),
        (s'.modify g change).frame_of_size_le (by rwa [size_modify, h.size])]
  · rw [s.frame_modify_of_ne heq, s'.frame_modify_of_ne heq, h.frames g hg]

variable (hs : s.Upholds (.within P)) {f : FrameId} (hf : P f)
include hs hf

theorem chainFrom (bound : Nat) : s'.chainFrom bound f = s.chainFrom bound f := by
  induction bound generalizing f with
  | zero => rfl
  | succ bound ih =>
    rw [Store.chainFrom, Store.chainFrom, h.frames f hf]
    cases hparent : (s.frame f).parent with
    | none => rfl
    | some p => exact congrArg _ (ih (hs.parents f p hf hparent))

theorem depth : s'.depth f = s.depth f := by
  rw [Store.depth, Store.depth, chain, chain, h.chainFrom hs hf]

theorem owner? (n : Name) : s'.owner? f n = s.owner? f n := by
  rw [Store.owner?, Store.owner?, chain, chain, h.chainFrom hs hf]
  refine List.find?_congr fun g hg => ?_
  rw [h.frames g (hs.chainFrom (f + 1) hf hg)]

theorem get? (n : Name) : s'.get? f n = s.get? f n := by
  rw [Store.get?, Store.get?, h.owner? hs hf]
  cases howner : s.owner? f n with
  | none => rfl
  | some g => exact congrArg (fun x : Frame => x.bindings.lookup n) (h.frames g (hs.owner hf howner))

theorem assign (n : Name) (v : Value) :
    (s'.assign f n v).1 = (s.assign f n v).1 ∧ (s.assign f n v).2.Alike P (s'.assign f n v).2 := by
  unfold Store.assign
  rw [h.owner? hs hf]
  cases howner : s.owner? f n with
  | none => exact ⟨rfl, h⟩
  | some g =>
    dsimp only
    rw [h.frames g (hs.owner hf howner)]
    split
    · exact ⟨rfl, h⟩
    · exact ⟨rfl, h.modify g _⟩

end Alike

end Store

namespace Eval

variable {α β : Type} {P : FrameId → Prop} {n : Nat}

/-- A computation does the same in a state and in one with a store that is alike. -/
def Blind (P : FrameId → Prop) (n : Nat) (a : Eval α) : Prop :=
  ∀ (m : Machine) (s : Store), m.Upholds (.within P) → n ≤ m.store.frames.size →
    m.store.Alike P s → ∃ s', (a m).2.store.Alike P s' ∧
      a { m with store := s } = ((a m).1, { (a m).2 with store := s' })

theorem Blind.mono {a : Eval α} {n' : Nat} (h : Blind P n a) (hn : n ≤ n') : Blind P n' a :=
  fun m s hm hn' => h m s hm (Nat.le_trans hn hn')

/-- A computation that leaves the frames alone and does not look at them. -/
theorem blind_of_store {a : Eval α} (hstore : ∀ m, (a m).2.store = m.store)
    (hblind : ∀ m s, a { m with store := s } = ((a m).1, { (a m).2 with store := s })) :
    Blind P n a := by
  intro m s _ _ halike
  exact ⟨s, (hstore m).symm ▸ halike, hblind m s⟩

/-- A message is worded from its values alone. -/
theorem blind_trace (settings : Settings) (message : Message) :
    Blind P n (trace settings message) := by
  intro m s _ _ halike
  rcases Int.lt_or_le settings.debugLevel message.level with h | h
  · exact ⟨s, by rw [trace_of_lt h]; exact halike, by rw [trace_of_lt h, trace_of_lt h]⟩
  · cases hholds : settings.holds m.told message with
    | true =>
      refine ⟨s, by rw [trace_of_holds h hholds]; exact halike, ?_⟩
      rw [trace_of_holds h hholds, trace_of_holds (m := { m with store := s }) h hholds]
    | false =>
      refine ⟨s, by rw [trace_of_not_holds h hholds]; exact halike, ?_⟩
      rw [trace_of_not_holds h hholds, trace_of_not_holds (m := { m with store := s }) h hholds]

/-- Two parts that do not see the other frames do not see them together: the first one answers with
values that lead nowhere else. -/
theorem Blind.bind {Q : (Regime.within P).Mark α} {a : Eval α} {f : α → Eval β} (ha : Blind P n a)
    (hkeeps : KeepsTo n Q a) (hf : ∀ n', n ≤ n' → ∀ x, Q.holds n' x → Blind P n' (f x)) :
    Blind P n (a >>= f) := by
  intro m s hm hn halike
  obtain ⟨s₁, hfirst, hrun'⟩ := ha m s hm hn halike
  -- Only the run in `m` has to keep to the regime: the other store is alike wherever it matters.
  have hends := hkeeps m hm hn
  have hm₁ := hends.upholds hm
  rcases hrun : a m with ⟨e | x, m₁⟩
  · rw [hrun] at hfirst hrun'
    rw [bind_of_error hrun, bind_of_error hrun']
    exact ⟨s₁, hfirst, rfl⟩
  · rw [hrun] at hfirst hrun' hends hm₁
    rw [bind_of_ok hrun, bind_of_ok hrun']
    exact hf _ (Nat.le_trans hn hends.evolves.size) x (hends.answer x rfl) m₁ s₁ hm₁
      (Nat.le_refl _) hfirst

/-- The new frame has the same number in both stores. -/
theorem Blind.inner {a : Eval α} (ha : Blind P n a) {m : Machine} {s : Store}
    (hm : m.Upholds (.within P)) (hn : n ≤ m.store.frames.size) (halike : m.store.Alike P s)
    {parent : FrameId} (hparent : P parent) (depth : Nat) :
    ∃ s', (a { m.inner parent with callDepth := depth }).2.store.Alike P s' ∧
      a { ({ m with store := s } : Machine).inner parent with callDepth := depth } =
        ((a { m.inner parent with callDepth := depth }).1,
          { (a { m.inner parent with callDepth := depth }).2 with store := s' }) := by
  have hnumber : (s.child parent).1 = (m.store.child parent).1 := halike.size
  have hactive : P (m.inner parent).active :=
    (hm.store.next _ (Nat.le_refl _) _).mpr (.inl rfl)
  have hinside := ha { m.inner parent with callDepth := depth } (s.child parent).2
    ⟨hm.store.child hparent, hactive⟩ (Nat.le_trans hn (by simp [Machine.inner]))
    (halike.child parent)
  unfold Machine.inner at hinside ⊢
  dsimp only at hinside ⊢
  rw [hnumber]
  exact hinside

theorem Blind.inScope {a : Eval α} (ha : Blind P n a) : Blind P n (inScope a) := by
  intro m s hm hn halike
  obtain ⟨s', hs', hrun⟩ := ha.inner hm hn halike hm.active m.callDepth
  refine ⟨s', hs', ?_⟩
  rw [inScope_apply, inScope_apply]
  exact congrArg (fun r : Except Failure α × Machine => (r.1, { r.2 with active := m.active })) hrun

theorem Blind.enter {a : Eval α} (ha : Blind P n a) (settings : Settings) {closure : FrameId}
    (hclosure : P closure) : Blind P n (enter settings closure a) := by
  intro m s hm hn halike
  by_cases h : settings.callLimit ≤ m.callDepth
  · rw [enter_of_le h, enter_of_le (m := { m with store := s }) h]
    exact ⟨s, halike, rfl⟩
  · obtain ⟨s', hs', hrun⟩ := ha.inner hm hn halike hclosure (m.callDepth + 1)
    rw [enter_of_lt (Int.not_le.mp h), enter_of_lt (m := { m with store := s }) (Int.not_le.mp h)]
    refine ⟨s', hs', ?_⟩
    exact congrArg (fun r : Except Failure α × Machine =>
      (r.1, { r.2 with active := m.active, callDepth := r.2.callDepth - 1 })) hrun

theorem Blind.repeated {Q : (Regime.within P).Mark α} {a : Eval (Option α)} (ha : Blind P n a)
    (hkeeps : KeepsTo n Q.opt a) (rounds : Nat) : Blind P n (repeated a rounds) := by
  induction rounds with
  | zero => exact blind_of_store (fun _ => rfl) fun _ _ => rfl
  | succ rounds ih =>
    refine ha.bind hkeeps fun n' hn x _ => ?_
    cases x with
    | some x => exact blind_of_store (fun _ => rfl) fun _ _ => rfl
    | none => exact ih.mono hn

end Eval

structure Evaluators.AreBlind (P : FrameId → Prop) (r : Evaluators) : Prop where
  evaluate : ∀ e, Eval.Blind P 0 (r.evaluate e)
  execute : ∀ s, Eval.Blind P 0 (r.execute s)

namespace Eval

variable {α : Type} {P : FrameId → Prop}

/-- A rule does the same in alike stores when the evaluators do. -/
theorem Flows.blind {n : Nat} {k : Effect} {Q : (Regime.within P).Mark α}
    {c : Settings → Evaluators → Eval α} {T : Tasks} (h : Flows (.within P) n T k Q c)
    (hT : T = .all) (settings : Settings) {r : Evaluators}
    (hr : r.KeepTo (.within P)) (hblind : r.AreBlind P) : Blind P n (c settings r) := by
  induction h with
  | find name =>
    intro m s hm _ halike
    refine ⟨s, halike, ?_⟩
    show (Except.ok (s.get? m.active name), _) = _
    rw [halike.get? hm.store hm.active]
    rfl
  | activeDepth =>
    intro m s hm _ halike
    refine ⟨s, halike, ?_⟩
    show (Except.ok (s.depth m.active), _) = _
    rw [halike.depth hm.store hm.active]
    rfl
  | assignStore name hv =>
    rename_i v
    intro m s hm _ halike
    obtain ⟨hanswer, hstore⟩ := halike.assign hm.store hm.active name v
    refine ⟨(s.assign m.active name v).2, hstore, ?_⟩
    show (Except.ok (s.assign m.active name v).1, _) = _
    rw [hanswer]
    rfl
  | set name hv => exact fun m s _ _ halike => ⟨_, halike.modify m.active _, rfl⟩
  | declareConstant name hv => exact fun m s _ _ halike => ⟨_, halike.modify m.active _, rfl⟩
  | evaluate h => exact (hblind.evaluate _).mono (Nat.zero_le _)
  | execute h => exact (hblind.execute _).mono (Nat.zero_le _)
  | trace message => exact blind_trace settings message
  | bind first rest ih ihrest =>
    exact (ih hT).bind (first.keepsTo hT settings hr) fun n' hn x hx => ihrest n' hn x hx hT
  | inScope h ih => exact (ih hT).inScope
  | enter hclosure h ih => exact (ih rfl).enter settings hclosure
  | repeated stops h ih => exact (ih hT).repeated (h.keepsTo hT settings hr) r.rounds
  | _ => exact blind_of_store (fun _ => rfl) fun _ _ => rfl

/-- The evaluators do the same in alike stores, with any number of steps. -/
theorem evaluators_blind (P : FrameId → Prop) (settings : Settings) (steps : Nat) :
    (evaluators settings steps).AreBlind P := by
  induction steps with
  | zero =>
    constructor
    · exact fun e => blind_of_store (fun _ => rfl) fun _ _ => rfl
    · exact fun s => blind_of_store (fun _ => rfl) fun _ _ => rfl
  | succ steps ih =>
    have hr := evaluators_keepTo (Homes.within P).closed settings steps
    constructor
    · exact fun e => (flows_evaluateStep (k := .quiet) ((Homes.within P).closed.expr trivial)).blind
        rfl settings hr ih
    · exact fun s => (flows_executeStep (σ := .any) ((Homes.within P).closed.stmt trivial)
        fun _ => rfl).blind rfl settings hr ih

end Eval

namespace Machine

variable {α : Type} {m : Machine}

/-- With a frame, the outermost one around it can be reached. -/
theorem Reachable.path {f last : FrameId} {path : List FrameId} (h : m.Reachable f)
    (hpath : m.store.Path f path) (hlast : path.getLast? = some last) : m.Reachable last := by
  induction hpath with
  | last =>
    cases hlast
    exact h
  | outward hp rest ih =>
    refine ih (h.parent hp) ?_
    cases rest <;> exact hlast

/-- A function that was made in no frame is called in the outermost one, which can be reached anyway. -/
theorem Rooted.globals (hm : m.Rooted) : m.Reachable globals := by
  obtain ⟨path, hpath, hlast⟩ := hm
  exact Reachable.active.path hpath hlast

theorem rooted_of_formed (h : m.Formed) : m.Rooted := by
  obtain ⟨path, hpath, -, -, -, hlast⟩ := h.store.shape.path m.active h.active
  exact ⟨path, hpath, hlast⟩

variable (m) in
/-- The frames that a run can get to: those that can be reached now, and new ones. -/
def InReach (f : FrameId) : Prop := m.Reachable f ∨ m.store.frames.size ≤ f

/-- Where the outermost frame is around the active one, the frames that can be reached are a regime. A
function without a frame runs in the outermost one, which is among them. -/
theorem Rooted.upholds_inReach (hm : m.Rooted) : m.Upholds (.within m.InReach) := by
  refine ⟨⟨fun n hn f => ?_, fun f hf p hp => ?_, fun f p hf hp => ?_, trivial⟩, .inl .active⟩
  · constructor
    · exact fun hf => .inr hf
    · rintro (rfl | hf)
      · exact .inr hn
      · exact hf
  · rcases hf with hf | hf
    · -- A method that is taken from a record counts as a function of the program, also if it was
      -- built in, so this is shown of all functions.
      have hall : p.2.All (.within m.InReach) := by
        refine Value.all_of_holds (Content.within_loose _) p.2 fun g hg => ?_
        show m.InReach (g.closure.getD Scripting.globals)
        cases hclosure : g.closure with
        | none => exact .inl hm.globals
        | some c => exact .inl (.closure hf hp hg hclosure)
      have hle : (Content.within m.InReach).Le
          ((Regime.within m.InReach).content m.store.frames.size) :=
        ⟨fun _ hg _ => hg, fun _ _ _ => trivial⟩
      exact hall.mono hle
    · rw [m.store.frame_of_size_le hf] at hp
      cases hp
  · rcases hf with hf | hf
    · exact .inl (.parent hf hp)
    · rw [m.store.frame_of_size_le hf] at hp
      cases hp

theorem Rooted.confines {Q : (Regime.within m.InReach).Mark α} {a : Eval α} (hrooted : m.Rooted)
    (hkeeps : Eval.KeepsTo 0 Q a) (hblind : Eval.Blind m.InReach 0 a) : m.Confines a := by
  have hm := hrooted.upholds_inReach
  refine ⟨fun f hf hunreached => ?_, fun s hsize hframes => ?_⟩
  · refine (hkeeps m hm (Nat.zero_le _)).evolves.untouched (fun _ => .inr) ?_
    rintro (h | h)
    · exact hunreached h
    · exact absurd hf (Nat.not_lt.mpr h)
  · have halike : m.store.Alike m.InReach s := by
      refine ⟨hsize, fun f hf => ?_⟩
      rcases hf with hf | hf
      · exact hframes f hf
      · rw [m.store.frame_of_size_le hf, s.frame_of_size_le (hsize ▸ hf)]
    obtain ⟨s', hs', hrun⟩ := hblind m s hm (Nat.zero_le _) halike
    exact ⟨s', hrun, hs'.size, hs'.frames⟩

end Machine

/-- Wherever the outermost frame is around the active one, whatever is evaluated or executed is local to
the frames that can be reached from there. This is so in every state of a session, and in every state
that a program reaches when it runs in one. -/
theorem run_confined (settings : Settings) (steps : Nat) :
    (∀ m : Machine, m.Rooted →
      (∀ e, m.Confines (Eval.evaluate settings steps e)) ∧
      (∀ s, m.Confines (Eval.execute settings steps s))) ∧
    (∀ m : Machine, m.OfSession → m.Rooted ∧
      ∀ p left t m', Eval.Visits settings steps p m left t m' → m'.Rooted) := by
  refine ⟨fun m hm => ?_, fun m hm => ⟨Machine.rooted_of_formed hm.formed, fun p left t m' hvisits => ?_⟩⟩
  · have hkeeps := Eval.evaluators_keepTo (Homes.within m.InReach).closed settings steps
    have hblind := Eval.evaluators_blind m.InReach settings steps
    constructor
    · exact fun e => hm.confines (hkeeps.evaluate trivial) (hblind.evaluate e)
    · exact fun s => hm.confines (hkeeps.execute (σ := .any) trivial) (hblind.execute s)
  · have hgood := hvisits.good Homes.anchored.closed (fun h => h .add rfl)
      (Homes.anchored.takes .any) (fun _ _ => trivial) hm.formed
    exact Machine.rooted_of_formed hgood.1

/-- The frame that a block has left behind cannot be reached from the outermost one. No statement there
changes it. -/
theorem run_confined_block :
    let left : Frame := ⟨some globals, [(.text "x", .number 1)], []⟩
    let m : Machine := ⟨⟨#[.empty none, left]⟩, globals, 0, [], "", {}, 0⟩
    m.Rooted ∧ ¬ m.Reachable 1 ∧ ∀ s, (Eval.execute {} 9 s m).2.store.frame 1 = left := by
  intro left m
  have hrooted : m.Rooted := ⟨[globals], .last rfl, rfl⟩
  have hreach : ∀ f, m.Reachable f → f = globals := by
    intro f hf
    induction hf with
    | active => rfl
    | parent _ hp ih =>
      subst ih
      cases hp
    | closure _ hv _ _ ih =>
      subst ih
      cases hv
  have hleft : ¬ m.Reachable 1 := fun h => nomatch hreach 1 h
  exact ⟨hrooted, hleft,
    fun s => (((run_confined {} 9).1 m hrooted).2 s).untouched 1 (by decide) hleft⟩

end Scripting
