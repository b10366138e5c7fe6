import Scripting.Proofs.Eval.Origin

/-!
Larger bounds. A run is bounded by a number of steps and by a limit on the depth of calls. Both only
cut a run off: one that comes to its end below them is the same below larger ones, in its outcome and
in its final state, as long as the host can do with the larger limit. The depth itself is seen by
nothing but the entry of a body, so that it stays within the limit.
-/

namespace Scripting

def Settings.withLimit (settings : Settings) (limit : Int) : Settings :=
  { settings with callLimit := limit }

/-- The failures of a run that was cut off, where a larger limit would not have done so. -/
def Failure.IsCut (settings : Settings) (limit : Int) (f : Failure) : Prop :=
  f = .outOfSteps ∨ settings.callLimit < limit ∧
    (f = .error (.callDepth settings.callLimit) ∨ f = .exhausted ∨ f = .error .stackExhausted)

namespace Settings

variable {settings : Settings} {limit : Int}

/-- Below a larger limit, there is no less of the stack of the host. -/
theorem stackLimit_withLimit (h : settings.callLimit ≤ limit) :
    settings.stackLimit ≤ (settings.withLimit limit).stackLimit := by
  have hentries : settings.callLimit * entriesPerCall ≤ limit * entriesPerCall :=
    Int.mul_le_mul_of_nonneg_right h (by decide)
  exact Int.max_le.mpr ⟨Int.le_max_left _ _, Int.le_trans hentries (Int.le_max_right _ _)⟩

theorem holds_withLimit (h : settings.callLimit ≤ limit) {number : Nat} {message : Message}
    (hholds : settings.holds number message = true) :
    (settings.withLimit limit).holds number message = true := by
  cases message with
  | statement s => rfl
  | _ =>
    exact decide_eq_true (Int.le_trans (of_decide_eq_true hholds) (stackLimit_withLimit h))

end Settings

namespace Eval

variable {α β : Type} {settings : Settings} {limit : Int}

/-- The second computation does what the first one does, unless that is cut off. -/
def Follows (settings : Settings) (limit : Int) (a b : Eval α) : Prop :=
  ∀ m, (∃ f, f.IsCut settings limit ∧ (a m).1 = .error f) ∨ b m = a m

theorem follows_self (a : Eval α) : Follows settings limit a a := fun _ => .inr rfl

theorem follows_of_outOfSteps (b : Eval α) : Follows settings limit (throw .outOfSteps) b :=
  fun _ => .inl ⟨_, .inl rfl, rfl⟩

/-- A computation that is cut off in its first part is cut off as a whole; otherwise both parts do what
they did. -/
theorem Follows.bind {a b : Eval α} {c d : α → Eval β} (hab : Follows settings limit a b)
    (hcd : ∀ x, Follows settings limit (c x) (d x)) :
    Follows settings limit (a >>= c) (b >>= d) := by
  intro m
  rcases hab m with ⟨f, hcut, hfails⟩ | hsame
  · exact .inl ⟨f, hcut, bind_fails hfails⟩
  · rcases hrun : a m with ⟨e | x, m₁⟩
    · right
      rw [bind_of_error hrun, bind_of_error (hsame.trans hrun)]
    · rw [bind_of_ok hrun, bind_of_ok (hsame.trans hrun)]
      exact hcd x m₁

theorem Follows.inScope {a b : Eval α} (hab : Follows settings limit a b) :
    Follows settings limit (inScope a) (inScope b) := by
  intro m
  rcases hab (m.inner m.active) with hcut | hsame
  · exact .inl hcut
  · right
    simp only [inScope_apply, hsame]

/-- Below the smaller limit both bodies are entered. Between the two limits the smaller one cuts. -/
theorem Follows.enter {a b : Eval α} (hab : Follows settings limit a b)
    (hlimit : settings.callLimit ≤ limit) (closure : FrameId) :
    Follows settings limit (enter settings closure a)
      (enter (settings.withLimit limit) closure b) := by
  intro m
  by_cases hdepth : settings.callLimit ≤ m.callDepth
  · rw [enter_of_le hdepth]
    rcases Int.lt_or_eq_of_le hlimit with hless | rfl
    · exact .inl ⟨_, .inr ⟨hless, .inl rfl⟩, rfl⟩
    · exact .inr (enter_of_le hdepth closure b)
  · have hless := Int.not_le.mp hdepth
    have hless' : m.callDepth < (settings.withLimit limit).callLimit := Int.lt_of_lt_of_le hless hlimit
    rw [enter_of_lt hless, enter_of_lt hless']
    rcases hab { m.inner closure with callDepth := m.callDepth + 1 } with hcut | hsame
    · exact .inl hcut
    · right
      simp only [hsame]

/-- Where the smaller limit leaves enough of the stack, the larger one does, too. -/
theorem follows_trace (hlimit : settings.callLimit ≤ limit) (message : Message) :
    Follows settings limit (trace settings message) (trace (settings.withLimit limit) message) := by
  intro m
  rcases Int.lt_or_le settings.debugLevel message.level with hlevel | hlevel
  · have hlevel' : (settings.withLimit limit).debugLevel < message.level := hlevel
    exact .inr ((trace_of_lt hlevel').trans (trace_of_lt hlevel).symm)
  · have hlevel' : message.level ≤ (settings.withLimit limit).debugLevel := hlevel
    cases hholds : settings.holds m.told message with
    | true =>
      have hholds' := Settings.holds_withLimit hlimit hholds
      exact .inr ((trace_of_holds hlevel' hholds').trans (trace_of_holds hlevel hholds).symm)
    | false =>
      rcases Int.lt_or_eq_of_le hlimit with hless | rfl
      · exact .inl ⟨_, .inr ⟨hless, .inr (.inl rfl)⟩,
          congrArg Prod.fst (trace_of_not_holds hlevel hholds)⟩
      · exact .inr rfl

theorem Follows.onHostStack {a b : Eval α} (hab : Follows settings limit a b)
    (hlimit : settings.callLimit ≤ limit)
    (hfits : settings.FitsHost → (settings.withLimit limit).FitsHost) :
    Follows settings limit (onHostStack settings a) (onHostStack (settings.withLimit limit) b) := by
  intro m
  rcases Int.lt_or_le settings.host.greatestLimit settings.stackLimit with hlarge | hsmall
  · right
    have hlarge' : (settings.withLimit limit).host.greatestLimit <
        (settings.withLimit limit).stackLimit :=
      Int.lt_of_lt_of_le hlarge (Settings.stackLimit_withLimit hlimit)
    rw [onHostStack_of_lt hlarge, onHostStack_of_lt hlarge']
  · rw [onHostStack_of_le hsmall, onHostStack_of_le (hfits hsmall)]
    rcases hab m with ⟨f, hcut, hfails⟩ | hsame
    · left
      by_cases hf : f = .exhausted
      · subst hf
        rcases hcut with heq | ⟨hless, -⟩
        · cases heq
        · exact ⟨_, .inr ⟨hless, .inr (.inr rfl)⟩, congrArg unwound hfails⟩
      · exact ⟨f, hcut, unwound_error hf hfails⟩
    · exact .inr (by rw [hsame])

theorem Follows.repeated {a b : Eval (Option α)} (hab : Follows settings limit a b)
    {rounds more : Nat} (hmore : rounds ≤ more) :
    Follows settings limit (repeated a rounds) (repeated b more) := by
  induction rounds generalizing more with
  | zero => exact follows_of_outOfSteps _
  | succ rounds ih =>
    obtain ⟨more, rfl⟩ : ∃ n, more = n + 1 := ⟨more - 1, by omega⟩
    refine hab.bind fun x => ?_
    cases x with
    | some x => exact follows_self _
    | none => exact ih (by omega)

end Eval

structure Evaluators.Follow (settings : Settings) (limit : Int) (r r' : Evaluators) : Prop where
  evaluate : ∀ e, Eval.Follows settings limit (r.evaluate e) (r'.evaluate e)
  execute : ∀ s, Eval.Follows settings limit (r.execute s) (r'.execute s)
  rounds : r.rounds ≤ r'.rounds

namespace Eval

variable {α : Type} {settings : Settings} {limit : Int}

/-- Each rule follows itself under a larger limit when the evaluators do. -/
theorem Composed.follows {F : Failure → Prop} {parts : Task → Prop} {k : Effect}
    {c : Settings → Evaluators → Eval α} (h : Composed F parts k c)
    (hlimit : settings.callLimit ≤ limit) {r r' : Evaluators} (hr : r.Follow settings limit r') :
    Follows settings limit (c settings r) (c (settings.withLimit limit) r') := by
  induction h with
  | evaluate h => exact hr.evaluate _
  | execute h => exact hr.execute _
  | bind first rest ih ihrest => exact ih.bind ihrest
  | trace message exhausted => exact follows_trace hlimit message
  | inScope h ih => exact ih.inScope
  | enter closure _ h ih => exact ih.enter hlimit closure
  | repeated stops h ih => exact ih.repeated hr.rounds
  | _ => exact follows_self _

/-- Both sorts at once, by induction on the smaller number of steps. -/
theorem evaluators_follow (hlimit : settings.callLimit ≤ limit) {steps more : Nat}
    (hmore : steps ≤ more) :
    (evaluators settings steps).Follow settings limit
      (evaluators (settings.withLimit limit) more) := by
  induction steps generalizing more with
  | zero => exact ⟨fun _ => follows_of_outOfSteps _, fun _ => follows_of_outOfSteps _, hmore⟩
  | succ steps ih =>
    obtain ⟨more, rfl⟩ : ∃ n, more = n + 1 := ⟨more - 1, by omega⟩
    have hr := ih (Nat.le_of_succ_le_succ hmore)
    refine ⟨fun e => ?_, fun s => ?_, hmore⟩
    · exact (composed_expr (k := .quiet) e).follows hlimit hr
    · exact (composed_stmt s).follows hlimit hr

theorem follows_runStmt (hlimit : settings.callLimit ≤ limit)
    (hfits : settings.FitsHost → (settings.withLimit limit).FitsHost) {steps more : Nat}
    (hmore : steps ≤ more) (s : Stmt) :
    Follows settings limit (runStmt settings steps s)
      (runStmt (settings.withLimit limit) more s) := by
  have hr := evaluators_follow hlimit hmore
  exact (follows_trace hlimit _).bind fun _ => ((hr.execute s).onHostStack hlimit hfits).bind
    fun o => (composed_leaveProgram (k := .quiet) o).follows hlimit hr

theorem follows_runAll (hlimit : settings.callLimit ≤ limit)
    (hfits : settings.FitsHost → (settings.withLimit limit).FitsHost) {steps more : Nat}
    (hmore : steps ≤ more) (last : Value) (p : Program) :
    Follows settings limit (runAll settings steps last p)
      (runAll (settings.withLimit limit) more last p) := by
  induction p generalizing last with
  | nil => exact follows_self _
  | cons s rest ih => exact (follows_runStmt hlimit hfits hmore s).bind ih

/-- With more steps alone, only running out of them makes a difference. -/
theorem Follows.eq_of_not_outOfSteps {a b : Eval α} (h : Follows settings settings.callLimit a b)
    {m : Machine} (hm : (a m).1 ≠ .error .outOfSteps) : b m = a m := by
  rcases h m with ⟨f, hcut, hfails⟩ | hsame
  · rcases hcut with rfl | ⟨hless, -⟩
    · exact absurd hfails hm
    · omega
  · exact hsame

/-- An outcome with which a run ends, and not because its calls are nested too deep or the stack of the
host is exhausted. -/
structure Ends (x : Except Failure α) : Prop where
  steps : x ≠ .error .outOfSteps
  stack : x ≠ .error .exhausted
  overflow (e : RuntimeError) : x = .error (.error e) → e.name ≠ "StackOverflow"

theorem ends_of_isOk {x : Except Failure α} (h : x.isOk = true) : Ends x := by
  cases x with
  | ok v => exact ⟨nofun, nofun, nofun⟩
  | error e => cases h

theorem Follows.eq_of_ends {a b : Eval α} (h : Follows settings limit a b) {m : Machine}
    (hends : Ends (a m).1) : b m = a m := by
  rcases h m with ⟨f, hcut, hfails⟩ | hsame
  · rcases hcut with rfl | ⟨-, rfl | rfl | rfl⟩
    · exact absurd hfails hends.steps
    · exact absurd rfl (hends.overflow _ hfails)
    · exact absurd hfails hends.stack
    · exact absurd rfl (hends.overflow _ hfails)
  · exact hsame

/-- A computation that ends where it started ends as deep as it started. -/
theorem Restores.depth_eq {a : Eval α} (ha : Restores a) {m m' : Machine} {x : Except Failure α}
    (h : a m = (x, m')) : m'.callDepth = m.callDepth := by
  have hplace := congrArg Prod.snd (ha m)
  rw [h] at hplace
  exact hplace

section Depth

variable {steps left : Nat} {t t' : Task} {m m' : Machine}

/-- One step inward: the depth stays, or it grows up to the limit. -/
theorem depth_of_demands (h : (evaluators settings steps).Demands settings t m t' m') :
    (m'.callDepth : Int) ≤ max (m.callDepth : Int) settings.callLimit := by
  rcases admits_of_demands h with ⟨-, hdepth⟩ | ⟨-, hwithin⟩ <;> omega

/-- Between its start and the limit is the depth of every task that is reached. -/
theorem Reaches.depth (h : Reaches settings steps t m left t' m') :
    (m'.callDepth : Int) ≤ max (m.callDepth : Int) settings.callLimit := by
  induction h with
  | here => exact Int.le_max_left _ _
  | inside demands reaches ih =>
    have hstep := depth_of_demands demands
    omega

/-- The depth of calls at every task of a run. -/
theorem Visits.depth {p : Program} (h : Visits settings steps p m left t' m') :
    (m'.callDepth : Int) ≤ max (m.callDepth : Int) settings.callLimit := by
  induction h with
  | first fits reaches =>
    have hdepth := reaches.depth
    rw [depth_entered] at hdepth
    exact hdepth
  | later ends visits ih =>
    rename_i s _ m m₁ _ _ _ _
    rw [← (restores_runStmt settings steps s).depth_eq ends]
    exact ih

end Depth

/-- In the state `m`, a call comes to a function and to as many arguments as it has parameters. It is
then made in the state `m'`. -/
def Calls (settings : Settings) (steps : Nat) (callee : Expr) (args : List Expr) (m : Machine)
    (f : Function) (vs : List Value) (m' : Machine) : Prop :=
  ∃ m₁ m₂, evaluate settings steps callee m = (.ok (.function f), m₁) ∧
    evaluateAll (evaluators settings steps) args m₁ = (.ok vs, m₂) ∧
    vs.length = f.params.length ∧ trace settings (.call f.name vs) m₂ = (.ok (), m')

section Calls

variable {steps : Nat} {callee : Expr} {args : List Expr} {m m' : Machine} {f : Function}
  {vs : List Value}

/-- The evaluation of a call that can be made is the call of its function. -/
theorem Calls.evaluate_eq (h : Calls settings steps callee args m f vs m') :
    evaluate settings (steps + 1) (.call callee args) m =
      (if f.native then callBuiltin settings f vs
        else callDefined settings (evaluators settings steps) f vs) m' := by
  obtain ⟨m₁, m₂, hcallee, hargs, hlength, htold⟩ := h
  have harity : (vs.length != f.params.length) = false := by simp [hlength]
  have hstep : evaluate settings (steps + 1) (.call callee args) =
      evaluate settings steps callee >>= fun v =>
        evaluateAll (evaluators settings steps) args >>= fun ws =>
          call settings (evaluators settings steps) v ws := rfl
  rw [hstep, bind_of_ok hcallee, bind_of_ok hargs]
  simp only [call, harity]
  exact bind_of_ok htold

/-- The callee and the arguments are evaluated at the depth of the call. -/
theorem Calls.depth (h : Calls settings steps callee args m f vs m') :
    m'.callDepth = m.callDepth := by
  obtain ⟨m₁, m₂, hcallee, hargs, -, htold⟩ := h
  have hr := evaluators_restore settings steps
  have hcomposed : Composed (fun _ => True) (fun _ => True) .quiet fun _ r => evaluateAll r args :=
    composed_evaluateAll common_true fun _ _ => trivial
  have hall := hcomposed.restores settings hr
  calc m'.callDepth = m₂.callDepth := (restores_trace settings _).depth_eq htold
    _ = m₁.callDepth := hall.depth_eq hargs
    _ = m.callDepth := (hr.evaluate callee).depth_eq hcallee

end Calls

/-- A built-in does not see the depth or the limit. -/
theorem callBuiltin_depth (f : Function) (vs : List Value) (m : Machine) (limit : Int) (depth : Nat) :
    callBuiltin (settings.withLimit limit) f vs { m with callDepth := depth } =
      ((callBuiltin settings f vs m).1,
        { (callBuiltin settings f vs m).2 with callDepth := depth }) := by
  unfold callBuiltin
  cases Builtin.ofName? f.name with
  | none => rfl
  | some b =>
    unfold Builtin.apply
    cases b with
    | input => rfl
    | _ =>
      dsimp only
      generalize Builtin.answer _ _ = answer
      cases answer <;> rfl

end Eval

/-- The state in which the body of a function starts, one call deeper and in a frame of its own. -/
def Machine.called (m : Machine) (f : Function) : Machine :=
  { m.inner (f.closure.getD globals) with callDepth := m.callDepth + 1 }

def Evaluators.after (r : Evaluators) (t : Task) (m : Machine) : Machine :=
  match t with
  | .expr e => (r.evaluate e m).2
  | .stmt s => (r.execute s m).2

theorem Evaluators.Restore.after {r : Evaluators} (hr : r.Restore) (t : Task) (m : Machine) :
    (r.after t m).place = m.place := by
  cases t with
  | expr e => exact hr.evaluate e m
  | stmt s => exact hr.execute s m

namespace Eval.Calls

variable {settings : Settings} {left : Nat} {callee : Expr} {args : List Expr} {m m' : Machine}
  {f : Function} {vs : List Value}

/-- At the limit a call of a function of the program fails in the state in which it is made. -/
theorem evaluate_reached (h : Calls settings left callee args m f vs m') (hnative : f.native = false)
    (hreached : settings.callLimit ≤ m'.callDepth) :
    evaluate settings (left + 1) (.call callee args) m =
      (.error (.error (.callDepth settings.callLimit)), m') := by
  rw [h.evaluate_eq, if_neg (by simp [hnative]), callDefined_eq, bind_apply, enter_of_le hreached]

/-- Below the limit its body runs one call deeper, and the call ends where it is made. -/
theorem evaluate_body (h : Calls settings left callee args m f vs m') (hnative : f.native = false)
    (hbelow : m'.callDepth < settings.callLimit) :
    let body := callBody (evaluators settings left) f vs (m'.called f)
    evaluate settings (left + 1) (.call callee args) m =
      (ofExcept body.1 >>= leaveCall)
        { body.2 with active := m'.active, callDepth := m'.callDepth } := by
  have hbody : Restores (callBody (evaluators settings left) f vs) :=
    (composed_callBody common_true f vs).restores settings (evaluators_restore settings left)
  rcases hrun : callBody (evaluators settings left) f vs (m'.called f) with ⟨outcome, m₂⟩
  -- the body is left as deep as it was entered
  have hdepth : m₂.callDepth - 1 = m'.callDepth := by
    rw [hbody.depth_eq hrun]
    rfl
  have hcalled : { m'.inner (f.closure.getD globals) with callDepth := m'.callDepth + 1 } =
      m'.called f := rfl
  rw [h.evaluate_eq, if_neg (by simp [hnative]), callDefined_eq, bind_apply, enter_of_lt hbelow,
    hcalled, hrun]
  dsimp only
  rw [hdepth]
  cases outcome <;> rfl

end Eval.Calls

open Eval (Visits Ends evaluators) in
/-- The limit on the depth of calls only cuts runs off. A statement that ends without the error of
the limit ends in the same way, and in the same state, below any larger limit that the host can do
with; below one that it cannot do with, no statement of a program is executed. In a run from depth
zero, the depth is within the limit before and after everything that the run reaches. A call is made
at the depth of the expression: a built-in runs at this depth and sees neither it nor the limit, and a
body is entered one deeper, unless the limit is reached. -/
theorem call_limit_only_cuts (settings : Settings) (m : Machine) :
    (∀ limit steps more s, settings.callLimit ≤ limit → steps ≤ more →
      (Ends (Eval.execute settings steps s m).1 →
        Eval.execute (settings.withLimit limit) more s m = Eval.execute settings steps s m) ∧
      ((settings.withLimit limit).FitsHost → Ends (Eval.runStmt settings steps s m).1 →
        Eval.runStmt (settings.withLimit limit) more s m = Eval.runStmt settings steps s m) ∧
      (¬ (settings.withLimit limit).FitsHost →
        Eval.runStmt (settings.withLimit limit) more s m =
          (.error (.defect .limitTooLarge), Eval.entered settings s m))) ∧
    (m.callDepth = 0 → ∀ p steps left t m', Visits settings steps p m left t m' →
      (m'.callDepth : Int) ≤ max 0 settings.callLimit ∧
        ((evaluators settings left).after t m').callDepth = m'.callDepth) ∧
    (∀ left callee args m₁ f vs m', Eval.Calls settings left callee args m₁ f vs m' →
      m'.callDepth = m₁.callDepth ∧
      (f.native = true →
        Eval.evaluate settings (left + 1) (.call callee args) m₁ = Eval.callBuiltin settings f vs m' ∧
        ∀ limit depth,
          Eval.callBuiltin (settings.withLimit limit) f vs { m' with callDepth := depth } =
            ((Eval.callBuiltin settings f vs m').1,
              { (Eval.callBuiltin settings f vs m').2 with callDepth := depth })) ∧
      (f.native = false → settings.callLimit ≤ m'.callDepth →
        Eval.evaluate settings (left + 1) (.call callee args) m₁ =
          (.error (.error (.callDepth settings.callLimit)), m')) ∧
      (f.native = false → m'.callDepth < settings.callLimit →
        ((m'.called f).callDepth : Int) ≤ settings.callLimit ∧
        let body := Eval.callBody (evaluators settings left) f vs (m'.called f)
        Eval.evaluate settings (left + 1) (.call callee args) m₁ =
          (Eval.ofExcept body.1 >>= Eval.leaveCall)
            { body.2 with active := m'.active, callDepth := m'.callDepth })) := by
  refine ⟨fun limit steps more s hlimit hmore => ⟨?_, fun hfits => ?_, fun hlarge => ?_⟩,
    fun hzero p steps left t m' hvisits => ?_, fun left callee args m₁ f vs m' hcalls => ?_⟩
  · exact ((Eval.evaluators_follow hlimit hmore).execute s).eq_of_ends
  · exact (Eval.follows_runStmt hlimit (fun _ => hfits) hmore s).eq_of_ends
  · rw [Eval.runStmt_apply, Eval.bind_of_error (Eval.onHostStack_of_lt (Int.not_le.mp hlarge) _ _)]
    rfl
  · constructor
    · have hdepth := hvisits.depth
      rw [hzero] at hdepth
      exact hdepth
    · exact congrArg Prod.snd ((Eval.evaluators_restore settings left).after t m')
  · refine ⟨hcalls.depth, fun hnative => ⟨?_, ?_⟩, fun hnative hreached => ?_,
      fun hnative hbelow => ⟨hbelow, ?_⟩⟩
    · rw [hcalls.evaluate_eq, if_pos hnative]
    · exact fun limit depth => Eval.callBuiltin_depth f vs m' limit depth
    · exact hcalls.evaluate_reached hnative hreached
    · exact hcalls.evaluate_body hnative hbelow

/-- Calls nested two deep are the same below the limits two and nine. At the limit zero the built-in
`input` can still be called. -/
theorem call_limit_only_cuts_nested :
    let s : Stmt := .block
      [.function (.text "g") [.text "x"] [.return_ (some (.name (.text "x")))],
        .function (.text "f") [.text "x"]
          [.return_ (some (.call (.name (.text "g")) [.name (.text "x")]))],
        .print (.call (.name (.text "f")) [.text "deep"])]
    let m := Machine.fresh "line"
    let input : Function := Builtin.input.function none
    Eval.runStmt (({ callLimit := 2 } : Settings).withLimit 9) 12 s m =
        Eval.runStmt { callLimit := 2 } 11 s m ∧
      Eval.evaluate { callLimit := 0 } 2 (.call (.name (.text "input")) []) m =
        Eval.callBuiltin { callLimit := 0 } input [] { m with told := 1 } := by
  intro s m input
  constructor
  · have hends : Eval.Ends (Eval.runStmt { callLimit := 2 } 11 s m).1 :=
      Eval.ends_of_isOk (by decide +kernel)
    exact ((call_limit_only_cuts { callLimit := 2 } m).1 9 11 12 s (by decide) (by decide)).2.1
      (by decide) hends
  · have hcalls : Eval.Calls { callLimit := 0 } 1 (.name (.text "input")) [] m input []
        { m with told := 1 } := ⟨m, m, rfl, rfl, rfl, rfl⟩
    exact (((call_limit_only_cuts { callLimit := 0 } m).2.2 1 _ _ _ _ _ _ hcalls).2.1 rfl).1

/-- A larger limit can be one that the host cannot do with: a statement that comes to its end below the
limit 200 is not executed below the limit 50000000. -/
theorem call_limit_beyond_host :
    let s : Stmt := .expr (.number 1)
    let m := Machine.fresh ""
    (Eval.runStmt {} 2 s m).1.isOk = true ∧
      (Eval.runStmt (({} : Settings).withLimit 50000000) 2 s m).1 = .error (.defect .limitTooLarge) :=
  ⟨rfl, rfl⟩

end Scripting
