import Scripting.Proofs.Eval.Regime

/-!
What flows through a rule. Every rule keeps to the regimes that admit its form: it asks for parts that
may occur, a function is made in the active frame, is found in a value that is at hand, or is built in,
and the rule fails only as it may. This is the walk through all rules, done once; a law about what comes
up in a run is an induction on `Flows`, and a law that asks nothing of it is one on `Composed`, to which
`Flows` leads.
-/

namespace Scripting.Eval

variable {α β : Type}

def find (name : Name) : Eval (Option Value) := do return (← store).get? (← activeFrame) name

def activeDepth : Eval Nat := do return (← store).depth (← activeFrame)

theorem executeStep_let (settings : Settings) (r : Evaluators) (name : Name) (e : Expr) :
    executeStep settings r (.let_ name e) = (do
      let v ← r.evaluate e
      Eval.bind name v
      let depth ← activeDepth
      trace settings (.let_ name v depth)
      return .value .null) := by
  simp only [executeStep, activeDepth, bind_assoc, pure_bind]

/-- A rule keeps to a regime when there are at least a number of frames, and its answer has a
property. It is composed of steps that fail as they may and of calls of the evaluators for tasks among
`T`. The body of a function is among the tasks of the regime. -/
inductive Flows (R : Regime) :
    (frames : Nat) → Tasks → Effect → {α : Type} → R.Mark α → (Settings → Evaluators → Eval α) → Prop
  | pure {n : Nat} {T : Tasks} {k : Effect} {α : Type} {Q : R.Mark α} {x : α} (h : Q.holds n x) :
      Flows R n T k Q fun _ _ => pure x
  | throw {n : Nat} {T : Tasks} {k : Effect} {α : Type} {Q : R.Mark α} {f : Failure}
      (h : R.failure f) : Flows R n T k Q fun _ _ => throw f
  | activeFrame {n : Nat} {T : Tasks} {k : Effect} : Flows R n T k R.place fun _ _ => activeFrame
  | find {n : Nat} {T : Tasks} {k : Effect} (name : Name) :
      Flows R n T k R.value.opt fun _ _ => find name
  | activeDepth {n : Nat} {T : Tasks} {k : Effect} :
      Flows R n T k (R.any Nat) fun _ _ => activeDepth
  | assignStore {n : Nat} {T : Tasks} {k : Effect} (name : Name) {v : Value}
      (h : R.value.holds n v) : Flows R n T k (R.any Store.Assigned) fun _ _ => assignStore name v
  | set {n : Nat} {T : Tasks} (name : Name) {v : Value} (h : R.value.holds n v) :
      Flows R n T .declaring (R.any Unit) fun _ _ =>
        changeStore fun active store => store.set active name v
  | declareConstant {n : Nat} {T : Tasks} (name : Name) {v : Value} (h : R.value.holds n v) :
      Flows R n T .declaring (R.any Unit) fun _ _ =>
        changeStore fun active store => store.declareConstant active name v
  | printLine {n : Nat} {T : Tasks} {k : Effect} (line : String) :
      Flows R n T k (R.any Unit) fun _ _ => printLine line
  | readLine {n : Nat} {T : Tasks} {k : Effect} :
      Flows R n T k (R.any String) fun settings _ => readLine settings
  | trace {n : Nat} {T : Tasks} {k : Effect} (message : Message) :
      Flows R n T k (R.any Unit) fun settings _ => trace settings message
  | evaluate {n : Nat} {T : Tasks} {k : Effect} {e : Expr} (h : T.expr e) :
      Flows R n T k R.value fun _ r => r.evaluate e
  | execute {n : Nat} {T : Tasks} {σ : Signals} {s : Stmt} (h : T.stmt σ s) :
      Flows R n T .declaring (R.outcome σ) fun _ r => r.execute s
  | bind {n : Nat} {T : Tasks} {k : Effect} {α β : Type} {Q : R.Mark α} {Q' : R.Mark β}
      {c : Settings → Evaluators → Eval α} {d : Settings → Evaluators → α → Eval β}
      (first : Flows R n T k Q c)
      (rest : ∀ n', n ≤ n' → ∀ x, Q.holds n' x →
        Flows R n' T k Q' fun settings r => d settings r x) :
      Flows R n T k Q' fun settings r => c settings r >>= d settings r
  | inScope {n : Nat} {T : Tasks} {k : Effect} {α : Type} {Q : R.Mark α}
      {c : Settings → Evaluators → Eval α} (h : Flows R n T .declaring Q c) :
      Flows R n T k Q fun settings r => inScope (c settings r)
  | enter {n : Nat} {T : Tasks} {k : Effect} {α : Type} {Q : R.Mark α}
      {c : Settings → Evaluators → Eval α} {closure : FrameId} (hclosure : R.frame n closure)
      (h : Flows R n R.tasks .declaring Q c) :
      Flows R n T k Q fun settings r => enter settings closure (c settings r)
  | repeated {n : Nat} {T : Tasks} {k : Effect} {α : Type} {Q : R.Mark α}
      {c : Settings → Evaluators → Eval (Option α)} (stops : R.failure .outOfSteps)
      (h : Flows R n T k Q.opt c) :
      Flows R n T k Q fun settings r => repeated (c settings r) r.rounds

section Rules

variable {R : Regime} {n : Nat} {T : Tasks} {k : Effect} {σ : Signals}

theorem flows_ordinary {Q : R.Mark α} {e : RuntimeError} (he : e.isOrdinary = true) :
    Flows R n T k Q fun _ _ => (fail e : Eval α) := .throw (R.tolerant e he)

theorem flows_answer {x : Answer} (h : x.All (R.content n) R.failure) :
    Flows R n T k R.value fun _ _ => ofExcept x := by
  cases x with
  | ok v => exact .pure h
  | error e => exact .throw h

theorem flows_requireKey {name : Name} (hname : R.Key name) :
    Flows R n T k (R.any Unit) fun _ _ => requireKey name := by
  unfold requireKey
  split
  · exact .pure trivial
  · rename_i h
    exact .throw (hname.resolve_left h)

theorem flows_bind {name : Name} (hname : R.Key name) {v : Value} (hv : R.value.holds n v) :
    Flows R n T .declaring (R.any Unit) fun _ _ => Eval.bind name v :=
  .bind (flows_requireKey hname) fun _ hn _ _ => .set name (R.value.mono hn hv)

theorem flows_bindConstant {name : Name} (hname : R.Key name) {v : Value}
    (hv : R.value.holds n v) :
    Flows R n T .declaring (R.any Unit) fun _ _ => bindConstant name v :=
  .bind (flows_requireKey hname) fun _ hn _ _ => .declareConstant name (R.value.mono hn hv)

theorem flows_lookup {name : Name} (hname : R.Key name) :
    Flows R n T k R.value.opt fun _ _ => lookup name :=
  .bind (flows_requireKey hname) fun _ _ _ _ => .find name

theorem flows_assign {name : Name} (hname : R.Key name) {v : Value} (hv : R.value.holds n v) :
    Flows R n T k (R.any Unit) fun _ _ => assign name v := by
  refine .bind (flows_requireKey hname) fun _ hn _ _ =>
    .bind (.assignStore name (R.value.mono hn hv)) fun _ _ a _ => ?_
  cases a with
  | done => exact .pure trivial
  | undefined => exact flows_ordinary rfl
  | constant => exact flows_ordinary rfl

theorem flows_executeAll {last : Value} (hlast : R.value.holds n last) {ss : List Stmt}
    (hss : T.Body σ ss) :
    Flows R n T .declaring (R.outcome σ) fun _ r => executeAll r last ss := by
  induction ss generalizing last n with
  | nil => exact .pure hlast
  | cons s rest ih =>
    refine .bind (.execute (hss s List.mem_cons_self)) fun _ _ o ho => ?_
    cases o with
    | value v => exact ih ho fun s' h => hss s' (List.mem_cons_of_mem s h)
    | returned v => exact .pure ho
    | broken => exact .pure ho
    | continued => exact .pure ho

theorem flows_executeBlock {ss : List Stmt} (hss : T.Body σ ss) :
    Flows R n T k (R.outcome σ) fun _ r => executeBlock r ss :=
  .inScope (flows_executeAll .null hss)

theorem flows_evaluateAll {es : List Expr} (hes : ∀ e ∈ es, T.expr e) :
    Flows R n T k R.value.each fun _ r => evaluateAll r es := by
  induction es generalizing n with
  | nil => exact .pure fun _ h => nomatch h
  | cons e rest ih =>
    -- The value of the first expression is held while the others are evaluated.
    exact .bind (.evaluate (hes e List.mem_cons_self)) fun _ _ v hv =>
      .bind (ih fun e' h => hes e' (List.mem_cons_of_mem e h)) fun _ hn vs hvs =>
        .pure (List.forall_mem_cons.mpr ⟨R.value.mono hn hv, hvs⟩)

theorem flows_evaluatePairs {fields : List (Name × Value)} (hfields : R.fields.holds n fields)
    {ps : List (Expr × Expr)} (hps : ∀ p ∈ ps, T.expr p.1 ∧ T.expr p.2) :
    Flows R n T k R.fields fun _ r => evaluatePairs r fields ps := by
  induction ps generalizing fields n with
  | nil => exact .pure hfields
  | cons p rest ih =>
    obtain ⟨key, e⟩ := p
    obtain ⟨hkey, he⟩ := hps (key, e) List.mem_cons_self
    refine .bind (.evaluate hkey) fun _ hn v _ => ?_
    cases v
    case text name =>
      exact .bind (.evaluate he) fun _ hn' _ hv =>
        ih (FieldsAll.put (R.fields.mono (Nat.le_trans hn hn') hfields) _ hv)
          fun p h => hps p (List.mem_cons_of_mem _ h)
    all_goals exact flows_ordinary rfl

theorem flows_evaluateFields {fields : List (Name × Value)} (hfields : R.fields.holds n fields)
    {fs : List (Name × Expr)} (hfs : ∀ f ∈ fs, R.Key f.1 ∧ T.expr f.2) :
    Flows R n T k R.fields fun _ r => evaluateFields r fields fs := by
  induction fs generalizing fields n with
  | nil => exact .pure hfields
  | cons f rest ih =>
    obtain ⟨name, e⟩ := f
    obtain ⟨hname, he⟩ := hfs (name, e) List.mem_cons_self
    exact .bind (.evaluate he) fun _ hn v hv =>
      .bind (flows_requireKey hname) fun _ hn' _ _ =>
        ih (FieldsAll.put (R.fields.mono (Nat.le_trans hn hn') hfields) name (R.value.mono hn' hv))
          fun f h => hfs f (List.mem_cons_of_mem _ h)

/-- The fields of a record get other values and stay in their order. -/
theorem flows_evaluateRecord (t : RecordType) {fields : List (Name × Value)}
    (hfields : R.fields.holds n fields) (hnames : Named.names fields = Named.names t.fields)
    {fs : List (Name × Expr)} (hfs : ∀ f ∈ fs, R.Key f.1 ∧ T.expr f.2) :
    Flows R n T k (R.recordOf t) fun _ r => evaluateRecord r t fields fs := by
  induction fs generalizing fields n with
  | nil => exact .pure ⟨hfields, R.declared hnames⟩
  | cons f rest ih =>
    obtain ⟨name, e⟩ := f
    obtain ⟨hname, he⟩ := hfs (name, e) List.mem_cons_self
    refine .bind (flows_requireKey hname) fun _ hn _ _ => ?_
    split
    · rename_i hdeclared
      have hhas : Named.has name fields = true := by
        rw [← Named.contains_names, hnames, Named.contains_names, hdeclared]
      exact .bind (.evaluate he) fun _ hn' v hv =>
        ih (FieldsAll.put (R.fields.mono (Nat.le_trans hn hn') hfields) name hv)
          ((Named.names_put_of_has hhas v).trans hnames) fun f h => hfs f (List.mem_cons_of_mem _ h)
    · exact flows_ordinary rfl

theorem flows_bindParams {ps : List Name} (hps : ∀ p ∈ ps, R.Key p) {args : List Value}
    (hargs : R.value.each.holds n args) :
    Flows R n T .declaring (R.any Unit) fun _ _ => bindParams ps args := by
  induction ps generalizing args n with
  | nil => exact .pure trivial
  | cons p rest ih =>
    cases args with
    | nil => exact .pure trivial
    | cons v args =>
      exact .bind (flows_bind (hps p List.mem_cons_self) (hargs v List.mem_cons_self))
        fun _ hn _ _ => ih (fun q h => hps q (List.mem_cons_of_mem p h))
          (R.value.each.mono hn fun w h => hargs w (List.mem_cons_of_mem v h))

theorem flows_callBody {f : Function} (hf : f.All (R.content n)) (hparams : ∀ p ∈ f.params, R.Key p)
    (hbody : T.Body σ f.body) {args : List Value} (hargs : R.value.each.holds n args) :
    Flows R n T .declaring (R.outcome σ) fun _ r => callBody r f args := by
  have hrest : ∀ n', n ≤ n' → Flows R n' T .declaring (R.outcome σ) (fun _ r => do
      bindParams f.params args
      executeAll r .null f.body) := fun n' hn =>
    .bind (flows_bindParams hparams (R.value.each.mono hn hargs)) fun _ _ _ _ =>
      flows_executeAll .null hbody
  unfold callBody
  cases hreceiver : f.receiver with
  | some v =>
    exact .bind (flows_bind (.inl rfl) (hf.receiver hreceiver)) fun n' hn _ _ => hrest n' hn
  | none => exact hrest n (Nat.le_refl n)

/-- What leaves a call is a value. A signal of a loop does not get there, or that is left as a
failure. -/
theorem flows_leaveCall {o : Outcome} (ho : (R.outcome σ).holds n o)
    (hσ : R.signals = true ∧ σ.breaks = false ∨
      R.failure (.error .breakOutside) ∧ R.failure (.error .continueOutside)) :
    Flows R n T k R.value fun _ _ => leaveCall o := by
  have hbreaks : R.Breaks σ →
      R.failure (.error .breakOutside) ∧ R.failure (.error .continueOutside) := fun h =>
    hσ.resolve_left fun ⟨hsignals, hnone⟩ => Bool.noConfusion (hnone.symm.trans (h hsignals))
  cases o with
  | value v => exact .pure ho
  | returned v => exact .pure ho.2
  | broken => exact .throw (hbreaks ho).1
  | continued => exact .throw (hbreaks ho).2

theorem flows_callDefined {f : Function} (hf : f.All (R.content n)) (hnative : f.native = false)
    {args : List Value} (hargs : R.value.each.holds n args) :
    Flows R n T k R.value fun settings r => callDefined settings r f args := by
  obtain ⟨hparams, σ, hbody, hσ⟩ := R.defined hf.own hnative
  simp only [callDefined_eq]
  exact .bind (.enter (R.home hf.own hnative) (flows_callBody hf hparams hbody hargs))
    fun _ _ _ ho => flows_leaveCall ho hσ

/-- A call of a built-in answers with what it is known to answer, given known arguments. -/
theorem flows_callBuiltin {f : Function} (hf : f.All (R.content n)) (hnative : f.native = true)
    {args : List Value} (hlength : args.length = f.params.length)
    (hargs : R.value.each.holds n args) :
    Flows R n T k R.value fun settings _ => callBuiltin settings f args := by
  have hall : ∀ v ∈ f.receiver.toList ++ args, v.All (R.content n) := by
    intro v hv
    rcases List.mem_append.mp hv with hv | hv
    · exact hf.receiver (Option.mem_toList.mp hv)
    · exact hargs v hv
  have htakes := R.native hf.own hnative hlength
  unfold callBuiltin
  split
  · rename_i hb
    rcases htakes with ⟨b, hb', -⟩ | h
    · rw [hb] at hb'
      cases hb'
    · exact .throw h.2
  · rename_i b hb
    have haccepts : b.accepts (f.receiver.toList ++ args) = true ∨ R.failure (.defect .wrongType) := by
      rcases htakes with ⟨b', hb', h⟩ | h
      · obtain rfl := Option.some.inj (hb.symm.trans hb')
        exact .inl h
      · exact .inr h.1
    unfold Builtin.apply
    split
    · exact .bind .readLine fun _ _ _ _ => .pure (.text _)
    · rename_i hinput
      exact flows_answer (Builtin.all_answer R.tolerant hinput haccepts hall)

/-- A call of a known value with known arguments has a known answer. -/
theorem flows_call {callee : Value} (hcallee : R.value.holds n callee) {args : List Value}
    (hargs : R.value.each.holds n args) :
    Flows R n T k R.value fun settings r => call settings r callee args := by
  cases hcallee with
  | function hf =>
    rename_i f
    unfold call
    dsimp only
    split
    · -- The failure stands before the rest, so nothing is asked of the rest.
      exact .throw (R.tolerant _ rfl)
    · rename_i hlength
      refine .bind (.trace _) fun n' hn _ _ => ?_
      have hf' := hf.mono (R.content_mono hn)
      have hargs' := R.value.each.mono hn hargs
      split
      · rename_i hnative
        exact flows_callBuiltin hf' hnative (by simpa using hlength) hargs'
      · rename_i hnative
        exact flows_callDefined hf' (Bool.eq_false_iff.mpr hnative) hargs'
  | _ => exact flows_ordinary rfl

theorem flows_makeRecord {t : Name} (ht : R.Key t) {fs : List (Name × Expr)}
    (hfs : ∀ f ∈ fs, R.Key f.1 ∧ T.expr f.2) :
    Flows R n T k R.value fun _ r => makeRecord r t fs := by
  refine .bind (flows_lookup ht) fun _ _ v hv => ?_
  split
  · cases hv _ rfl with
    | type ht =>
      exact .bind (flows_evaluateRecord _ ht.fields rfl hfs) fun _ hn _ hfields =>
        .pure (.record (ht.mono (R.content_mono hn)) hfields.2 hfields.1)
  · exact flows_ordinary rfl

/-- One case for each form of expression. -/
theorem flows_evaluateStep {e : Expr} (he : e.Admitted R.toPolicy T) :
    Flows R n T k R.value fun settings r => evaluateStep settings r e := by
  cases e with
  | number x => exact .pure (.number x)
  | bool b => exact .pure (.bool b)
  | text s => exact .pure (.text s)
  | datum t => exact .pure (Value.all_ofTree t)
  | name name =>
    refine .bind (flows_lookup he) fun _ _ v hv => ?_
    split
    · exact flows_ordinary rfl
    · exact flows_ordinary rfl
    · exact .pure (hv _ rfl)
  | assign name e =>
    exact .bind (.evaluate he.2) fun _ _ v hv =>
      .bind (flows_assign he.1 hv) fun _ hn _ _ => .pure (R.value.mono hn hv)
  | unary op e =>
    exact .bind (.evaluate he) fun _ _ v _ => flows_answer (Value.all_applyUnary R.tolerant op v)
  | binary a op b =>
    obtain ⟨ha, hb, hmod⟩ := he
    exact .bind (.evaluate ha) fun _ _ v _ => .bind (.evaluate hb) fun _ _ w _ =>
      flows_answer (Value.all_applyBinary R.tolerant hmod v w)
  | call f args =>
    exact .bind (.evaluate he.1) fun _ _ callee hcallee =>
      .bind (flows_evaluateAll he.2) fun _ hn values hvalues =>
        flows_call (R.value.mono hn hcallee) hvalues
  | block ss =>
    obtain ⟨σ, hss, hσ⟩ := he
    refine .bind (flows_executeBlock hss) fun _ _ o ho => ?_
    rcases hσ with ⟨hsignals, rfl⟩ | hleaves
    · obtain ⟨v, rfl, hv⟩ := ho.value hsignals
      exact .pure hv
    · cases o with
      | value v => exact .pure ho
      | _ => exact .throw hleaves
  | lambda ps body =>
    exact .bind .activeFrame fun _ _ frame hframe =>
      .pure (.function (.mk (R.made _ he hframe) fun _ h => nomatch h))
  | list es => exact .bind (flows_evaluateAll he) fun _ _ _ hvs => .pure (.list hvs)
  | tuple es => exact .bind (flows_evaluateAll he) fun _ _ _ hvs => .pure (.list hvs)
  | dict ps =>
    exact .bind (flows_evaluatePairs fieldsAll_nil he) fun _ _ _ hfields =>
      .pure (.record RecordType.all_dict (R.dict _) hfields)
  | field e name =>
    exact .bind (.evaluate he.2) fun _ _ v hv => flows_answer
      (Value.all_getMember R.tolerant (fun _ _ items hb => R.listMethod items hb)
        (fun _ _ s hb => R.textMethod s hb) hv he.1)
  | index c i =>
    exact .bind (.evaluate he.1) fun _ _ v hv => .bind (.evaluate he.2) fun _ hn key _ =>
      flows_answer (Value.all_getIndex R.tolerant (R.value.mono hn hv) key)
  | record t fs => exact flows_makeRecord he.1 he.2
  | invalid s => exact .throw he
  | stray w => exact .throw he

theorem flows_whileRound {c : Expr} (hc : T.expr c) {body : List Stmt}
    (hbody : T.Body σ.inLoop body) :
    Flows R n T k (R.outcome σ).opt fun _ r => whileRound r c body := by
  have hnull : ∀ n', (R.outcome σ).opt.holds n' (some (.value .null)) := by
    rintro n' o ⟨⟩
    exact .null
  refine .bind (.evaluate hc) fun _ _ v _ => ?_
  split
  · refine .bind (flows_executeBlock hbody) fun _ _ o ho => ?_
    cases o with
    | value v => exact .pure nofun
    | returned v => exact .pure fun _ h => Option.some.inj h ▸ ho
    | broken => exact .pure (hnull _)
    | continued => exact .pure nofun
  · exact .pure (hnull _)

theorem flows_forRounds {name : Name} (hname : R.Key name) {body : List Stmt}
    (hbody : T.Body σ.inLoop body) (left : Nat) (i : Int) :
    Flows R n T k (R.outcome σ) fun _ r => forRounds r name body left i := by
  induction left generalizing i n with
  | zero => exact .pure .null
  | succ left ih =>
    simp only [forRounds_succ]
    have hround : Flows R n T .declaring (R.outcome σ.inLoop) (fun _ r => do
        Eval.bind name (.number (Float.ofInt i))
        executeAll r .null body) :=
      .bind (flows_bind hname (.number _)) fun _ _ _ _ => flows_executeAll .null hbody
    refine .bind (.inScope hround) fun _ _ o ho => ?_
    cases o with
    | value v => exact ih _
    | returned v => exact .pure ho
    | broken => exact .pure .null
    | continued => exact ih _

theorem flows_rangeBound (v : Value) :
    Flows R n T k (R.any Int) fun _ _ => rangeBound v := by
  unfold rangeBound
  split
  · split
    · exact .pure trivial
    · exact flows_ordinary rfl
  · exact flows_ordinary rfl

/-- The methods of a type are known: each is made in the active frame. -/
theorem flows_makeMethods (type : Name) {frame : FrameId} (hframe : R.frame n frame)
    {methods : List (Name × Function)} (hmethods : R.methods.holds n methods) {ss : List Stmt}
    (hss : ∀ s ∈ ss, s.IsMethod R.toPolicy) :
    Flows R n T k R.methods fun _ _ => makeMethods type frame methods ss := by
  fun_induction makeMethods type frame methods ss generalizing n with
  | case1 => exact .pure hmethods
  | case2 methods name ps body rest ih =>
    obtain ⟨hname, hfunction⟩ : R.Key name ∧ R.function ps body := hss _ List.mem_cons_self
    refine .bind (flows_requireKey hname) fun n' hn _ _ => ih (R.frame_mono hn hframe) ?_
      fun s h => hss s (List.mem_cons_of_mem _ h)
    have hmade := R.made (methodName type name) hfunction (R.frame_mono hn hframe)
    intro p hp
    rcases Named.mem_put hp with h | h
    · rw [h]
      exact ⟨.mk hmade fun _ h => (by cases h), fun v => R.bound v hmade rfl⟩
    · exact R.methods.mono hn hmethods p h
  | case3 => exact .throw (hss _ List.mem_cons_self).2
  | case4 methods s rest hnot hunusable =>
    have hs := hss _ List.mem_cons_self
    cases s with
    | function n ps body => exact absurd rfl (hnot n ps body)
    | _ => exact .throw hs.1

theorem flows_executeType {name : Name} (hname : R.Key name) {fs : List (Name × Expr)}
    (hfs : ∀ f ∈ fs, R.Key f.1 ∧ T.expr f.2) {ms : List Stmt}
    (hms : ∀ s ∈ ms, s.IsMethod R.toPolicy) :
    Flows R n T .declaring (R.outcome σ) fun settings r => executeType settings r name fs ms := by
  have hnone : ∀ n', R.methods.holds n' [] := fun _ _ h => nomatch h
  refine .bind (flows_evaluateFields fieldsAll_nil hfs) fun _ _ fields hfields =>
    .bind .activeFrame fun _ hframes frame hframe =>
      .bind (flows_makeMethods name hframe (hnone _) hms) fun _ hn methods hmethods => ?_
  have htype : R.value.holds _ (.type (.mk name fields methods)) :=
    .type (.mk (R.fields.mono (Nat.le_trans hframes hn) hfields) (fun p hp => (hmethods p hp).1)
      fun p hp => (hmethods p hp).2)
  exact .bind (flows_bind hname htype) fun _ _ _ _ => .bind (.trace _) fun _ _ _ _ => .pure .null

/-- One case for each form of statement. Only the four declarations bind a name in the active
frame. -/
theorem flows_executeStep {s : Stmt} (hs : s.Admitted R.toPolicy T σ)
    (hk : s.declared?.isSome = true → k = .declaring) :
    Flows R n T k (R.outcome σ) fun settings r => executeStep settings r s := by
  cases s with
  | expr e => exact .bind (.evaluate hs) fun _ _ _ hv => .pure hv
  | let_ name e =>
    obtain rfl := hk rfl
    simp only [executeStep_let]
    exact .bind (.evaluate hs.2) fun _ _ v hv => .bind (flows_bind hs.1 hv) fun _ _ _ _ =>
      .bind .activeDepth fun _ _ depth _ => .bind (.trace _) fun _ _ _ _ => .pure .null
  | const name e =>
    obtain rfl := hk rfl
    exact .bind (.evaluate hs.2) fun _ _ v hv => .bind (flows_bindConstant hs.1 hv)
      fun _ _ _ _ => .bind (.trace _) fun _ _ _ _ => .pure .null
  | function name ps body =>
    obtain rfl := hk rfl
    refine .bind .activeFrame fun _ _ frame hframe => ?_
    have hfunction : R.value.holds _ (.function (.mk ps body name (some frame) false none)) :=
      .function (.mk (R.made name hs.2 hframe) fun _ h => nomatch h)
    exact .bind (flows_bind hs.1 hfunction) fun _ _ _ _ =>
      .bind (.trace _) fun _ _ _ _ => .pure .null
  | return_ value =>
    cases value with
    | none => exact .pure ⟨hs.1, .null⟩
    | some e => exact .bind (.evaluate (hs.2 e rfl)) fun _ _ _ hv => .pure ⟨hs.1, hv⟩
  | if_ c t e =>
    obtain ⟨hc, ht, he⟩ := hs
    refine .bind (.evaluate hc) fun _ _ v _ => .bind (.trace _) fun _ _ _ _ => ?_
    split
    · exact flows_executeBlock ht
    · cases e with
      | some ss => exact flows_executeBlock (he ss rfl)
      | none => exact .pure .null
  | while_ c body =>
    simp only [executeStep, whileRounds_eq]
    exact .repeated hs.2.2 (flows_whileRound hs.1 hs.2.1)
  | for_ name a b body =>
    obtain ⟨hname, ha, hb, hbody⟩ := hs
    exact .bind (.evaluate ha) fun _ _ _ _ => .bind (.evaluate hb) fun _ _ _ _ =>
      .bind (flows_rangeBound _) fun _ _ _ _ => .bind (flows_rangeBound _) fun _ _ _ _ =>
        flows_forRounds hname hbody _ _
  | import_ path => exact .bind (.trace _) fun _ _ _ _ => .pure .null
  | block ss => exact flows_executeBlock hs
  | break_ => exact .pure hs
  | continue_ => exact .pure hs
  | print e =>
    exact .bind (.evaluate hs) fun _ _ _ _ => .bind (.printLine _) fun _ _ _ _ => .pure .null
  | printAll es =>
    exact .bind (flows_evaluateAll hs) fun _ _ _ _ =>
      .bind (.printLine _) fun _ _ _ _ => .pure .null
  | type name fs ms => exact hk rfl ▸ flows_executeType hs.1 hs.2.1 hs.2.2
  | invalid s => exact .throw hs
  | stray w => exact .throw hs

theorem flows_leaveProgram {o : Outcome} (ho : (R.outcome σ).holds n o) (hσ : R.Takes σ) :
    Flows R n T k R.value fun _ _ => leaveProgram o := by
  rcases hσ with ⟨hsignals, rfl⟩ | ⟨hreturn, hbreak, hcontinue⟩
  · obtain ⟨v, rfl, hv⟩ := ho.value hsignals
    exact .pure hv
  · cases o with
    | value v => exact .pure ho
    | returned v => exact .throw hreturn
    | broken => exact .throw hbreak
    | continued => exact .throw hcontinue

end Rules

end Scripting.Eval

namespace Scripting

open Eval (remainderFailure)

/-- Failures among which are all but a few: those of loops, of the remainder and of operators that
there are not. -/
def Failure.Common (F : Failure → Prop) : Prop :=
  ∀ f, f ≠ .outOfSteps → f ≠ remainderFailure → (∀ op, f ≠ .error (.unknownOperator op)) → F f

/-- The regime that asks nothing but how rules fail. -/
def Regime.free {F : Failure → Prop} (hF : Failure.Common F) : Regime where
  failure := F
  function _ _ := True
  signals := false
  tasks := .all
  known _ _ := True
  record _ _ := True
  frame _ _ := True
  shape _ := True
  known_mono _ _ := trivial
  frame_mono _ _ := trivial
  made _ _ _ := trivial
  bound _ _ _ := trivial
  listMethod _ _ := trivial
  textMethod _ _ := trivial
  home _ _ := trivial
  defined _ _ := ⟨fun _ _ => .inr (hF _ nofun nofun nofun), .any, fun _ _ => trivial,
    .inr ⟨hF _ nofun nofun nofun, hF _ nofun nofun nofun⟩⟩
  native _ _ _ := .inr ⟨hF _ nofun nofun nofun, hF _ nofun nofun nofun⟩
  dict _ := trivial
  declared _ := trivial
  child _ _ := trivial
  modify _ _ _ := trivial
  tolerant e he := hF _ nofun nofun (by rintro op ⟨⟩; cases he)
  exhausted := hF _ nofun nofun nofun

namespace Eval

section Free

variable {F : Failure → Prop} (hF : Failure.Common F)

theorem free_isFree : (Regime.free hF).IsFree :=
  ⟨fun _ _ => trivial, fun _ _ => trivial, fun _ _ => trivial, rfl⟩

theorem free_lenient : (Regime.free hF).toPolicy.Lenient where
  signals := rfl
  defect h := hF _ nofun (fun heq => h (Failure.defect.inj heq)) nofun
  error h _ := hF _ nofun nofun fun op heq => h op (Failure.error.inj heq)

variable {n : Nat} {T : Tasks} {k : Effect} {α : Type}

/-- Where nothing is asked, what flows through a rule is no restriction. -/
theorem Flows.composed {Q : (Regime.free hF).Mark α} {c : Settings → Evaluators → Eval α}
    (h : Flows (.free hF) n T k Q c) : Composed F T.Holds k c := by
  induction h with
  | pure h => exact .pure _
  | throw h => exact .throw h
  | activeFrame => exact .activeFrame
  | find name => exact .bind .store fun _ => .bind .activeFrame fun _ => .pure _
  | activeDepth => exact .bind .store fun _ => .bind .activeFrame fun _ => .pure _
  | assignStore name h => exact .assignStore name _
  | set name h => exact .set name _
  | declareConstant name h => exact .declareConstant name _
  | printLine line => exact .printLine line
  | readLine => exact .readLine
  | trace message => exact .trace message (hF _ nofun nofun nofun)
  | evaluate h => exact .evaluate h
  | execute h => exact .execute ⟨_, h⟩
  | bind first rest ih ihrest =>
    exact .bind ih fun x => ihrest _ (Nat.le_refl _) x (Regime.Mark.free _ (free_isFree hF) _ x)
  | inScope h ih => exact .inScope ih
  | enter hclosure h ih =>
    refine .enter _ (fun _ => hF _ nofun nofun nofun) ?_
    rw [← Tasks.holds_all]
    exact ih
  | repeated stops h ih => exact .repeated stops ih

include hF

theorem composed_evaluateStep {e : Expr} (hmod : ∀ a b, e = .binary a .mod b → F remainderFailure) :
    Composed F (· ∈ e.parts) k fun settings r => evaluateStep settings r e := by
  rw [← Tasks.holds_among (· ∈ e.parts)]
  exact (flows_evaluateStep (n := 0) (Expr.admitted_of_parts (free_lenient hF) (fun _ h => h)
    (fun _ _ _ => trivial) hmod)).composed

theorem composed_executeStep {s : Stmt} (hwhile : ∀ c body, s = .while_ c body → F .outOfSteps)
    (hk : s.declared?.isSome = true → k = .declaring) :
    Composed F (· ∈ s.parts) k fun settings r => executeStep settings r s := by
  rw [← Tasks.holds_among (· ∈ s.parts)]
  exact (flows_executeStep (n := 0) (Stmt.admitted_of_parts (free_lenient hF) (fun _ h => h)
    (fun _ _ _ _ => trivial) (fun _ _ _ _ _ _ _ _ => trivial) hwhile .any) hk).composed

theorem composed_call (callee : Value) (args : List Value) :
    Composed F (fun _ => True) k fun settings r => call settings r callee args := by
  rw [← Tasks.holds_all]
  exact (flows_call (n := 0) (Regime.Mark.free _ (free_isFree hF) _ callee)
    (Regime.Mark.free _ (free_isFree hF) _ args)).composed

theorem composed_callBody (f : Function) (args : List Value) :
    Composed F (fun _ => True) .declaring fun _ r => callBody r f args := by
  rw [← Tasks.holds_all]
  have hf : f.All ((Regime.free hF).content 0) :=
    Function.all_of_holds ((free_isFree hF).loose 0) f fun _ _ => trivial
  exact (flows_callBody (σ := .any) hf (fun _ _ => .inr (hF _ nofun nofun nofun)) (fun _ _ => trivial)
    (Regime.Mark.free _ (free_isFree hF) _ args)).composed

theorem composed_evaluateAll {parts : Task → Prop} {es : List Expr}
    (hes : ∀ e ∈ es, parts (.expr e)) : Composed F parts k fun _ r => evaluateAll r es := by
  rw [← Tasks.holds_among parts]
  exact (flows_evaluateAll (R := .free hF) (n := 0) hes).composed

theorem composed_evaluateFields (fs : List (Name × Expr)) :
    Composed F (fun _ => True) k fun _ r => evaluateFields r [] fs := by
  rw [← Tasks.holds_all]
  exact (flows_evaluateFields (R := .free hF) (n := 0) fieldsAll_nil
    fun _ _ => ⟨(free_lenient hF).key _, trivial⟩).composed

theorem composed_makeMethods (type : Name) (frame : FrameId) (ms : List Stmt) :
    Composed F (fun _ => True) k fun _ _ => makeMethods type frame [] ms := by
  rw [← Tasks.holds_all]
  have hframe : (Regime.free hF).frame 0 frame := trivial
  have hnone : (Regime.free hF).methods.holds 0 [] := fun _ h => nomatch h
  exact (flows_makeMethods type hframe hnone
    fun s _ => s.isMethod (free_lenient hF) fun _ _ _ _ => trivial).composed

end Free

theorem common_true : Failure.Common fun _ => True := fun _ _ _ _ => trivial

theorem composed_expr {k : Effect} (e : Expr) :
    Composed (fun _ => True) (· ∈ e.parts) k fun settings r => evaluateStep settings r e :=
  composed_evaluateStep common_true fun _ _ _ => trivial

theorem composed_stmt (s : Stmt) :
    Composed (fun _ => True) (· ∈ s.parts) .declaring fun settings r => executeStep settings r s :=
  composed_executeStep common_true (fun _ _ _ => trivial) fun _ => rfl

theorem composed_leaveProgram {k : Effect} (o : Outcome) :
    Composed (fun _ => True) (fun _ => True) k fun _ _ => leaveProgram o := by
  rw [← Tasks.holds_all]
  exact (flows_leaveProgram (R := .free common_true) (n := 0) (σ := .any)
    (Regime.Mark.free _ (free_isFree _) _ o) (.inr ⟨trivial, trivial, trivial⟩)).composed

end Eval

end Scripting
