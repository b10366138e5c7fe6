import Scripting.Parser.Statement
import Scripting.Proofs.Eval.Restored

/-!
The trace of a run. A run tells the same messages whatever the level of detail, and each message has a
level of its own. The level of detail decides which of them are worded and written. Nothing else depends
on it, except that the stack of the host has to hold the wording: where it does not, the run ends.
-/

namespace Scripting

def Settings.atLevel (settings : Settings) (level : Int) : Settings :=
  { settings with debugLevel := level }

/-- A message of a run, how many there were before it, and the state but for the journal in which the
run ends if the stack of the host does not hold its wording. -/
structure Event where
  number : Nat
  message : Message
  state : Machine

namespace Event

def map (change : Machine → Machine) (e : Event) : Event := { e with state := change e.state }

end Event

namespace Eval

variable {α β : Type} {settings : Settings}

/-- How a run goes that tells these messages: it ends as it would without any of them, or with a failure
at the first one of its level that the stack of the host does not hold. -/
def replay (settings : Settings) (level : Int) (failure : Failure)
    (last : Except Failure α × Machine) : List Event → Journal → Except Failure α × Machine
  | [], j => (last.1, { last.2 with journal := j })
  | e :: rest, j =>
    if level < e.message.level then replay settings level failure last rest j
    else if settings.holds e.number e.message then
      replay settings level failure last rest (j.add e.message.line)
    else (.error failure, { e.state with journal := j })

section Replay

variable {level : Int} {failure : Failure} {last : Except Failure α × Machine}

/-- What `k` makes of a run, when it makes a run of the end and passes the failure on. -/
theorem replay_then {failure' : Failure} {last' : Except Failure β × Machine} {events' : List Event}
    {change : Machine → Machine} {k : Except Failure α × Machine → Except Failure β × Machine}
    (hlast : ∀ j, k (last.1, { last.2 with journal := j }) =
      replay settings level failure' last' events' j)
    (hfails : ∀ m j, k (.error failure, { m with journal := j }) =
      (.error failure', { change m with journal := j }))
    (events : List Event) (j : Journal) :
    k (replay settings level failure last events j) =
      replay settings level failure' last' (events.map (.map change) ++ events') j := by
  induction events generalizing j with
  | nil => exact hlast j
  | cons e rest ih =>
    simp only [List.map_cons, List.cons_append, replay, Event.map]
    by_cases hlevel : level < e.message.level
    · simp only [hlevel, if_true]
      exact ih j
    · by_cases hholds : settings.holds e.number e.message = true
      · simp only [hlevel, hholds, if_true, if_false]
        exact ih _
      · simp only [hlevel, hholds, if_false]
        exact hfails e.state j

end Replay

/-- A computation, given the level of detail, tells messages that do not depend on the level, and ends
with a failure if the stack of the host does not hold one of those that are worded. Otherwise its outcome
and the state depend neither on the level nor on the journal. -/
def Graded (settings : Settings) (failure : Failure) (a : (level : Int) → Eval α) : Prop :=
  ∀ m : Machine, ∃ (last : Except Failure α × Machine) (events : List Event), ∀ level journal,
    a level { m with journal := journal } = replay settings level failure last events journal

/-- A computation that tells nothing. -/
theorem graded_of_journal {failure : Failure} {a : Int → Eval α}
    (h : ∀ k m j, a k { m with journal := j } = ((a 0 m).1, { (a 0 m).2 with journal := j })) :
    Graded settings failure a :=
  fun m => ⟨a 0 m, [], fun k j => h k m j⟩

/-- What a second computation makes of the end of a first one. -/
def onward (f : α → Eval β) : Except Failure α × Machine → Except Failure β × Machine
  | (.ok x, m) => f x m
  | (.error e, m) => (.error e, m)

/-- Messages of two parts stand one after the other; if the first part does not end well, there are no
others. -/
theorem Graded.bind {failure : Failure} {a : Int → Eval α} {f : Int → α → Eval β}
    (ha : Graded settings failure a) (hf : ∀ x, Graded settings failure fun k => f k x) :
    Graded settings failure fun k => a k >>= f k := by
  intro m
  obtain ⟨⟨outcome, m₁⟩, events, hrun⟩ := ha m
  obtain ⟨last, events', hend⟩ : ∃ (last : Except Failure β × Machine) (events' : List Event),
      ∀ k j, onward (f k) (outcome, { m₁ with journal := j }) =
        replay settings k failure last events' j := by
    cases outcome with
    | ok x => exact hf x m₁
    | error e => exact ⟨(.error e, m₁), [], fun _ _ => rfl⟩
  refine ⟨last, events.map (.map id) ++ events', fun k j => ?_⟩
  refine (bind_apply (a k) (f k) _).trans ?_
  rw [hrun]
  exact replay_then (k := onward (f k)) (hend k) (fun _ _ => rfl) events j

/-- A computation inside of another one, which starts in another state and changes what comes of it. -/
theorem Graded.inside {failure failure' : Failure} {a : Int → Eval α} {b : Int → Eval β}
    (ha : Graded settings failure a) (outcome : Except Failure α → Except Failure β)
    (hfailure : outcome (.error failure) = .error failure') (change : Machine → Machine)
    (hchange : ∀ m j, change { m with journal := j } = { change m with journal := j })
    {m : Machine} (m₀ : Machine)
    (hb : ∀ k j, b k { m with journal := j } = (outcome (a k { m₀ with journal := j }).1,
      change (a k { m₀ with journal := j }).2)) :
    ∃ (last : Except Failure β × Machine) (events : List Event), ∀ level journal,
      b level { m with journal := journal } =
        replay settings level failure' last events journal := by
  obtain ⟨last, events, hrun⟩ := ha m₀
  refine ⟨(outcome last.1, change last.2), events.map (.map change) ++ [], fun k j => ?_⟩
  rw [hb, hrun]
  exact replay_then (k := fun r => (outcome r.1, change r.2))
    (fun j => Prod.ext rfl (hchange last.2 j)) (fun m j => Prod.ext hfailure (hchange m j)) events j

theorem Graded.inScope {failure : Failure} {a : Int → Eval α} (ha : Graded settings failure a) :
    Graded settings failure fun k => inScope (a k) := fun m =>
  ha.inside id rfl (fun m' => { m' with active := m.active }) (fun _ _ => rfl)
    (m.inner m.active) fun _ _ => rfl

theorem Graded.enter {failure : Failure} {a : Int → Eval α} (ha : Graded settings failure a)
    (closure : FrameId) :
    Graded settings failure fun k => enter (settings.atLevel k) closure (a k) := by
  intro m
  by_cases h : settings.callLimit ≤ m.callDepth
  · refine ⟨(.error (.error (.callDepth settings.callLimit)), m), [], fun k j => ?_⟩
    exact enter_of_le (m := { m with journal := j }) h closure (a k)
  · refine ha.inside id rfl
      (fun m' => { m' with active := m.active, callDepth := m'.callDepth - 1 }) (fun _ _ => rfl)
      { m.inner closure with callDepth := m.callDepth + 1 } fun k j => ?_
    exact enter_of_lt (m := { m with journal := j }) (Int.not_le.mp h) closure (a k)

theorem Graded.repeated {failure : Failure} {a : Int → Eval (Option α)}
    (ha : Graded settings failure a) (rounds : Nat) :
    Graded settings failure fun k => repeated (a k) rounds := by
  induction rounds with
  | zero => exact graded_of_journal fun _ _ _ => rfl
  | succ rounds ih =>
    refine ha.bind fun x => ?_
    cases x with
    | some x => exact graded_of_journal fun _ _ _ => rfl
    | none => exact ih

/-- A message that the stack of the host does not hold ends the run with an error of the language. -/
theorem Graded.onHostStack {a : Int → Eval α} (ha : Graded settings .exhausted a) :
    Graded settings (.error .stackExhausted) fun k => onHostStack (settings.atLevel k) (a k) := by
  intro m
  rcases Int.lt_or_le settings.host.greatestLimit settings.stackLimit with h | h
  · refine ⟨(.error (.defect .limitTooLarge), m), [], fun k j => ?_⟩
    have h : (settings.atLevel k).host.greatestLimit < (settings.atLevel k).stackLimit := h
    exact onHostStack_of_lt h (a k) { m with journal := j }
  · refine ha.inside unwound rfl id (fun _ _ => rfl) m fun k j => ?_
    exact onHostStack_of_le (show (settings.atLevel k).FitsHost from h) (a k) { m with journal := j }

end Eval

namespace Eval

variable {α β : Type} {settings : Settings}

/-- A computation tells a message in a state and goes on: if the message is worded, its line is written,
or the stack of the host does not hold it. -/
def Tells (settings : Settings) (message : Message) (rest : Eval α) (m : Machine)
    (run : Except Failure α × Machine) : Prop :=
  (settings.debugLevel < message.level → run = rest { m with told := m.told + 1 }) ∧
  (message.level ≤ settings.debugLevel →
    (settings.holds m.told message = true →
      run = rest { m with journal := m.journal.add message.line, told := m.told + 1 }) ∧
    (settings.holds m.told message = false →
      run = (.error .exhausted, { m with told := m.told + 1 })))

theorem Tells.behind {message : Message} {rest : Eval β} {a : Eval α} {f : α → Eval β} {x : α}
    {m m₁ m' : Machine} (ha : a m = (.ok x, m₁)) (hf : Tells settings message rest m' (f x m₁)) :
    Tells settings message rest m' ((a >>= f) m) := by
  rwa [bind_of_ok ha]

end Eval

example :
    let source := "let x = 1; if x > 0 { const y = length([x]); }"
    let trace := fun level => (Eval.runAll { debugLevel := level } 9 .null
      ((parse none source).toOption.getD []) (Machine.fresh "")).2.journal.file
    trace 1 = "exec LetStmt\nexec IfStmt\n" ∧
    trace 2 = "exec LetStmt\nlet x = 1 (depth 0)\nexec IfStmt\nconst y = 1\n" ∧
    trace 3 = "exec LetStmt\nlet x = 1 (depth 0)\nexec IfStmt\nif condition true -> True\n" ++
      "call length([1])\nconst y = 1\n" := by
  decide +kernel

end Scripting
