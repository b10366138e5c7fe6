import Scripting.Proofs.Eval.Evolution

/-!
What a run reaches. A rule asks for the evaluation of a part in a state when every failure of that
evaluation becomes its own: nothing in the language catches a failure. A run reaches what it asks
for, and what that asks for in turn. So the failure of anything that is reached ends the run, and a
failure that no rule makes itself comes from something that is reached.
-/

namespace Scripting

namespace Evaluators

def Fails (r : Evaluators) (t : Task) (m : Machine) (f : Failure) : Prop :=
  match t with
  | .expr e => (r.evaluate e m).1 = .error f
  | .stmt s => (r.execute s m).1 = .error f

open Classical in
/-- The same evaluators, except that a task fails in one state. -/
noncomputable def failing (r : Evaluators) (t : Task) (m : Machine) (f : Failure) : Evaluators where
  evaluate e m' :=
    if t = .expr e ∧ m = m' then (.error f, (r.evaluate e m').2) else r.evaluate e m'
  execute s m' :=
    if t = .stmt s ∧ m = m' then (.error f, (r.execute s m').2) else r.execute s m'
  rounds := r.rounds

/-- The rule for a task asks for another task in a state: any failure there is its failure. -/
def Demands (settings : Settings) (r : Evaluators) (t : Task) (m : Machine) (t' : Task)
    (m' : Machine) : Prop :=
  ∀ f, ((r.failing t' m' f).next settings).Fails t m f

/-- A task that fails anyway can be made to fail so. -/
theorem failing_eq_self {r : Evaluators} {t : Task} {m : Machine} {f : Failure}
    (h : r.Fails t m f) : r.failing t m f = r := by
  obtain ⟨evaluate, execute, rounds⟩ := r
  simp only [failing, mk.injEq, and_true]
  constructor
  · funext e m'
    split
    · rename_i h'
      obtain ⟨rfl, rfl⟩ := h'
      exact Prod.ext h.symm rfl
    · rfl
  · funext s m'
    split
    · rename_i h'
      obtain ⟨rfl, rfl⟩ := h'
      exact Prod.ext h.symm rfl
    · rfl

end Evaluators

namespace Eval

/-- A task with some steps in a state leads to another one with the steps that are then left. -/
inductive Reaches (settings : Settings) :
    (steps : Nat) → Task → Machine → (left : Nat) → Task → Machine → Prop
  | here {steps : Nat} {t : Task} {m : Machine} : Reaches settings steps t m steps t m
  | inside {steps left : Nat} {t t₁ t' : Task} {m m₁ m' : Machine}
      (demands : (evaluators settings steps).Demands settings t m t₁ m₁)
      (reaches : Reaches settings steps t₁ m₁ left t' m') :
      Reaches settings (steps + 1) t m left t' m'

def entered (settings : Settings) (s : Stmt) (m : Machine) : Machine :=
  (trace settings (.statement s) m).2

/-- The run of a program in a state reaches a task: from the first statement, or when that has
ended, from the others. -/
inductive Visits (settings : Settings) (steps : Nat) :
    Program → Machine → (left : Nat) → Task → Machine → Prop
  | first {s : Stmt} {rest : Program} {m : Machine} {left : Nat} {t : Task} {m' : Machine}
      (fits : settings.FitsHost)
      (reaches : Reaches settings steps (.stmt s) (entered settings s m) left t m') :
      Visits settings steps (s :: rest) m left t m'
  | later {s : Stmt} {rest : Program} {m m₁ : Machine} {v : Value} {left : Nat} {t : Task}
      {m' : Machine} (ends : runStmt settings steps s m = (.ok v, m₁))
      (visits : Visits settings steps rest m₁ left t m') :
      Visits settings steps (s :: rest) m left t m'

section Escape

variable {settings : Settings} {steps left : Nat} {t t' : Task} {m m' : Machine} {f : Failure}

/-- Failures travel outward. -/
theorem Reaches.fails (h : Reaches settings steps t m left t' m')
    (hf : (evaluators settings left).Fails t' m' f) : (evaluators settings steps).Fails t m f := by
  induction h with
  | here => exact hf
  | inside demands reaches ih =>
    have hdemands := demands f
    rw [Evaluators.failing_eq_self (ih hf)] at hdemands
    exact hdemands

theorem trace_statement (settings : Settings) (s : Stmt) (m : Machine) :
    trace settings (.statement s) m = (.ok (), entered settings s m) := by
  rcases Int.lt_or_le settings.debugLevel (Message.statement s).level with h | h
  · rw [entered, trace_of_lt h]
  · rw [entered, trace_of_holds h rfl]

theorem depth_entered (settings : Settings) (s : Stmt) (m : Machine) :
    (entered settings s m).callDepth = m.callDepth :=
  congrArg Prod.snd (restores_trace settings (.statement s) m)

/-- Nothing is reached before the stack of the host is set. -/
theorem Visits.fits {p : Program} (h : Visits settings steps p m left t m') : settings.FitsHost := by
  induction h with
  | first fits reaches => exact fits
  | later ends visits ih => exact ih

theorem runStmt_apply (settings : Settings) (steps : Nat) (s : Stmt) (m : Machine) :
    runStmt settings steps s m =
      (onHostStack settings (execute settings steps s) >>= leaveProgram) (entered settings s m) :=
  bind_of_ok (trace_statement settings s m)

theorem runStmt_error (hfits : settings.FitsHost) {s : Stmt}
    (hf : (evaluators settings steps).Fails (.stmt s) (entered settings s m) f)
    (hexhausted : f ≠ .exhausted) : (runStmt settings steps s m).1 = .error f := by
  rw [runStmt_apply]
  refine bind_fails ?_
  rw [onHostStack_of_le hfits]
  exact unwound_error hexhausted hf

theorem Reaches.trans (h : Reaches settings steps t m left t' m') {left' : Nat} {t'' : Task}
    {m'' : Machine} (h' : Reaches settings left t' m' left' t'' m'') :
    Reaches settings steps t m left' t'' m'' := by
  induction h with
  | here => exact h'
  | inside demands reaches ih => exact .inside demands (ih h')

theorem Visits.trans {p : Program} (h : Visits settings steps p m left t' m') {left' : Nat}
    {t'' : Task} {m'' : Machine} (h' : Reaches settings left t' m' left' t'' m'') :
    Visits settings steps p m left' t'' m'' := by
  induction h with
  | first fits reaches => exact .first fits (reaches.trans h')
  | later ends visits ih => exact .later ends (ih h')

/-- A failure that comes from inside of a statement: it tells neither of a signal that nothing takes
nor of the host. -/
structure IsInner (f : Failure) : Prop where
  signal (o : Outcome) (m : Machine) : (leaveProgram o m).1 ≠ .error f
  limit : f ≠ .defect .limitTooLarge
  stack : f ≠ .error .stackExhausted

/-- A failure that comes from inside of a statement is one of its execution. -/
theorem runStmt_fails {s : Stmt} (h : (runStmt settings steps s m).1 = .error f) (hf : IsInner f) :
    settings.FitsHost ∧ (evaluators settings steps).Fails (.stmt s) (entered settings s m) f := by
  rw [runStmt_apply] at h
  rcases Int.lt_or_le settings.host.greatestLimit settings.stackLimit with hlimit | hfits
  · rw [bind_of_error (onHostStack_of_lt hlimit _ _)] at h
    exact absurd (Except.error.inj h).symm hf.limit
  · refine ⟨hfits, ?_⟩
    rcases hrun : onHostStack settings (execute settings steps s) (entered settings s m) with
      ⟨e | o, m₁⟩
    · rw [bind_of_error hrun] at h
      rw [onHostStack_of_le hfits] at hrun
      obtain rfl := Except.error.inj h
      exact (unwound_eq_error (congrArg Prod.fst hrun)).resolve_left fun h => hf.stack h.2
    · rw [bind_of_ok hrun] at h
      exact absurd h (hf.signal o m₁)

/-- A program fails through one of its statements, or by itself. -/
theorem visits_of_fails {p : Program} {last : Value}
    (h : (runAll settings steps last p m).1 = .error f) (hf : IsInner f) :
    ∃ s m', Visits settings steps p m steps (.stmt s) m' ∧ m'.callDepth = m.callDepth ∧
      (evaluators settings steps).Fails (.stmt s) m' f := by
  induction p generalizing m last with
  | nil => cases h
  | cons s rest ih =>
    rw [runAll] at h
    rcases hrun : runStmt settings steps s m with ⟨e | v, m₁⟩
    · rw [bind_of_error hrun] at h
      obtain rfl := Except.error.inj h
      obtain ⟨hfits, hfails⟩ := runStmt_fails (congrArg Prod.fst hrun) hf
      exact ⟨s, entered settings s m, .first hfits .here, depth_entered settings s m, hfails⟩
    · rw [bind_of_ok hrun] at h
      obtain ⟨s', m', hvisits, hdepth, hfails⟩ := ih h
      have hplace := congrArg Prod.snd (restores_runStmt settings steps s m)
      rw [hrun] at hplace
      exact ⟨s', m', .later hrun hvisits, hdepth.trans hplace, hfails⟩

/-- The failure of anything that a program reaches ends its run. -/
theorem Visits.fails {p : Program} (h : Visits settings steps p m left t' m')
    (hf : (evaluators settings left).Fails t' m' f) (hexhausted : f ≠ .exhausted) (last : Value) :
    (runAll settings steps last p m).1 = .error f := by
  induction h generalizing last with
  | first fits reaches => exact bind_fails (runStmt_error fits (reaches.fails hf) hexhausted)
  | later ends visits ih => exact (congrArg Prod.fst (bind_of_ok ends)).trans (ih hf _)

end Escape

end Eval

/-- A task may occur in a regime, in a state that keeps to it. -/
def Task.Good (R : Regime) (t : Task) (m : Machine) : Prop := m.Upholds R ∧ R.tasks.Holds t

section Good

variable {R : Regime} {settings : Settings} {steps left : Nat} {t t' : Task} {m m' : Machine}

theorem Evaluators.KeepTo.fails {r : Evaluators} (hr : r.KeepTo R) (ht : t.Good R m) {f : Failure}
    (hf : r.Fails t m f) : R.failure f := by
  obtain ⟨hm, ht⟩ := ht
  cases t with
  | expr e => exact (hr.evaluate ht m hm (Nat.zero_le _)).failure f hf
  | stmt s =>
    obtain ⟨σ, hs⟩ := ht
    exact (hr.execute hs m hm (Nat.zero_le _)).failure f hf

/-- A failure of a task that is not good is out of sight of the regime. -/
theorem Evaluators.KeepTo.failing {r : Evaluators} (hr : r.KeepTo R) (ht : ¬ t.Good R m)
    (f : Failure) : (r.failing t m f).KeepTo R := by
  constructor
  · intro e he m' hm' hn
    simp only [Evaluators.failing]
    split
    · rename_i h
      obtain ⟨rfl, rfl⟩ := h
      exact absurd ⟨hm', he⟩ ht
    · exact hr.evaluate he m' hm' hn
  · intro σ s hs m' hm' hn
    simp only [Evaluators.failing]
    split
    · rename_i h
      obtain ⟨rfl, rfl⟩ := h
      exact absurd ⟨hm', σ, hs⟩ ht
    · exact hr.execute hs m' hm' hn

namespace Eval

variable (hR : R.Closed) {f : Failure} (hf : ¬ R.failure f)
include hR hf

/-- A good task asks only for good tasks: otherwise the rule would pass on a failure that the regime
leaves out. -/
theorem good_of_demands (ht : t.Good R m)
    (h : (evaluators settings steps).Demands settings t m t' m') : t'.Good R m' := by
  refine Classical.byContradiction fun hbad => ?_
  have hkeeps := ((evaluators_keepTo hR settings steps).failing hbad f).next hR settings
  exact hf (hkeeps.fails ht (h f))

theorem Reaches.good (h : Reaches settings steps t m left t' m') (ht : t.Good R m) :
    t'.Good R m' := by
  induction h with
  | here => exact ht
  | inside demands reaches ih => exact ih (good_of_demands hR hf ht demands)

/-- Whatever a program reaches is good, if its statements may occur. -/
theorem Visits.good {p : Program} (h : Visits settings steps p m left t' m') {σ : Signals}
    (hσ : R.Takes σ) (hp : R.tasks.Body σ p) (hm : m.Upholds R) : t'.Good R m' := by
  induction h with
  | first fits reaches =>
    refine reaches.good hR hf ⟨?_, σ, hp _ List.mem_cons_self⟩
    exact (keepsTo_trace (n := 0) settings _ _ hm (Nat.zero_le _)).upholds hm
  | later ends visits ih =>
    have hrun := keepsTo_runStmt hR hσ (.inl visits.fits) steps (hp _ List.mem_cons_self) _ hm
      (Nat.zero_le _)
    rw [ends] at hrun
    exact ih (fun s h => hp s (List.mem_cons_of_mem _ h)) (hrun.upholds hm)

end Eval

end Good

end Scripting
