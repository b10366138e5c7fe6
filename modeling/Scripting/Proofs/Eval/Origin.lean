import Scripting.Proofs.Eval.Reached

/-!
Where a failure comes from. A rule is composed of steps of its own and of calls of the two
evaluators. A failure that no step of its own ends with is therefore the failure of something that
the rule asks for. Followed inward, this ends at the rule that makes the failure. What a rule asks
for is one of its parts at the same depth of calls, or something deeper within the limit.
-/

namespace Scripting.Eval

variable {α β : Type} {settings : Settings} {r : Evaluators} {f : Failure} {F : Failure → Prop}
  {parts : Task → Prop} {k : Effect}

/-- Where a rule can ask for a task: for a part at the depth of the rule, and for any task deeper,
up to the limit. -/
def Admits (settings : Settings) (parts : Task → Prop) (depth : Nat) (t : Task) (m' : Machine) :
    Prop :=
  parts t ∧ m'.callDepth = depth ∨ depth < m'.callDepth ∧ (m'.callDepth : Int) ≤ settings.callLimit

/-- A task that is made to fail, as `b` says, either plays no part in `a`, or its failure is the
outcome; then `P` holds of the depth. -/
def Passes (P : Nat → Prop) (a : Eval α) (b : Failure → Eval α) : Prop :=
  ∀ m, (∀ f', b f' m = a m) ∨ (∀ f', (b f' m).1 = .error f') ∧ P m.callDepth

theorem passes_own (P : Nat → Prop) (a : Eval α) : Passes P a fun _ => a := fun _ => .inl fun _ => rfl

/-- A task that is made to fail plays a part in one of two computations, or in neither. -/
theorem Passes.bind {P : Nat → Prop} {a : Eval α} {b : Failure → Eval α} {c : α → Eval β}
    {d : Failure → α → Eval β} (hab : Passes P a b) (ha : Restores a)
    (hcd : ∀ x, Passes P (c x) fun f' => d f' x) : Passes P (a >>= c) fun f' => b f' >>= d f' := by
  intro m
  have hdepth : (a m).2.callDepth = m.callDepth := congrArg Prod.snd (ha m)
  rcases hab m with hsame | ⟨hfails, hP⟩
  · rcases hrun : a m with ⟨e | x, m₁⟩
    · refine .inl fun f' => ?_
      exact (bind_of_error ((hsame f').trans hrun)).trans (bind_of_error hrun).symm
    · rw [hrun] at hdepth
      have hok : ∀ f', b f' m = (.ok x, m₁) := fun f' => (hsame f').trans hrun
      rcases hcd x m₁ with hsame' | ⟨hfails', hP⟩
      · refine .inl fun f' => ?_
        exact (bind_of_ok (hok f')).trans ((hsame' f').trans (bind_of_ok hrun).symm)
      · refine .inr ⟨fun f' => ?_, ?_⟩
        · exact (congrArg Prod.fst (bind_of_ok (hok f'))).trans (hfails' f')
        · rw [← hdepth]
          exact hP
  · exact .inr ⟨fun f' => bind_fails (hfails f'), hP⟩

theorem Passes.repeated {P : Nat → Prop} {a : Eval (Option α)} {b : Failure → Eval (Option α)}
    (hab : Passes P a b) (ha : Restores a) (rounds : Nat) :
    Passes P (repeated a rounds) fun f' => repeated (b f') rounds := by
  induction rounds with
  | zero => exact passes_own P _
  | succ rounds ih =>
    refine hab.bind ha fun x => ?_
    cases x with
    | some x => exact passes_own P _
    | none => exact ih

theorem Passes.inScope {P : Nat → Prop} {a : Eval α} {b : Failure → Eval α} (hab : Passes P a b) :
    Passes P (inScope a) fun f' => inScope (b f') := by
  intro m
  rcases hab (m.inner m.active) with hsame | hfails
  · exact .inl fun f' => by simp only [inScope_apply, hsame f']
  · exact .inr hfails

/-- Everything inside of a body is deeper, and not beyond the limit. -/
theorem Passes.enter {t : Task} {m' : Machine} {a : Eval α} {b : Failure → Eval α}
    (hab : Passes (Admits settings (fun _ => True) · t m') a b) (closure : FrameId) :
    Passes (Admits settings parts · t m') (enter settings closure a)
      fun f' => enter settings closure (b f') := by
  intro m
  by_cases hlimit : settings.callLimit ≤ m.callDepth
  · exact .inl fun f' => by simp only [enter_of_le hlimit]
  · have hless := Int.not_le.mp hlimit
    rcases hab { m.inner closure with callDepth := m.callDepth + 1 } with hsame | ⟨hfails, hadmits⟩
    · exact .inl fun f' => by simp only [enter_of_lt hless, hsame f']
    · refine .inr ⟨fun f' => ?_, .inr ?_⟩
      · simp only [enter_of_lt hless, hfails f']
      · rcases hadmits with ⟨-, hdepth⟩ | ⟨hdepth, hwithin⟩
        · rw [hdepth]
          dsimp only
          omega
        · dsimp only at hdepth
          omega

/-- A failure of a task that a rule does not ask for is not seen by the rule. -/
theorem Composed.failing {c : Settings → Evaluators → Eval α} (h : Composed F parts k c)
    (settings : Settings) (hr : r.Restore) (t : Task) (m' : Machine) :
    Passes (Admits settings parts · t m') (c settings r)
      fun f' => c settings (r.failing t m' f') := by
  induction h with
  | evaluate h =>
    rename_i e
    intro m
    by_cases ht : t = .expr e ∧ m' = m
    · obtain ⟨rfl, rfl⟩ := ht
      exact .inr ⟨fun f' => by simp [Evaluators.failing], .inl ⟨h, rfl⟩⟩
    · exact .inl fun f' => by simp [Evaluators.failing, ht]
  | execute h =>
    rename_i s
    intro m
    by_cases ht : t = .stmt s ∧ m' = m
    · obtain ⟨rfl, rfl⟩ := ht
      exact .inr ⟨fun f' => by simp [Evaluators.failing], .inl ⟨h, rfl⟩⟩
    · exact .inl fun f' => by simp [Evaluators.failing, ht]
  | bind first rest ih ihrest => exact ih.bind (first.restores settings hr) ihrest
  | inScope h ih => exact ih.inScope
  | enter closure limit h ih => exact ih.enter closure
  | repeated stops h ih => exact ih.repeated (h.restores settings hr) r.rounds
  | _ => exact passes_own _ _

/-- A failure of `a` is the failure of a task that decides the outcome, as `b` says. -/
def Traced (r : Evaluators) (f : Failure) (a : Eval α) (b : Task → Machine → Failure → Eval α) :
    Prop :=
  ∀ m, (a m).1 = .error f → ∃ t m', r.Fails t m' f ∧ ∀ f', (b t m' f' m).1 = .error f'

theorem traced_own {a : Eval α} (h : ∀ m, (a m).1 ≠ .error f)
    (b : Task → Machine → Failure → Eval α) : Traced r f a b := fun m hm => absurd hm (h m)

/-- A failure of two parts is that of the first one, or that of the second one behind a first one that
succeeds. -/
theorem Traced.bind {P : Task → Machine → Nat → Prop} {a : Eval α}
    {b : Task → Machine → Failure → Eval α} {c : α → Eval β}
    {d : Task → Machine → Failure → α → Eval β} (hab : Traced r f a b)
    (hpasses : ∀ t m', Passes (P t m') a (b t m'))
    (hcd : ∀ x, Traced r f (c x) fun t m' f' => d t m' f' x) :
    Traced r f (a >>= c) fun t m' f' => b t m' f' >>= d t m' f' := by
  intro m hm
  rcases hrun : a m with ⟨e | x, m₁⟩
  · rw [bind_of_error hrun] at hm
    cases hm
    obtain ⟨t, m', ht, hfails⟩ := hab m (congrArg Prod.fst hrun)
    exact ⟨t, m', ht, fun f' => bind_fails (hfails f')⟩
  · rw [bind_of_ok hrun] at hm
    obtain ⟨t, m', ht, hfails⟩ := hcd x m₁ hm
    refine ⟨t, m', ht, fun f' => ?_⟩
    -- The first part ends as before when the task is none that it asks for.
    rcases hpasses t m' m with hsame | ⟨hfirst, -⟩
    · exact (congrArg Prod.fst (bind_of_ok ((hsame f').trans hrun))).trans (hfails f')
    · exact bind_fails (hfirst f')

theorem Traced.repeated {P : Task → Machine → Nat → Prop} {a : Eval (Option α)}
    {b : Task → Machine → Failure → Eval (Option α)} (hab : Traced r f a b)
    (hpasses : ∀ t m', Passes (P t m') a (b t m')) (hf : f ≠ .outOfSteps) (rounds : Nat) :
    Traced r f (repeated a rounds) fun t m' f' => repeated (b t m' f') rounds := by
  induction rounds with
  | zero => exact traced_own (fun _ h => hf (Except.error.inj h).symm) _
  | succ rounds ih =>
    refine hab.bind hpasses fun x => ?_
    cases x with
    | some x => exact traced_own (fun _ h => by cases h) _
    | none => exact ih

theorem Traced.enter {a : Eval α} {b : Task → Machine → Failure → Eval α} (hab : Traced r f a b)
    (hf : f ≠ .error (.callDepth settings.callLimit)) (closure : FrameId) :
    Traced r f (enter settings closure a) fun t m' f' => enter settings closure (b t m' f') := by
  intro m hm
  by_cases hlimit : settings.callLimit ≤ m.callDepth
  · rw [enter_of_le hlimit] at hm
    exact absurd (Except.error.inj hm).symm hf
  · have hless := Int.not_le.mp hlimit
    rw [enter_of_lt hless] at hm
    obtain ⟨t, m', ht, hfails⟩ := hab _ hm
    exact ⟨t, m', ht, fun f' => by simp only [enter_of_lt hless, hfails f']⟩

/-- A failure that is not its own is the failure of a task that a rule asks for. -/
theorem Composed.origin {c : Settings → Evaluators → Eval α} (h : Composed F parts k c)
    (settings : Settings) (hr : r.Restore) (hf : ¬ F f) :
    Traced r f (c settings r) fun t m' f' => c settings (r.failing t m' f') := by
  induction h with
  | throw h =>
    refine traced_own (fun _ he => hf ?_) _
    cases he
    exact h
  | trace message exhausted =>
    refine traced_own (fun _ he => hf ?_) _
    rw [trace_error he]
    exact exhausted
  | evaluate h => exact fun m hm => ⟨.expr _, m, hm, fun f' => by simp [Evaluators.failing]⟩
  | execute h => exact fun m hm => ⟨.stmt _, m, hm, fun f' => by simp [Evaluators.failing]⟩
  | bind first rest ih ihrest => exact ih.bind (fun t m' => first.failing settings hr t m') ihrest
  | inScope h ih => exact fun m hm => ih (m.inner m.active) hm
  | enter closure limit h ih => exact ih.enter (fun he => hf (he ▸ limit _)) closure
  | repeated stops h ih =>
    exact ih.repeated (fun t m' => h.failing settings hr t m') (fun he => hf (he ▸ stops)) r.rounds
  | _ => exact traced_own (fun _ he => by cases he) _

/-- What the rule for a task asks for: a part of it, or something deeper. -/
theorem admits_of_demands {steps : Nat} {t t' : Task} {m m' : Machine}
    (h : (evaluators settings steps).Demands settings t m t' m') :
    Admits settings (· ∈ t.parts) m.callDepth t' m' := by
  have hr := evaluators_restore settings steps
  -- A task that plays no part cannot make the rule fail in two ways.
  have hparts : ∀ {α : Type} {c : Settings → Evaluators → Eval α},
      Composed (fun _ => True) (· ∈ t.parts) .declaring c →
      (∀ f, (c settings ((evaluators settings steps).failing t' m' f) m).1 = .error f) →
      Admits settings (· ∈ t.parts) m.callDepth t' m' := by
    intro α c hc hfails
    rcases hc.failing settings hr t' m' m with hsame | ⟨-, hadmits⟩
    · have hsteps := (congrArg Prod.fst (hsame .outOfSteps)).symm.trans (hfails .outOfSteps)
      have hdefect := (congrArg Prod.fst (hsame (.defect .wrongType))).symm.trans (hfails _)
      cases hsteps.symm.trans hdefect
    · exact hadmits
  cases t with
  | expr e => exact hparts (composed_expr e) h
  | stmt s => exact hparts (composed_stmt s) h

end Scripting.Eval
