import Scripting.Proofs.Eval.Discipline
import Scripting.Proofs.Eval.Limits

/-!
Programs without `while` end. Functions are values, so nothing gets smaller at a call but the number
of calls that the limit leaves. What is evaluated meanwhile is a part of the program, so that its size
is below a bound that stays: the calls left, and then the size, go down with every step inward. That
all bodies in the store are such parts is a discipline.
-/

namespace Scripting

namespace Form

/-- There is no `while` loop, also not in the body of a function. -/
def whileFree : Form where
  whiles := false

/-- The parts of a task have its form. -/
theorem of_mem_parts {C : Form} {t t' : Task} (h : C.task t = true) (hpart : t' ∈ t.parts) :
    C.task t' = true := by
  cases t with
  | expr e =>
    cases e <;> grind [Task.parts, Expr.parts, task, expr, exprs_iff, pairs_iff, fields_iff, stmts_iff]
  | stmt s =>
    cases s with
    | return_ value =>
      cases value <;> grind [Task.parts, Stmt.parts, task, stmt]
    | if_ c t e =>
      cases e <;> grind [Task.parts, Stmt.parts, task, stmt, otherwise, stmts_iff]
    | _ =>
      grind [Task.parts, Stmt.parts, task, stmt, exprs_iff, fields_iff, stmts_iff]

end Form

theorem sizeOf_field_lt {f : Name × Expr} {fs : List (Name × Expr)} (h : f ∈ fs) :
    sizeOf f.2 < sizeOf fs := by
  obtain ⟨n, e⟩ := f
  have hmem := List.sizeOf_lt_of_mem h
  simp only [Prod.mk.sizeOf_spec] at hmem ⊢
  omega

theorem sizeOf_pair_lt {p : Expr × Expr} {ps : List (Expr × Expr)} (h : p ∈ ps) :
    sizeOf p.1 < sizeOf ps ∧ sizeOf p.2 < sizeOf ps := by
  obtain ⟨k, v⟩ := p
  have hmem := List.sizeOf_lt_of_mem h
  simp only [Prod.mk.sizeOf_spec] at hmem ⊢
  omega

/-- The size of a task, which is more than that of any part. -/
noncomputable def Task.size : Task → Nat
  | expr e => sizeOf e
  | stmt s => sizeOf s

theorem Task.size_lt_of_mem_parts {t t' : Task} (h : t' ∈ t.parts) : t'.size < t.size := by
  cases t with
  | expr e =>
    cases e <;>
      grind [parts, Expr.parts, size, → List.sizeOf_lt_of_mem, → sizeOf_field_lt, → sizeOf_pair_lt]
  | stmt s =>
    cases s with
    | return_ value => cases value <;> grind [parts, Stmt.parts, size]
    | if_ c t e => cases e <;> grind [parts, Stmt.parts, size, → List.sizeOf_lt_of_mem]
    | _ => grind [parts, Stmt.parts, size, → List.sizeOf_lt_of_mem, → sizeOf_field_lt]

def Task.Small (bound : Nat) (t : Task) : Prop := Form.whileFree.task t = true ∧ t.size < bound

theorem Task.Small.part {bound : Nat} {t t' : Task} (h : t.Small bound) (hpart : t' ∈ t.parts) :
    t'.Small bound :=
  ⟨Form.of_mem_parts h.1 hpart, Nat.lt_trans (size_lt_of_mem_parts hpart) h.2⟩

def SmallBody (bound : Nat) (ss : List Stmt) : Prop := ∀ s ∈ ss, (Task.stmt s).Small bound

theorem smallBody_of_stmts {bound : Nat} {ss : List Stmt} (hfree : Form.whileFree.stmts ss = true)
    (hsize : sizeOf ss ≤ bound) : SmallBody bound ss :=
  fun s hs => ⟨Form.stmts_iff.mp hfree s hs, Nat.lt_of_lt_of_le (List.sizeOf_lt_of_mem hs) hsize⟩

section Bodies

variable {bound : Nat} {n : Name} {ps : List Name} {body : List Stmt}

theorem Task.Small.lambda (h : (Task.expr (.lambda ps body)).Small bound) :
    SmallBody bound body := by
  obtain ⟨hfree, hsize⟩ := h
  simp only [Task.size, Expr.lambda.sizeOf_spec] at hsize
  exact smallBody_of_stmts (Bool.and_eq_true_iff.mp hfree).2 (by omega)

theorem Task.Small.function (h : (Task.stmt (.function n ps body)).Small bound) :
    SmallBody bound body := by
  obtain ⟨hfree, hsize⟩ := h
  simp only [Task.size, Stmt.function.sizeOf_spec] at hsize
  exact smallBody_of_stmts (Bool.and_eq_true_iff.mp hfree).2 (by omega)

/-- A method is smaller than its type. -/
theorem Task.Small.method {t : Name} {fs : List (Name × Expr)} {ms : List Stmt}
    (h : (Task.stmt (.type t fs ms)).Small bound) (hm : .function n ps body ∈ ms) :
    SmallBody bound body := by
  obtain ⟨hfree, hsize⟩ := h
  have hmethods := (Bool.and_eq_true_iff.mp hfree).2
  have hmethod := List.sizeOf_lt_of_mem hm
  simp only [Task.size, Stmt.type.sizeOf_spec] at hsize
  refine Task.Small.function ⟨Form.stmts_iff.mp hmethods _ hm, ?_⟩
  simp only [Task.size]
  omega

end Bodies

/-- The discipline of programs without `while`. It keeps the size of every body below a bound. -/
def Discipline.whileFree (bound : Nat) : Discipline where
  toPolicy := .lax fun _ body => SmallBody bound body
  tasks := .among (Task.Small bound)
  known f := SmallBody bound f.body
  expr h := Expr.admitted_of_parts (Policy.lax_lenient _) (fun _ => h.part)
    (fun _ _ heq => Task.Small.lambda (heq ▸ h)) fun _ _ _ => nofun
  stmt h := Stmt.admitted_of_parts (Policy.lax_lenient _) (fun _ => h.part)
    (fun _ _ _ heq => Task.Small.function (heq ▸ h))
    (fun _ _ _ heq _ _ _ hm => Task.Small.method (heq ▸ h) hm) (fun _ _ _ => nofun) _
  tolerant := Policy.lax_tolerant _
  exhausted := Policy.lax_exhausted _
  outOfSteps := nofun
  made _ _ h := h
  bindTo _ h := h
  listMethod _ _ _ hs := absurd hs List.not_mem_nil
  textMethod _ _ _ hs := absurd hs List.not_mem_nil
  global _ _ hs := absurd hs List.not_mem_nil
  defined h _ := ⟨fun _ _ => (Policy.lax_lenient _).key _, .any, h, .inr ⟨nofun, nofun⟩⟩
  native _ _ _ := .inr ⟨nofun, nofun⟩

theorem Task.Good.small {bound : Nat} {t : Task} {m : Machine}
    (h : t.Good (Discipline.whileFree bound).regime m) : t.Small bound := by
  have hholds := h.2
  rw [show (Discipline.whileFree bound).regime.tasks = .among (Task.Small bound) from rfl,
    Tasks.holds_among] at hholds
  exact hholds

namespace Eval

variable {settings : Settings} {bound steps : Nat} {t : Task} {m : Machine}

/-- What is left to do for a task: the calls that may still be nested, each with anything below the
bound on sizes, and the task itself. -/
noncomputable def effort (settings : Settings) (bound : Nat) (t : Task) (m : Machine) : Nat :=
  (settings.callLimit.toNat - m.callDepth) * bound + t.size

/-- Every step inward takes less. -/
theorem effort_lt {t' : Task} {m' : Machine} (ht' : t'.size < bound)
    (h : (evaluators settings steps).Demands settings t m t' m') :
    effort settings bound t' m' < effort settings bound t m := by
  unfold effort
  rcases admits_of_demands h with ⟨hpart, hdepth⟩ | ⟨hdeeper, hlimit⟩
  · have hsize := Task.size_lt_of_mem_parts hpart
    rw [hdepth]
    omega
  · have hcalls : settings.callLimit.toNat - m'.callDepth + 1 ≤
        settings.callLimit.toNat - m.callDepth := by omega
    calc (settings.callLimit.toNat - m'.callDepth) * bound + t'.size
        < (settings.callLimit.toNat - m'.callDepth) * bound + bound := Nat.add_lt_add_left ht' _
      _ = (settings.callLimit.toNat - m'.callDepth + 1) * bound := (Nat.succ_mul _ _).symm
      _ ≤ (settings.callLimit.toNat - m.callDepth) * bound := Nat.mul_le_mul_right _ hcalls
      _ ≤ (settings.callLimit.toNat - m.callDepth) * bound + t.size := Nat.le_add_right _ _

/-- No rule runs out of steps by itself, except for that of `while`. -/
theorem demands_of_outOfSteps (ht : Form.whileFree.task t = true)
    (h : (evaluators settings (steps + 1)).Fails t m .outOfSteps) :
    ∃ t' m', (evaluators settings steps).Fails t' m' .outOfSteps ∧
      (evaluators settings steps).Demands settings t m t' m' := by
  have hr := evaluators_restore settings steps
  cases t with
  | expr e =>
    have he : Composed (· ≠ .outOfSteps) (· ∈ e.parts) .quiet
        (fun settings r => evaluateStep settings r e) :=
      composed_evaluateStep (fun _ hf _ _ => hf) fun _ _ _ => nofun
    exact he.origin settings hr (not_not_intro rfl) m h
  | stmt s =>
    have hs : Composed (· ≠ .outOfSteps) (· ∈ s.parts) .declaring
        (fun settings r => executeStep settings r s) := by
      refine composed_executeStep (fun _ hf _ _ => hf) (fun c body heq => ?_) fun _ => rfl
      subst heq
      cases ht
    exact hs.origin settings hr (not_not_intro rfl) m h

/-- By induction on the steps, which are more than what is left to do. -/
theorem not_outOfSteps_of_effort (ht : t.Good (Discipline.whileFree bound).regime m)
    (hsteps : effort settings bound t m < steps) :
    ¬ (evaluators settings steps).Fails t m .outOfSteps := by
  induction steps generalizing t m with
  | zero => omega
  | succ steps ih =>
    intro hfails
    obtain ⟨t', m', hfails', hdemands⟩ := demands_of_outOfSteps ht.small.1 hfails
    have ht' : t'.Good (Discipline.whileFree bound).regime m' :=
      good_of_demands (Discipline.whileFree bound).closed (fun h => h .add rfl) ht hdemands
    have hless := effort_lt ht'.small.2 hdemands
    exact ih ht' (by omega) hfails'

end Eval

/-- Whether no part of a program is a `while` loop, also not in the body of a function. -/
def Program.whileFree (p : Program) : Bool := Form.whileFree.stmts p

/-- Without `while`, a run on a fresh state ends, whatever calls itself or is called from elsewhere:
as many steps as the size of the program, for each depth of calls up to the limit, are enough for
every input. With more steps the run is the same. -/
theorem whileFree_run_ends {p : Program} (hp : p.whileFree = true) (settings : Settings)
    {steps : Nat} (hsteps : (settings.callLimit.toNat + 1) * sizeOf p ≤ steps) (input : String) :
    (Eval.runAll settings steps .null p (Machine.fresh input)).1 ≠ .error .outOfSteps ∧
    ∀ more, steps ≤ more → Eval.runAll settings more .null p (Machine.fresh input) =
      Eval.runAll settings steps .null p (Machine.fresh input) := by
  let d := Discipline.whileFree (sizeOf p)
  have hends : (Eval.runAll settings steps .null p (Machine.fresh input)).1 ≠
      .error .outOfSteps := by
    intro hfails
    obtain ⟨s, m, hvisits, hdepth, hfails⟩ :=
      Eval.visits_of_fails hfails ⟨fun o m => by cases o <;> nofun, nofun, nofun⟩
    have hbody : d.regime.tasks.Body .any p := smallBody_of_stmts hp (Nat.le_refl _)
    have hgood : (Task.stmt s).Good d.regime m :=
      hvisits.good d.closed (fun h => h .add rfl) (.inr ⟨nofun, nofun, nofun⟩) hbody
        (d.fresh input)
    -- Nothing is called yet, and the statement is smaller than the program.
    have heffort : Eval.effort settings (sizeOf p) (.stmt s) m < steps := by
      have hsize := hgood.small.2
      have hzero : m.callDepth = 0 := hdepth
      rw [Nat.succ_mul] at hsteps
      unfold Eval.effort
      rw [hzero, Nat.sub_zero]
      omega
    exact Eval.not_outOfSteps_of_effort hgood heffort hfails
  refine ⟨hends, fun more hmore => ?_⟩
  exact (Eval.follows_runAll (Int.le_refl _) (fun h => h) hmore .null p).eq_of_not_outOfSteps hends

/-- A function that applies its argument to itself is applied to itself in a loop. -/
theorem whileFree_run_ends_self_application :
    let f : Name := .text "f"
    let x : Name := .text "x"
    let p : Program := [.let_ f (.lambda [x] [.expr (.call (.name x) [.name x])]),
      .for_ (.text "i") (.number 0) (.number 3) [.expr (.call (.name f) [.name f])]]
    ∃ steps, (Eval.runAll {} steps .null p (Machine.fresh "")).1 ≠ .error .outOfSteps :=
  ⟨_, (whileFree_run_ends (by decide) {} (Nat.le_refl _) "").1⟩

end Scripting
