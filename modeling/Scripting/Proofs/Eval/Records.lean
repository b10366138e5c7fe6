import Scripting.Proofs.Eval.Formed
import Scripting.Proofs.Eval.Source

/-!
The records of a session. Wherever in a state a record stands, it has the fields that its own type
declares, in their order; so a declared field can be accessed, whatever has become of the name of the
type. A dictionary has a type without fields. None of this depends on where a program comes from.
-/

namespace Scripting

/-- A value stands in a value: it is the value itself, or it stands in an item of a list, in a field or
the type of a record, in a default or a method of a type, or in the receiver of a function. -/
inductive Value.Contains : Value → Value → Prop
  | self (v : Value) : Contains v v
  | item {items : List Value} {v w : Value} (hv : v ∈ items) (h : Contains v w) :
      Contains (.list items) w
  | receiver {f : Function} {v w : Value} (hv : f.receiver = some v) (h : Contains v w) :
      Contains (.function f) w
  | default {t : RecordType} {p : Name × Value} {w : Value} (hp : p ∈ t.fields)
      (h : Contains p.2 w) : Contains (.type t) w
  | method {t : RecordType} {p : Name × Function} {w : Value} (hp : p ∈ t.methods)
      (h : Contains (.function p.2) w) : Contains (.type t) w
  | type {t : RecordType} {fields : List (Name × Value)} {w : Value} (h : Contains (.type t) w) :
      Contains (.record t fields) w
  | field {t : RecordType} {fields : List (Name × Value)} {p : Name × Value} {w : Value}
      (hp : p ∈ fields) (h : Contains p.2 w) : Contains (.record t fields) w

/-- Every record that stands in a value has the fields of its type. -/
def Value.RecordsFit (v : Value) : Prop :=
  ∀ t fields, v.Contains (.record t fields) → t.Fits fields

/-- Every record that stands in a frame has the fields of its type. -/
def Machine.RecordsFit (m : Machine) : Prop :=
  ∀ f, ∀ p ∈ (m.store.frame f).bindings, p.2.RecordsFit

/-- What holds of a value holds of the values in it. -/
theorem Value.All.contained {I : Content} {v w : Value} (h : v.All I) (hw : v.Contains w) :
    w.All I := by
  induction hw with
  | self v => exact h
  | item hv _ ih =>
    cases h with
    | list hitems => exact ih (hitems _ hv)
  | receiver hv _ ih =>
    cases h with
    | function hf => exact ih (hf.receiver hv)
  | default hp _ ih =>
    cases h with
    | type ht => exact ih (ht.fields _ hp)
  | method hp _ ih =>
    cases h with
    | type ht => exact ih (.function (ht.methods _ hp))
  | type _ ih =>
    cases h with
    | record ht => exact ih (.type ht)
  | field hp _ ih =>
    cases h with
    | record _ _ hfields => exact ih (hfields _ hp)

section Discipline

variable {d : Discipline}

theorem Value.All.recordsFit {v : Value} (h : v.All d.content) : v.RecordsFit := by
  intro t fields hrecord
  cases h.contained hrecord with
  | record _ own _ => exact own

theorem Machine.Upholds.recordsFit {m : Machine} (h : m.Upholds d.regime) : m.RecordsFit :=
  fun f p hp => Value.All.recordsFit (d.upholds_iff.mp h f p hp)

theorem Discipline.evaluated (d : Discipline) {settings : Settings} {steps : Nat} {e : Expr}
    {m m' : Machine} {v : Value} (he : d.tasks.expr e) (hm : m.Upholds d.regime)
    (hrun : Eval.evaluate settings steps e m = (.ok v, m')) :
    v.All d.content ∧ m'.Upholds d.regime := by
  have h := (Eval.evaluators_keepTo d.closed settings steps).evaluate he m hm (Nat.zero_le _)
  rw [show (Eval.evaluators settings steps).evaluate e m = (.ok v, m') from hrun] at h
  exact ⟨h.answer v rfl, h.upholds hm⟩

end Discipline

namespace RecordType.Fits

variable {t : RecordType} {fields : List (Name × Value)}

theorem lookup (h : t.Fits fields) {n : Name} (hn : n ∈ Named.names t.fields) :
    ∃ w, fields.lookup n = some w := by
  rcases h with rfl | h
  · cases hn
  · rw [← h, ← List.contains_iff_mem, Named.contains_names] at hn
    exact Option.isSome_iff_exists.mp hn

/-- A method may stand in front of the field. -/
theorem getMember (h : t.Fits fields) {s : String} (hs : .text s ∈ Named.names t.fields) :
    ∃ w, (Value.record t fields).getMember (.text s) = .ok w := by
  obtain ⟨w, hw⟩ := h.lookup hs
  cases hm : t.methods.lookup (.text s) with
  | some f => exact ⟨.function (f.bindTo (.record t fields)), by
      simp [Value.getMember, Value.getRecordMember, Name.isKey, hm]⟩
  | none => exact ⟨w, by simp [Value.getMember, Value.getRecordMember, Name.isKey, hm, hw]⟩

theorem getIndex (h : t.Fits fields) {s : String} (hs : .text s ∈ Named.names t.fields) :
    ∃ w, (Value.record t fields).getIndex (.text s) = .ok w := by
  obtain ⟨w, hw⟩ := h.lookup hs
  exact ⟨w, by simp only [Value.getIndex, hw]⟩

end RecordType.Fits

namespace Eval

variable {settings : Settings} {steps : Nat} {m m₁ m₂ : Machine} {v w : Value}

/-- An access to a member is its value's. -/
theorem evaluate_field {e : Expr} {n : Name}
    (he : (evaluators settings steps).evaluate e m = (.ok v, m₁)) (hw : v.getMember n = .ok w) :
    evaluate settings (steps + 1) (.field e n) m = (.ok w, m₁) := by
  show ((evaluators settings steps).evaluate e >>= fun v => ofExcept (v.getMember n)) m = _
  rw [bind_of_ok he, hw]
  rfl

theorem evaluate_index {c i : Expr} {k : Value}
    (hc : (evaluators settings steps).evaluate c m = (.ok v, m₁))
    (hi : (evaluators settings steps).evaluate i m₁ = (.ok k, m₂)) (hw : v.getIndex k = .ok w) :
    evaluate settings (steps + 1) (.index c i) m = (.ok w, m₂) := by
  show ((evaluators settings steps).evaluate c >>= fun v =>
    (evaluators settings steps).evaluate i >>= fun k => ofExcept (v.getIndex k)) m = _
  rw [bind_of_ok hc, bind_of_ok hi, hw]
  rfl

/-- A statement that is an expression asks for it where it stands. -/
theorem visits_expr (hfits : settings.FitsHost) (steps : Nat) (e : Expr) (m : Machine) :
    Visits settings (steps + 1) [.expr e] m steps (.expr e) (entered settings (.expr e) m) := by
  refine .first hfits (.inside (fun f => bind_fails ?_) .here)
  simp only [Evaluators.failing, and_self, if_true]

end Eval

/-- Anything is left to a program but a call of a built-in function that there is not. -/
def freePolicy : Policy where
  failure f := ∀ n, f ≠ .error (.unknownBuiltin n)
  function _ _ := True
  signals := false

theorem freePolicy_lenient : freePolicy.Lenient where
  signals := rfl
  defect _ := nofun
  error _ h n heq := h n (Failure.error.inj heq)

/-- The discipline of any program at all. Nothing is asked of its parts; but it cannot make a built-in
function, so a call never looks for one in vain. -/
def Discipline.free : Discipline where
  toPolicy := freePolicy
  tasks := .all
  known := Function.FitsBuiltin
  expr _ := Expr.admitted_of_parts freePolicy_lenient (fun _ _ => trivial) (fun _ _ _ => trivial)
    fun _ _ _ => nofun
  stmt _ := Stmt.admitted_of_parts freePolicy_lenient (fun _ _ => trivial) (fun _ _ _ _ => trivial)
    (fun _ _ _ _ _ _ _ _ => trivial) (fun _ _ _ => nofun) _
  tolerant := by
    rintro e he n ⟨⟩
    cases he
  exhausted := nofun
  outOfSteps := nofun
  made _ _ _ := nofun
  bindTo _ _ := nofun
  listMethod items hb := Builtin.fits_of_receives (Builtin.receives_listMethod hb items)
  textMethod s hb := Builtin.fits_of_receives (Builtin.receives_textMethod hb s)
  global hb := Builtin.fits_of_receives (Builtin.receives_global hb)
  defined _ _ := ⟨fun _ _ => freePolicy_lenient.key _, .any, fun _ _ => trivial,
    .inr ⟨nofun, nofun⟩⟩
  native h hnative hargs := by
    obtain ⟨b, hb, haccepts⟩ := h hnative
    exact .inl ⟨b, hb, haccepts _ hargs⟩

theorem Discipline.free_takes : Discipline.free.regime.Takes .any := .inr ⟨nofun, nofun, nofun⟩

theorem Discipline.free_fits (settings : Settings) : Discipline.free.regime.Fits settings := .inr nofun

/-- Whether a value is a record whose type declares a field. -/
def Value.declares (n : Name) : Value → Bool
  | record t _ => decide (n ∈ Named.names t.fields)
  | _ => false

theorem Value.declares_iff {n : Name} {v : Value} :
    v.declares n = true ↔ ∃ t fields, v = .record t fields ∧ n ∈ Named.names t.fields := by
  cases v <;> simp [declares]

/-- Each operation of a session keeps the records that are there and makes only such ones. -/
theorem Machine.OfSession.upholds_free {m : Machine} (h : m.OfSession) :
    m.Upholds Discipline.free.regime := by
  have hclosed := Discipline.free.closed
  induction h with
  | fresh input => exact Discipline.free.fresh input
  | run _ settings steps s ih =>
    exact (Eval.keepsTo_runStmt hclosed Discipline.free_takes (Discipline.free_fits settings) steps
      trivial _ ih (Nat.zero_le _)).upholds ih
  | evaluate _ settings steps e ih =>
    exact (Eval.keepsTo_runExpr hclosed (Discipline.free_fits settings) steps trivial _ ih
      (Nat.zero_le _)).upholds ih

/-- In every state of a session, and in every state and value that comes up when a program runs in it,
each record that stands anywhere has exactly the fields that its own type declares, in their order, or
is a dictionary. So an access to a declared field succeeds, by a point or by an index. -/
theorem records_fit {m : Machine} (hm : m.OfSession) (settings : Settings) (steps : Nat)
    (p : Program) :
    m.RecordsFit ∧
    (Eval.runAll settings steps .null p m).2.RecordsFit ∧
    (∀ v, (Eval.runAll settings steps .null p m).1 = .ok v → v.RecordsFit) ∧
    (∀ left t m', Eval.Visits settings steps p m left t m' → m'.RecordsFit) ∧
    (∀ left e m' v m'', Eval.Visits settings steps p m left (.expr e) m' →
      Eval.evaluate settings left e m' = (.ok v, m'') → v.RecordsFit ∧ m''.RecordsFit) ∧
    (∀ left e s m' t fields m'',
      Eval.Visits settings steps p m (left + 1) (.expr (.field e (.text s))) m' →
      Eval.evaluate settings left e m' = (.ok (.record t fields), m'') →
      .text s ∈ Named.names t.fields →
      ∃ w, Eval.evaluate settings (left + 1) (.field e (.text s)) m' = (.ok w, m'')) ∧
    (∀ left c i s m' t fields m₁ m₂,
      Eval.Visits settings steps p m (left + 1) (.expr (.index c i)) m' →
      Eval.evaluate settings left c m' = (.ok (.record t fields), m₁) →
      Eval.evaluate settings left i m₁ = (.ok (.text s), m₂) →
      .text s ∈ Named.names t.fields →
      ∃ w, Eval.evaluate settings (left + 1) (.index c i) m' = (.ok w, m₂)) := by
  let d := Discipline.free
  have hm := hm.upholds_free
  have hrun := Eval.keepsTo_runAll d.closed Discipline.free_takes (Discipline.free_fits settings)
    steps .null (fun _ _ => trivial : d.regime.tasks.Body .any p) m hm (Nat.zero_le _)
  have hnot : ¬ d.regime.failure (.error (.unknownBuiltin Function.unnamed)) := fun h => h _ rfl
  have hvisited : ∀ {left t m'}, Eval.Visits settings steps p m left t m' → m'.Upholds d.regime :=
    fun hvisits =>
      (hvisits.good d.closed hnot Discipline.free_takes (fun _ _ => trivial) hm).1
  -- an operand is evaluated in the state in which the access itself is
  have hrecord : ∀ {left left' task m' e t fields m''}, Eval.Visits settings steps p m left task m' →
      Eval.evaluate settings left' e m' = (.ok (.record t fields), m'') → t.Fits fields :=
    fun hvisits he => (d.evaluated trivial (hvisited hvisits) he).1.recordsFit _ _ (.self _)
  refine ⟨hm.recordsFit, (hrun.upholds hm).recordsFit,
    fun v hv => Value.All.recordsFit (hrun.answer v hv),
    fun left t m' hvisits => (hvisited hvisits).recordsFit, ?_, ?_, ?_⟩
  · intro left e m' v m'' hvisits he
    obtain ⟨hv, hm''⟩ := d.evaluated trivial (hvisited hvisits) he
    exact ⟨hv.recordsFit, hm''.recordsFit⟩
  · intro left e s m' t fields m'' hvisits he hs
    obtain ⟨w, hw⟩ := (hrecord hvisits he).getMember hs
    exact ⟨w, Eval.evaluate_field he hw⟩
  · intro left c i s m' t fields m₁ m₂ hvisits hc hi hs
    obtain ⟨w, hw⟩ := (hrecord hvisits hc).getIndex hs
    exact ⟨w, Eval.evaluate_index hc hi hw⟩

/-- The name of the type means another type by now, and the record keeps its field. -/
theorem records_fit_redefined :
    let source := "type T { a: 1 } let t = T {}; type T { b: 2 }"
    let e : Expr := .field (.name (.text "t")) (.text "a")
    let m := Eval.entered {} (.expr e)
      (Eval.runAll {} 9 .null ((parse none source).toOption.getD []) (Machine.fresh "")).2
    ∃ w, (Eval.evaluate {} 9 e m).1 = .ok w := by
  intro source e m
  have hm : Machine.OfSession
      (Eval.runAll {} 9 .null ((parse none source).toOption.getD []) (Machine.fresh "")).2 :=
    (Machine.OfSession.fresh "").runAll {} 9 .null _
  have hvisits := Eval.visits_expr (show Settings.FitsHost {} by decide) 9 e
    (Eval.runAll {} 9 .null ((parse none source).toOption.getD []) (Machine.fresh "")).2
  have hrecord : (Eval.evaluate {} 8 (.name (.text "t")) m).1.toOption.any
      (Value.declares (.text "a")) = true := by decide +kernel
  rcases hrun : Eval.evaluate {} 8 (.name (.text "t")) m with ⟨_ | v, m'⟩
  · rw [hrun] at hrecord
    cases hrecord
  · rw [hrun] at hrecord
    obtain ⟨t, fields, rfl, ha⟩ := Value.declares_iff.mp hrecord
    obtain ⟨w, hw⟩ := (records_fit hm {} 10 _).2.2.2.2.2.1 8 _ "a" m t fields m' hvisits hrun ha
    exact ⟨w, congrArg Prod.fst hw⟩

end Scripting
