import Scripting.Proofs.Eval.Discipline
import Scripting.Proofs.Eval.Origin
import Scripting.Proofs.Parser.Image
import Scripting.Proofs.Parser.Separation

/-!
Programs that were parsed. Their parts are what parsers make, so that a run meets nothing in the
place of something else: no built-in is unknown, every built-in gets the arguments that it takes, and
the only failure beside the errors of the language is the remainder of an infinity. That one comes up
exactly when a remainder with such operands is reached.
-/

namespace Scripting

open Eval (Visits Reaches evaluators remainderFailure)

namespace Number

theorem isNaN_of_isInf {x : Float} (h : x.isInf = true) : x.isNaN = false := by
  unfold Float.isInf Float.Model.isInf Float.Model.UnpackedFloat.isInf at h
  unfold Float.isNaN Float.Model.isNaN Float.Model.UnpackedFloat.isNaN
  split at h
  · rename_i hx
    rw [hx]
  · cases h

/-- Just the remainder of an infinity has no value. -/
theorem remainder?_eq_none_iff {x y : Float} :
    remainder? x y = none ↔ x.isInf = true ∧ y.isNaN = false := by
  unfold remainder?
  by_cases hx : x.isInf = true
  · have hnan := isNaN_of_isInf hx
    cases hy : y.isNaN with
    | false => simp only [hx, hnan, Bool.or_self, Bool.false_eq_true, if_false, if_true, and_self]
    | true =>
      simp only [hnan, Bool.false_or, if_true]
      exact ⟨nofun, nofun⟩
  · constructor
    · intro h
      split at h
      · cases h
      · -- The infinity is gone from the branches with `hx`.
        split at h <;> cases h
    · exact fun h => absurd h.1 hx

end Number

namespace Value

/-- The operands for which the remainder ends with a defect. -/
theorem remainderOf_fails_iff {x y : Float} :
    remainderOf x y = .error remainderFailure ↔
      x.isInf = true ∧ (y == 0) = false ∧ y.isNaN = false := by
  unfold remainderOf
  by_cases hy : (y == 0) = true
  · simp [hy, Answer.fail]
  · cases hrem : Number.remainder? x y with
    | some z =>
      have hnone : ¬ (x.isInf = true ∧ y.isNaN = false) := by
        rw [← Number.remainder?_eq_none_iff, hrem]
        nofun
      simp only [hy]
      constructor
      · nofun
      · exact fun h => absurd ⟨h.1, h.2.2⟩ hnone
    | none =>
      obtain ⟨hx, hnan⟩ := Number.remainder?_eq_none_iff.mp hrem
      exact ⟨fun _ => ⟨hx, Bool.eq_false_iff.mpr hy, hnan⟩, fun _ => if_neg hy⟩

/-- The values for which the remainder ends with a defect. -/
theorem applyBinary_mod_fails_iff {v w : Value} :
    applyBinary .mod v w = .error remainderFailure ↔
      ∃ x y, v = .number x ∧ w = .number y ∧
        x.isInf = true ∧ (y == 0) = false ∧ y.isNaN = false := by
  constructor
  · intro h
    cases v with
    | number x =>
      cases w with
      | number y => exact ⟨x, y, rfl, rfl, remainderOf_fails_iff.mp h⟩
      | _ => cases h
    | _ => cases h
  · rintro ⟨x, y, rfl, rfl, h⟩
    exact remainderOf_fails_iff.mpr h

end Value

/-- In a state, the operands of a remainder come to an infinite number and to one that is neither
zero nor undefined. -/
def Eval.AsksRemainder (settings : Settings) (steps : Nat) (a b : Expr) (m : Machine) : Prop :=
  ∃ x y m₁ m₂, Eval.evaluate settings steps a m = (.ok (.number x), m₁) ∧
    Eval.evaluate settings steps b m₁ = (.ok (.number y), m₂) ∧
    x.isInf = true ∧ (y == 0) = false ∧ y.isNaN = false

/-- In a state, a call comes to a built-in function and to as many arguments as it has parameters. -/
def Eval.CallsBuiltin (settings : Settings) (steps : Nat) (callee : Expr) (args : List Expr)
    (m : Machine) (f : Function) (vs : List Value) : Prop :=
  ∃ m₁ m₂, Eval.evaluate settings steps callee m = (.ok (.function f), m₁) ∧
    Eval.evaluateAll (evaluators settings steps) args m₁ = (.ok vs, m₂) ∧
    f.native = true ∧ vs.length = f.params.length

namespace Eval

variable {settings : Settings} {steps left : Nat} {m : Machine} {a b : Expr}

def operands (a b : Expr) (r : Evaluators) : Eval (Value × Value) := do
  let v ← r.evaluate a
  let w ← r.evaluate b
  return (v, w)

theorem evaluateStep_binary (op : BinaryOp) (r : Evaluators) :
    evaluateStep settings r (.binary a op b) =
      operands a b r >>= fun x => ofExcept (Value.applyBinary op x.1 x.2) := by
  simp only [operands, bind_assoc, pure_bind]
  rfl

theorem operands_of_ok {r : Evaluators} {v w : Value} {m m₁ m₂ : Machine}
    (ha : r.evaluate a m = (.ok v, m₁)) (hb : r.evaluate b m₁ = (.ok w, m₂)) :
    operands a b r m = (.ok (v, w), m₂) := by
  unfold operands
  rw [bind_of_ok ha, bind_of_ok hb]
  rfl

theorem operands_eq_ok {r : Evaluators} {x : Value × Value} {m m₂ : Machine}
    (h : operands a b r m = (.ok x, m₂)) :
    ∃ m₁, r.evaluate a m = (.ok x.1, m₁) ∧ r.evaluate b m₁ = (.ok x.2, m₂) := by
  obtain ⟨v, m₁, ha, h⟩ := bind_eq_ok h
  obtain ⟨w, m₂', hb, h⟩ := bind_eq_ok h
  cases h
  exact ⟨m₁, ha, hb⟩

theorem AsksRemainder.fails (h : AsksRemainder settings left a b m) :
    (evaluators settings (left + 1)).Fails (.expr (.binary a .mod b)) m remainderFailure := by
  obtain ⟨x, y, m₁, m₂, ha, hb, hxy⟩ := h
  have hrem := Value.applyBinary_mod_fails_iff.mpr ⟨x, y, rfl, rfl, hxy⟩
  show (evaluateStep settings (evaluators settings left) (.binary a .mod b) m).1 = _
  rw [evaluateStep_binary, bind_of_ok (operands_of_ok ha hb), hrem]
  rfl

/-- A remainder fails for an infinity because it is asked for, or through its operands. -/
theorem remainder_origin
    (h : (evaluators settings (steps + 1)).Fails (.expr (.binary a .mod b)) m remainderFailure) :
    AsksRemainder settings steps a b m ∨
      ∃ t m', (evaluators settings steps).Fails t m' remainderFailure ∧
        (evaluators settings steps).Demands settings (.expr (.binary a .mod b)) m t m' := by
  change (evaluateStep settings (evaluators settings steps) (.binary a .mod b) m).1 = _ at h
  rw [evaluateStep_binary] at h
  rcases hrun : operands a b (evaluators settings steps) m with ⟨e | x, m₂⟩
  · rw [bind_of_error hrun] at h
    cases h
    have hcomposed : Composed (· ≠ remainderFailure) (fun _ => True) .quiet
        (fun _ r => operands a b r) :=
      .bind (.evaluate trivial) fun _ => .bind (.evaluate trivial) fun _ => .pure _
    obtain ⟨t, m', hfails, hdemands⟩ := hcomposed.origin settings
      (evaluators_restore settings steps) (not_not_intro rfl) m (congrArg Prod.fst hrun)
    refine .inr ⟨t, m', hfails, fun f => ?_⟩
    show (evaluateStep settings _ (.binary a .mod b) m).1 = _
    rw [evaluateStep_binary]
    exact bind_fails (hdemands f)
  · obtain ⟨m₁, ha, hb⟩ := operands_eq_ok hrun
    rw [bind_of_ok hrun] at h
    obtain ⟨v, w⟩ := x
    have hrem : Value.applyBinary .mod v w = .error remainderFailure := by
      cases happly : Value.applyBinary .mod v w with
      | ok z =>
        rw [happly] at h
        cases h
      | error e =>
        rw [happly] at h
        cases h
        rfl
    obtain ⟨x, y, rfl, rfl, hxy⟩ := Value.applyBinary_mod_fails_iff.mp hrem
    exact .inl ⟨x, y, m₁, m₂, ha, hb, hxy⟩

/-- Followed inward, the failure ends at a remainder that is asked for. -/
theorem remainder_reached {t : Task}
    (h : (evaluators settings steps).Fails t m remainderFailure) :
    ∃ left a b m', Reaches settings steps t m (left + 1) (.expr (.binary a .mod b)) m' ∧
      AsksRemainder settings left a b m' := by
  induction steps generalizing t m with
  | zero => cases t <;> cases h
  | succ steps ih =>
    have hinside : (∃ t' m', (evaluators settings steps).Fails t' m' remainderFailure ∧
        (evaluators settings steps).Demands settings t m t' m') →
        ∃ left a b m', Reaches settings (steps + 1) t m (left + 1) (.expr (.binary a .mod b)) m' ∧
          AsksRemainder settings left a b m' := by
      rintro ⟨t', m', hfails, hdemands⟩
      obtain ⟨left, a, b, m'', hreaches, hasks⟩ := ih hfails
      exact ⟨left, a, b, m'', .inside hdemands hreaches, hasks⟩
    have hr := evaluators_restore settings steps
    cases t with
    | stmt s =>
      have hs : Composed (· ≠ remainderFailure) (· ∈ s.parts) .declaring
          (fun settings r => executeStep settings r s) :=
        composed_executeStep (fun _ _ hf _ => hf) (fun _ _ _ => nofun) fun _ => rfl
      exact hinside (hs.origin settings hr (not_not_intro rfl) m h)
    | expr e =>
      by_cases he : ∃ a b, e = .binary a .mod b
      · obtain ⟨a, b, rfl⟩ := he
        rcases remainder_origin h with hasks | hdemanded
        · exact ⟨steps, a, b, m, .here, hasks⟩
        · exact hinside hdemanded
      · have hother : Composed (· ≠ remainderFailure) (· ∈ e.parts) .quiet
            (fun settings r => evaluateStep settings r e) :=
          composed_evaluateStep (fun _ _ hf _ => hf) fun a b heq => absurd ⟨a, b, heq⟩ he
        exact hinside (hother.origin settings hr (not_not_intro rfl) m h)

/-- The same for a whole program: no statement of it fails for an infinity by itself. -/
theorem remainder_visited {p : Program} {last : Value}
    (h : (runAll settings steps last p m).1 = .error remainderFailure) :
    ∃ left a b m', Visits settings steps p m (left + 1) (.expr (.binary a .mod b)) m' ∧
      AsksRemainder settings left a b m' := by
  have hinner : IsInner remainderFailure := ⟨fun o m => by cases o <;> nofun, nofun, nofun⟩
  obtain ⟨s, m', hvisits, -, hfails⟩ := visits_of_fails h hinner
  obtain ⟨left, a, b, m'', hreaches, hasks⟩ := remainder_reached hfails
  exact ⟨left, a, b, m'', hvisits.trans hreaches, hasks⟩

theorem remainder_iff {p : Program} {last : Value} :
    (runAll settings steps last p m).1 = .error remainderFailure ↔
      ∃ left a b m', Visits settings steps p m (left + 1) (.expr (.binary a .mod b)) m' ∧
        AsksRemainder settings left a b m' := by
  constructor
  · exact remainder_visited
  · rintro ⟨left, a, b, m', hvisits, hasks⟩
    exact hvisits.fails hasks.fails nofun last

end Eval

/-- A function that is no built-in, or one that takes every choice of as many arguments as it has
parameters, behind its receiver. -/
def Function.FitsBuiltin (f : Function) : Prop :=
  f.native = true → ∃ b, Builtin.ofName? f.name = some b ∧
    ∀ args : List Value, args.length = f.params.length →
      b.accepts (f.receiver.toList ++ args) = true

namespace Builtin

theorem ofName?_name (b : Builtin) : ofName? (.text b.name) = some b := by
  cases b <;> rfl

/-- Whether a built-in can have this receiver: methods of lists have a list, methods of texts have a
text, and functions have none. -/
def receives : Builtin → Option Value → Bool
  | input, none | toNumber, none | length, none | push, none | remove, none => true
  | listPush, some (.list _) | listRemove, some (.list _) | listLength, some (.list _)
  | listLen, some (.list _) => true
  | textLen, some (.text _) | textLength, some (.text _) | textUpper, some (.text _)
  | textLower, some (.text _) => true
  | _, _ => false

theorem accepts_of_receives {b : Builtin} {receiver : Option Value} {args : List Value}
    (hreceiver : b.receives receiver = true) (hargs : args.length = b.params.length) :
    b.accepts (receiver.toList ++ args) = true := by
  unfold receives at hreceiver
  split at hreceiver
  all_goals first
    | cases hreceiver; done
    | match args, hargs with
      | [], _ => rfl
    | match args, hargs with
      | [_], _ => rfl
    | match args, hargs with
      | [_, _], _ => rfl

theorem fits_of_receives {b : Builtin} {receiver : Option Value}
    (h : b.receives receiver = true) : (b.function receiver).FitsBuiltin := by
  refine fun _ => ⟨b, ofName?_name b, fun args hargs => accepts_of_receives h ?_⟩
  simpa [function, Function.params] using hargs

theorem receives_global {b : Builtin} (hb : b ∈ globals) : b.receives none = true := by
  cases b <;> first | rfl | exact absurd hb (by decide)

theorem receives_listMethod {n : Name} {b : Builtin} (hb : listMethod? n = some b)
    (items : List Value) : b.receives (some (.list items)) = true := by
  unfold listMethod? at hb
  split at hb <;> cases hb <;> rfl

theorem receives_textMethod {n : Name} {b : Builtin} (hb : textMethod? n = some b) (s : String) :
    b.receives (some (.text s)) = true := by
  unfold textMethod? at hb
  split at hb <;> cases hb <;> rfl

end Builtin

theorem Name.isKey_of_isText {n : Name} (h : n.isText = true) : n.isKey = true := by
  cases n with
  | text s => rfl
  | data s => cases h
  | compound s => cases h

/-- The failures of programs that were parsed: the errors of the language, less those that tell of
an unknown built-in or operator and of a part that could not be read, and the remainder of an
infinity. -/
def Failure.IsSource : Failure → Prop
  | .error (.unknownBuiltin _) | .error (.unknownOperator _) => False
  | .error (.invalidStatement _) | .error (.invalidExpression _) => False
  | .error _ | .exhausted | .outOfSteps => True
  | .defect d => d = .remainderOfInfinity

theorem isSource_of_isOrdinary {e : RuntimeError} (h : e.isOrdinary = true) :
    (Failure.error e).IsSource := by
  cases e <;> trivial

/-- What parsers make of any tokens. -/
abbrev Form.parsed : Form := .ofTokens fun _ => true

namespace Form

theorem isKey_parsed {n : Name} (h : parsed.name n = true) : n.isKey = true :=
  Name.isKey_of_isText (Bool.and_eq_true_iff.mp h).1

theorem isKey_params {ps : List Name} (h : ps.all parsed.name = true) : ∀ p ∈ ps, p.isKey = true :=
  fun p hp => isKey_parsed (List.all_eq_true.mp h p hp)

end Form

/-- Functions whose body was parsed, and the built-ins. -/
structure Function.IsSource (f : Function) : Prop where
  params : ∀ p ∈ f.params, p.isKey = true
  body : Form.parsed.stmts f.body = true
  builtin : f.FitsBuiltin

theorem Builtin.isSource_function {b : Builtin} {receiver : Option Value}
    (h : b.receives receiver = true) : (b.function receiver).IsSource := by
  refine ⟨fun p hp => ?_, rfl, fits_of_receives h⟩
  obtain ⟨s, -, rfl⟩ := List.mem_map.mp hp
  rfl

theorem Function.mem_params_of_bindTo {f : Function} {v : Value} {p : Name}
    (h : p ∈ (f.bindTo v).params) : p ∈ f.params := by
  unfold Function.bindTo at h
  dsimp only [Function.params] at h
  split at h
  · rename_i rest heq
    have hparams : f.params = .text "self" :: rest := heq
    rw [hparams]
    exact List.mem_cons_of_mem _ h
  · exact h

def sourcePolicy : Policy where
  failure := Failure.IsSource
  function ps body := (∀ p ∈ ps, p.isKey = true) ∧ Form.parsed.stmts body = true
  signals := false

namespace Form

variable {n : Name}

theorem key_parsed (h : parsed.name n = true) : sourcePolicy.Key n := .inl (isKey_parsed h)

def parsedTasks : Tasks := .among fun t => parsed.task t = true

theorem admitted_expr {e : Expr} (h : parsed.expr e = true) :
    e.Admitted sourcePolicy parsedTasks := by
  cases e with
  | name n => exact key_parsed h
  | assign n e => exact (Bool.and_eq_true_iff.mp h).imp_left key_parsed
  | unary op e => exact h
  | binary a op b =>
    obtain ⟨ha, hb⟩ := Bool.and_eq_true_iff.mp h
    exact ⟨ha, hb, fun _ => rfl⟩
  | call f args => exact (Bool.and_eq_true_iff.mp h).imp_right exprs_iff.mp
  | block ss => exact ⟨.any, stmts_iff.mp (Bool.and_eq_true_iff.mp h).2, .inr trivial⟩
  | lambda ps body => exact (Bool.and_eq_true_iff.mp h).imp_left isKey_params
  | list es => exact exprs_iff.mp h
  | tuple es => exact exprs_iff.mp (Bool.and_eq_true_iff.mp h).2
  | dict ps => exact pairs_iff.mp h
  | field e n => exact (Bool.and_eq_true_iff.mp h).symm.imp_left key_parsed
  | index c i => exact Bool.and_eq_true_iff.mp h
  | record t fs =>
    simp only [expr, Bool.and_eq_true] at h
    exact ⟨key_parsed h.1.1, fun f hf => (fields_iff.mp h.2 f hf).imp_left key_parsed⟩
  | datum t => cases h
  | invalid s => cases h
  | stray w => cases h
  | _ => trivial

theorem admitted_stmt {σ : Signals} {s : Stmt} (h : parsed.stmt s = true) :
    s.Admitted sourcePolicy parsedTasks σ := by
  cases s with
  | let_ n e => exact (Bool.and_eq_true_iff.mp h).imp_left key_parsed
  | const n e => exact (Bool.and_eq_true_iff.mp h).imp_left key_parsed
  | function n ps body =>
    simp only [stmt, Bool.and_eq_true] at h
    exact ⟨key_parsed h.1.1, isKey_params h.1.2, h.2⟩
  | return_ e => exact ⟨nofun, fun e' he => by cases he; exact h⟩
  | if_ c t e =>
    simp only [stmt, Bool.and_eq_true] at h
    refine ⟨h.1.1, stmts_iff.mp h.1.2, fun ss hss => ?_⟩
    cases hss
    exact stmts_iff.mp h.2
  | while_ c body =>
    simp only [stmt, Bool.and_eq_true] at h
    exact ⟨h.1.2, stmts_iff.mp h.2, trivial⟩
  | for_ n a b body =>
    simp only [stmt, Bool.and_eq_true] at h
    exact ⟨key_parsed h.1.1.1, h.1.1.2, h.1.2, stmts_iff.mp h.2⟩
  | block ss => exact stmts_iff.mp h
  | break_ => exact nofun
  | continue_ => exact nofun
  | print e => exact (Bool.and_eq_true_iff.mp h).2
  | printAll es => exact exprs_iff.mp (Bool.and_eq_true_iff.mp h).2
  | type n fs ms =>
    simp only [stmt, Bool.and_eq_true] at h
    obtain ⟨⟨⟨hn, hfs⟩, hfunctions⟩, hms⟩ := h
    refine ⟨key_parsed hn, fun f hf => (fields_iff.mp hfs f hf).imp_left key_parsed, fun s hs => ?_⟩
    have hmade := stmts_iff.mp hms s hs
    cases s with
    | function m ps body =>
      simp only [stmt, Bool.and_eq_true] at hmade
      exact ⟨key_parsed hmade.1.1, isKey_params hmade.1.2, hmade.2⟩
    | _ => exact nomatch List.all_eq_true.mp hfunctions _ hs
  | import_ path => trivial
  | invalid s => cases h
  | stray w => cases h
  | _ => exact h

end Form

def Discipline.source : Discipline where
  toPolicy := sourcePolicy
  tasks := Form.parsedTasks
  known := Function.IsSource
  expr := Form.admitted_expr
  stmt := Form.admitted_stmt
  tolerant _ h := isSource_of_isOrdinary h
  exhausted := trivial
  outOfSteps := trivial
  made _ _ h := ⟨h.1, h.2, nofun⟩
  bindTo v h := ⟨fun p hp => h.params p (Function.mem_params_of_bindTo hp), h.body, nofun⟩
  listMethod items hb := Builtin.isSource_function (Builtin.receives_listMethod hb items)
  textMethod s hb := Builtin.isSource_function (Builtin.receives_textMethod hb s)
  global hb := Builtin.isSource_function (Builtin.receives_global hb)
  defined h _ := ⟨fun p hp => .inl (h.params p hp), .any, Form.stmts_iff.mp h.body,
    .inr ⟨trivial, trivial⟩⟩
  native h hnative hargs := by
    obtain ⟨b, hb, haccepts⟩ := h.builtin hnative
    exact .inl ⟨b, hb, haccepts _ hargs⟩

/-- Where the host cannot do with the limit on calls, a program does nothing: it fails at once, or it
has no statement. -/
theorem Eval.runAll_of_not_fits {settings : Settings} (h : ¬ settings.FitsHost) (steps : Nat)
    (last : Value) (p : Program) (m : Machine) :
    (runAll settings steps last p m).1 = .ok last ∨
      (runAll settings steps last p m).1 = .error (.defect .limitTooLarge) := by
  cases p with
  | nil => exact .inl rfl
  | cons s rest =>
    refine .inr (bind_fails ?_)
    rw [runStmt_apply]
    exact bind_fails (congrArg Prod.fst (onHostStack_of_lt (Int.not_le.mp h) _ _))

/-- A program that was parsed runs without stray failures, whatever the input and the limits are. An
error is none of the four that tell of an unknown built-in or operator and of unreadable parts. A defect
is the remainder of an infinity, or the limit on calls is beyond the host; and the run ends with the
remainder exactly when it reaches one of an infinite number by one that is neither zero nor undefined.
Every built-in function that is called with as many arguments as it has parameters takes them. -/
theorem parsed_program_failures {limit : Option Int} {source : String} {p : Program}
    (hp : parse limit source = .ok p) (settings : Settings) (steps : Nat) (input : String) :
    (∀ e, (Eval.runAll settings steps .null p (Machine.fresh input)).1 = .error (.error e) →
      ∀ text n op, e ≠ .unknownBuiltin n ∧ e ≠ .unknownOperator op ∧
        e ≠ .invalidStatement text ∧ e ≠ .invalidExpression text) ∧
    (∀ d, (Eval.runAll settings steps .null p (Machine.fresh input)).1 = .error (.defect d) →
      d = .remainderOfInfinity ∨ d = .limitTooLarge ∧ ¬ settings.FitsHost) ∧
    ((Eval.runAll settings steps .null p (Machine.fresh input)).1 =
        .error (.defect .remainderOfInfinity) ↔
      ∃ left a b m,
        Visits settings steps p (Machine.fresh input) (left + 1) (.expr (.binary a .mod b)) m ∧
        Eval.AsksRemainder settings left a b m) ∧
    (∀ left callee args m f vs,
      Visits settings steps p (Machine.fresh input) (left + 1) (.expr (.call callee args)) m →
      Eval.CallsBuiltin settings left callee args m f vs →
      ∃ b, Builtin.ofName? f.name = some b ∧ b.accepts (f.receiver.toList ++ vs) = true) := by
  let d := Discipline.source
  have hfresh := d.fresh input
  have hbody : d.regime.tasks.Body .any p :=
    Form.stmts_iff.mp (Parser.made_of_parseStream (Stream.all_true (Stream.ofText source)) hp)
  have htakes : d.regime.Takes .any := .inr ⟨trivial, trivial, trivial⟩
  have hrun : settings.FitsHost → ∀ f,
      (Eval.runAll settings steps .null p (Machine.fresh input)).1 = .error f → f.IsSource :=
    fun hfits => (Eval.keepsTo_runAll d.closed htakes (.inl hfits) steps .null hbody _ hfresh
      (Nat.zero_le _)).failure
  have hidle : ¬ settings.FitsHost → ∀ f,
      (Eval.runAll settings steps .null p (Machine.fresh input)).1 = .error f →
      f = .defect .limitTooLarge := by
    intro hfits f hf
    rcases Eval.runAll_of_not_fits hfits steps .null p (Machine.fresh input) with h | h
    · cases h.symm.trans hf
    · exact Except.error.inj (hf.symm.trans h)
  refine ⟨fun e he text n op => ?_, fun defect hdefect => ?_, Eval.remainder_iff, ?_⟩
  · by_cases hfits : settings.FitsHost
    · have hsource := hrun hfits _ he
      refine ⟨?_, ?_, ?_, ?_⟩ <;> rintro rfl <;> exact hsource
    · cases hidle hfits _ he
  · by_cases hfits : settings.FitsHost
    · exact .inl (hrun hfits _ hdefect)
    · exact .inr ⟨Failure.defect.inj (hidle hfits _ hdefect), hfits⟩
  · rintro left callee args m f vs hvisits ⟨m₁, m₂, hcallee, -, hnative, hlength⟩
    have hnot : ¬ d.regime.failure (.defect .wrongType) := nofun
    obtain ⟨hm, hcall⟩ := hvisits.good d.closed hnot htakes hbody hfresh
    have hf := ((Eval.evaluators_keepTo d.closed settings left).evaluate
      (d.expr hcall).1 m hm (Nat.zero_le _)).answer _ (congrArg Prod.fst hcallee)
    cases hf with
    | function hf =>
      obtain ⟨b, hb, haccepts⟩ := hf.own.builtin hnative
      exact ⟨b, hb, haccepts vs hlength⟩

def isFailure (f : Failure) : Except Failure Value → Bool
  | .ok _ => false
  | .error e => e = f

theorem eq_error_of_isFailure {f : Failure} {x : Except Failure Value} (h : isFailure f x = true) :
    x = .error f := by
  cases x with
  | ok v => cases h
  | error e => exact congrArg _ (of_decide_eq_true h)

/-- Ten is squared until it is infinite, and a remainder of it is reached. -/
theorem parsed_program_failures_squares :
    let p := (parse none "let x = 10; for i in 0..9 { x = x * x } x % 2").toOption.getD []
    ∃ left a b m, Visits {} 9 p (Machine.fresh "") (left + 1) (.expr (.binary a .mod b)) m ∧
      Eval.AsksRemainder {} left a b m := by
  have hp : (parse none "let x = 10; for i in 0..9 { x = x * x } x % 2").isOk = true := by
    decide +kernel
  refine (parsed_program_failures (eq_ok_of_isOk hp) {} 9 "").2.2.1.mp (eq_error_of_isFailure ?_)
  decide +kernel

end Scripting
