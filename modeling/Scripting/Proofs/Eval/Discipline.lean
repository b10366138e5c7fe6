import Scripting.Proofs.Eval.Evolution

/-!
Disciplines of programs. A discipline is a regime that asks nothing of frames, so it is known of any
function wherever it was made, and that admits the parts of whatever it admits. When a program obeys it
and so does every function in the store, a run keeps both: all values that come up hold only such
functions and only records with the fields of their types, signals stay where they may go, and no other
failure ends the run.
-/

namespace Scripting

/-- A record has the fields that its type declares, in their order; a dictionary may have any. -/
def RecordType.Fits (t : RecordType) (fields : List (Name × Value)) : Prop :=
  t = .dict ∨ Named.names fields = Named.names t.fields

/-- What may occur in a program, in its store and at its end. -/
structure Discipline extends Policy where
  tasks : Tasks
  known : Function → Prop
  expr {e : Expr} : tasks.expr e → e.Admitted toPolicy tasks
  stmt {σ : Signals} {s : Stmt} : tasks.stmt σ s → s.Admitted toPolicy tasks σ
  tolerant : Tolerant failure
  exhausted : failure .exhausted
  outOfSteps : failure .outOfSteps
  made {params : List Name} {body : List Stmt} (name : Name) (f : FrameId) :
    function params body → known (.mk params body name (some f) false none)
  bindTo {f : Function} (v : Value) : known f → known (f.bindTo v)
  listMethod {n : Name} {b : Builtin} (items : List Value) : Builtin.listMethod? n = some b →
    known (b.function (some (.list items)))
  textMethod {n : Name} {b : Builtin} (s : String) : Builtin.textMethod? n = some b →
    known (b.function (some (.text s)))
  global {b : Builtin} : b ∈ Builtin.globals → known (b.function none)
  defined {f : Function} : known f → f.native = false → f.CanRun toPolicy tasks
  native {f : Function} {args : List Value} : known f → f.native = true →
    args.length = f.params.length → f.CanTake toPolicy args

namespace Discipline

variable (d : Discipline)

/-- What a discipline asks of values: its own of functions, and of records that they fit. -/
def content : Content := ⟨d.known, RecordType.Fits⟩

def regime : Regime where
  toPolicy := d.toPolicy
  tasks := d.tasks
  known _ := d.known
  record := RecordType.Fits
  frame _ _ := True
  shape _ := True
  known_mono _ h := h
  frame_mono _ h := h
  made name h _ := d.made name _ h
  bound v h _ := d.bindTo v h
  listMethod := d.listMethod
  textMethod := d.textMethod
  home _ _ := trivial
  defined := d.defined
  native := d.native
  dict _ := .inl rfl
  declared := .inr
  child _ _ := trivial
  modify _ _ _ := trivial
  tolerant := d.tolerant
  exhausted := d.exhausted

theorem closed : d.regime.Closed := ⟨d.expr, d.stmt, d.outOfSteps⟩

/-- Every state whose store holds only what the discipline knows keeps to it. -/
theorem upholds_iff {m : Machine} : m.Upholds d.regime ↔ m.store.All d.content := by
  constructor
  · exact fun h f => h.store.values f trivial
  · intro h
    refine ⟨⟨fun n hn f => ?_, fun f _ => h f, fun _ _ _ _ => trivial, trivial⟩, trivial⟩
    by_cases heq : f = n
    · exact ⟨fun _ => .inl heq, fun _ => trivial⟩
    · exact ⟨fun _ => .inr trivial, fun _ => trivial⟩

/-- The functions of a fresh state are the built-ins. -/
theorem fresh (input : String) : (Machine.fresh input).Upholds d.regime := by
  have hadd : ∀ (bs : List Builtin) (s : Store), (∀ b ∈ bs, b ∈ Builtin.globals) →
      s.All d.content → (bs.foldl (fun s b =>
        s.set globals (.text b.name) (.function (b.function none))) s).All d.content := by
    intro bs
    induction bs with
    | nil => exact fun s _ hs => hs
    | cons b rest ih =>
      intro s hbs hs
      rw [List.foldl_cons]
      refine ih _ (fun c hc => hbs c (List.mem_cons_of_mem b hc)) (hs.set _ _ (.function ?_))
      exact .mk (d.global (hbs b List.mem_cons_self)) fun _ h => nomatch h
  refine d.upholds_iff.mpr (hadd _ _ (fun _ h => h) fun g => ?_)
  rw [Store.frame_root]
  exact fieldsAll_nil

end Discipline

end Scripting
