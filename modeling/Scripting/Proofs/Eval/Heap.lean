import Scripting.Session

/-!
What holds of every function and of every record in a state. A predicate on both is carried through
values, where they stand in lists, records, types and receivers, and through frames to the whole store.
The operations on frames keep it, and so do operators, members and indices.
-/

namespace Scripting

namespace Named

variable {κ α : Type} [BEq κ]

theorem mem_put {name : κ} {value : α} {xs : List (κ × α)} {p : κ × α}
    (h : p ∈ put name value xs) : p.2 = value ∨ p ∈ xs := by
  induction xs with
  | nil =>
    rw [put, List.mem_singleton] at h
    exact .inl (congrArg Prod.snd h)
  | cons x rest ih =>
    rw [put] at h
    split at h
    · rcases List.mem_cons.mp h with rfl | h
      · exact .inl rfl
      · exact .inr (List.mem_cons_of_mem x h)
    · rcases List.mem_cons.mp h with rfl | h
      · exact .inr List.mem_cons_self
      · exact (ih h).imp_right (List.mem_cons_of_mem x)

theorem mem_of_lookup {name : κ} {value : α} {xs : List (κ × α)}
    (h : xs.lookup name = some value) : ∃ p ∈ xs, p.2 = value := by
  induction xs with
  | nil => cases h
  | cons x rest ih =>
    rw [List.lookup_cons] at h
    split at h
    · exact ⟨x, List.mem_cons_self, Option.some.inj h⟩
    · obtain ⟨p, hp, hv⟩ := ih h
      exact ⟨p, List.mem_cons_of_mem x hp, hv⟩

theorem contains_names (name : κ) (xs : List (κ × α)) :
    (names xs).contains name = has name xs := by
  induction xs with
  | nil => rfl
  | cons x rest ih =>
    obtain ⟨n, v⟩ := x
    unfold names has at *
    rw [List.map_cons, List.contains_cons, List.lookup_cons, ih]
    cases name == n <;> rfl

/-- A name at the end of other names, unless it is among them. -/
def withName (name : κ) (ns : List κ) : List κ := if ns.contains name then ns else ns ++ [name]

/-- A name that is put keeps its place among the names, or comes last. -/
theorem names_put [LawfulBEq κ] (name : κ) (value : α) (xs : List (κ × α)) :
    names (put name value xs) = withName name (names xs) := by
  induction xs with
  | nil => rfl
  | cons x rest ih =>
    obtain ⟨n, v⟩ := x
    unfold names withName at *
    by_cases h : n = name
    · simp [put, h]
    · have hne : (name == n) = false := beq_eq_false_iff_ne.mpr fun heq => h heq.symm
      rw [put, if_neg (by simpa using h), List.map_cons, List.map_cons, ih, List.contains_cons, hne,
        Bool.false_or]
      exact apply_ite (n :: ·) _ _ _

theorem names_put_of_has [LawfulBEq κ] {name : κ} {xs : List (κ × α)} (h : has name xs = true)
    (value : α) : names (put name value xs) = names xs := by
  rw [names_put, withName, contains_names, if_pos h]

end Named

/-- What is asked of the functions and of the records in a value. -/
structure Content where
  function : Function → Prop
  record : RecordType → List (Name × Value) → Prop

mutual

/-- Every function and every record in a value satisfies `I`. -/
inductive Value.All (I : Content) : Value → Prop
  | number (x : Float) : Value.All I (.number x)
  | bool (b : Bool) : Value.All I (.bool b)
  | text (s : String) : Value.All I (.text s)
  | null : Value.All I .null
  | list {items : List Value} (h : ∀ v ∈ items, Value.All I v) : Value.All I (.list items)
  | function {f : Function} (h : Function.All I f) : Value.All I (.function f)
  | type {t : RecordType} (h : RecordType.All I t) : Value.All I (.type t)
  | record {t : RecordType} {fields : List (Name × Value)} (type : RecordType.All I t)
      (own : I.record t fields) (h : ∀ p ∈ fields, Value.All I p.2) : Value.All I (.record t fields)
  | datum (t : Tree) : Value.All I (.datum t)

/-- A function satisfies `I`, and so does all that is in its receiver. -/
inductive Function.All (I : Content) : Function → Prop
  | mk {f : Function} (own : I.function f) (receiver : ∀ v, f.receiver = some v → Value.All I v) :
      Function.All I f

/-- All that is in the fields and methods of a type satisfies `I`, and so does every method that is
taken from a record of the type. -/
inductive RecordType.All (I : Content) : RecordType → Prop
  | mk {t : RecordType} (fields : ∀ p ∈ t.fields, Value.All I p.2)
      (methods : ∀ p ∈ t.methods, Function.All I p.2)
      (bound : ∀ p ∈ t.methods, ∀ v, I.function (p.2.bindTo v)) : RecordType.All I t

end

/-- A function stands in a value: in an item of a list, in a field or the type of a record, in a default
or a method of a type, or in the receiver of another function. -/
inductive Value.Holds : Value → Function → Prop
  | here (f : Function) : Holds (.function f) f
  | item {items : List Value} {v : Value} {g : Function} (hv : v ∈ items) (h : Holds v g) :
      Holds (.list items) g
  | receiver {f : Function} {v : Value} {g : Function} (hv : f.receiver = some v) (h : Holds v g) :
      Holds (.function f) g
  | default {t : RecordType} {p : Name × Value} {g : Function} (hp : p ∈ t.fields)
      (h : Holds p.2 g) : Holds (.type t) g
  | method {t : RecordType} {p : Name × Function} {g : Function} (hp : p ∈ t.methods)
      (h : Holds (.function p.2) g) : Holds (.type t) g
  | type {t : RecordType} {fields : List (Name × Value)} {g : Function} (h : Holds (.type t) g) :
      Holds (.record t fields) g
  | field {t : RecordType} {fields : List (Name × Value)} {p : Name × Value} {g : Function}
      (hp : p ∈ fields) (h : Holds p.2 g) : Holds (.record t fields) g

def FieldsAll (I : Content) (fields : List (Name × Value)) : Prop :=
  ∀ p ∈ fields, p.2.All I

def Frame.All (I : Content) (f : Frame) : Prop := FieldsAll I f.bindings

def Store.All (I : Content) (s : Store) : Prop := ∀ f, (s.frame f).All I

variable {I : Content}

theorem Function.All.own {f : Function} (h : f.All I) : I.function f := by
  cases h with
  | mk own _ => exact own

theorem Function.All.receiver {f : Function} {v : Value} (h : f.All I)
    (hv : f.receiver = some v) : v.All I := by
  cases h with
  | mk _ receiver => exact receiver v hv

theorem RecordType.All.fields {t : RecordType} (h : t.All I) : FieldsAll I t.fields := by
  cases h with
  | mk fields _ _ => exact fields

theorem RecordType.All.methods {t : RecordType} (h : t.All I) :
    ∀ p ∈ t.methods, p.2.All I := by
  cases h with
  | mk _ methods _ => exact methods

theorem RecordType.All.bound {t : RecordType} (h : t.All I) :
    ∀ p ∈ t.methods, ∀ v, I.function (p.2.bindTo v) := by
  cases h with
  | mk _ _ bound => exact bound

theorem Named.sizeOf_value_lt {κ α : Type} [SizeOf κ] [SizeOf α] {p : κ × α} {xs : List (κ × α)}
    (h : p ∈ xs) : sizeOf p.2 < sizeOf xs := by
  have hlt := List.sizeOf_lt_of_mem h
  obtain ⟨k, v⟩ := p
  simp only [Prod.mk.sizeOf_spec] at hlt ⊢
  omega

/-- Nothing is asked of records, and nothing of a function that depends on its receiver. -/
structure Content.Loose (I : Content) : Prop where
  record (t : RecordType) (fields : List (Name × Value)) : I.record t fields
  bindTo {f : Function} (v : Value) : I.function f → I.function (f.bindTo v)

mutual

/-- What holds of the functions that stand in a value holds throughout it. -/
theorem Value.all_of_holds (hI : I.Loose) : (v : Value) → (∀ g, v.Holds g → I.function g) → v.All I
  | .number x, _ => .number x
  | .bool b, _ => .bool b
  | .text s, _ => .text s
  | .null, _ => .null
  | .list items, h => .list fun v hv =>
    have := List.sizeOf_lt_of_mem hv
    Value.all_of_holds hI v fun g hg => h g (.item hv hg)
  | .function f, h => .function (Function.all_of_holds hI f h)
  | .type t, h => .type (RecordType.all_of_holds hI t h)
  | .record t fields, h =>
    .record (RecordType.all_of_holds hI t fun g hg => h g (.type hg)) (hI.record t fields)
      fun p hp =>
        have := Named.sizeOf_value_lt hp
        Value.all_of_holds hI p.2 fun g hg => h g (.field hp hg)
  | .datum t, _ => .datum t
termination_by v => sizeOf v

theorem Function.all_of_holds (hI : I.Loose) :
    (f : Function) → (∀ g, (Value.function f).Holds g → I.function g) → f.All I
  | .mk _ _ _ _ _ none, h => .mk (h _ (.here _)) nofun
  | .mk _ _ _ _ _ (some v), h => .mk (h _ (.here _)) fun _ hw =>
    Option.some.inj hw ▸ Value.all_of_holds hI v fun g hg => h g (.receiver rfl hg)
termination_by f => sizeOf f

theorem RecordType.all_of_holds (hI : I.Loose) :
    (t : RecordType) → (∀ g, (Value.type t).Holds g → I.function g) → t.All I
  | .mk name fields methods, h =>
    .mk
      (fun p (hp : p ∈ fields) =>
        have := Named.sizeOf_value_lt hp
        Value.all_of_holds hI p.2 fun g hg => h g (.default (t := .mk name fields methods) hp hg))
      (fun p (hp : p ∈ methods) =>
        have := Named.sizeOf_value_lt hp
        Function.all_of_holds hI p.2 fun g hg => h g (.method (t := .mk name fields methods) hp hg))
      (fun p (hp : p ∈ methods) v =>
        hI.bindTo v (h p.2 (.method (t := .mk name fields methods) hp (.here _))))
termination_by t => sizeOf t

end

structure Content.Le (I I' : Content) : Prop where
  function : ∀ f, I.function f → I'.function f
  record : ∀ t fields, I.record t fields → I'.record t fields

mutual

/-- What satisfies more satisfies less, at any depth. -/
theorem Value.All.mono {I' : Content} (h : I.Le I') {v : Value} : v.All I → v.All I'
  | .number x => .number x
  | .bool b => .bool b
  | .text s => .text s
  | .null => .null
  | .list hitems => .list fun v hv => (hitems v hv).mono h
  | .function hf => .function (hf.mono h)
  | .type ht => .type (ht.mono h)
  | .record ht own hfields =>
    .record (ht.mono h) (h.record _ _ own) fun p hp => (hfields p hp).mono h
  | .datum t => .datum t

theorem Function.All.mono {I' : Content} (h : I.Le I') {f : Function} : f.All I → f.All I'
  | .mk own hreceiver => .mk (h.function f own) fun v hv => (hreceiver v hv).mono h

theorem RecordType.All.mono {I' : Content} (h : I.Le I') {t : RecordType} : t.All I → t.All I'
  | .mk hfields hmethods hbound =>
    .mk (fun p hp => (hfields p hp).mono h) (fun p hp => (hmethods p hp).mono h)
      fun p hp v => h.function _ (hbound p hp v)

end

/-- What holds throughout a value holds of each function that stands in it. -/
theorem Value.All.holds {v : Value} (h : v.All I) {g : Function} (hg : v.Holds g) :
    I.function g := by
  induction hg with
  | here f =>
    cases h with
    | function hf => exact hf.own
  | item hv _ ih =>
    cases h with
    | list hitems => exact ih (hitems _ hv)
  | receiver hv _ ih =>
    cases h with
    | function hf => exact ih (hf.receiver hv)
  | default hp _ ih =>
    cases h with
    | type ht => exact ih (ht.fields _ hp)
  | method hp _ ih =>
    cases h with
    | type ht => exact ih (.function (ht.methods _ hp))
  | type _ ih =>
    cases h with
    | record ht => exact ih (.type ht)
  | field hp _ ih =>
    cases h with
    | record _ _ hfields => exact ih (hfields _ hp)

theorem RecordType.all_dict : RecordType.dict.All I :=
  .mk (fun _ h => nomatch h) (fun _ h => nomatch h) fun _ h => nomatch h

/-- Data in the place of a text holds no function. -/
theorem Value.all_ofTree (t : Tree) : (Value.ofTree t).All I := by
  cases t with
  | bool b => exact .bool b
  | float x => exact .number x
  | text s => exact .text s
  | _ => exact .datum _

section Fields

variable {fields : List (Name × Value)} {n : Name} {v : Value}

theorem fieldsAll_nil : FieldsAll I [] := fun _ h => nomatch h

theorem FieldsAll.put (h : FieldsAll I fields) (n : Name) (hv : v.All I) :
    FieldsAll I (Named.put n v fields) := by
  intro p hp
  rcases Named.mem_put hp with rfl | hp
  · exact hv
  · exact h p hp

theorem FieldsAll.lookup (h : FieldsAll I fields) (hn : fields.lookup n = some v) : v.All I := by
  obtain ⟨p, hp, rfl⟩ := Named.mem_of_lookup hn
  exact h p hp

end Fields

namespace Store

@[simp] theorem size_modify (s : Store) (f : FrameId) (change : Frame → Frame) :
    (s.modify f change).frames.size = s.frames.size := Array.size_modify

@[simp] theorem size_child (s : Store) (parent : FrameId) :
    (s.child parent).2.frames.size = s.frames.size + 1 := Array.size_push _

theorem frame_root (f : FrameId) : root.frame f = Frame.empty none := by
  cases f with
  | zero => rfl
  | succ f => rfl

theorem frame_of_size_le (s : Store) {f : FrameId} (h : s.frames.size ≤ f) :
    s.frame f = Frame.empty none := by
  simp only [frame, Array.getElem?_eq_none h, Option.getD_none]

theorem frame_modify_self (s : Store) {f : FrameId} (h : f < s.frames.size)
    (change : Frame → Frame) : (s.modify f change).frame f = change (s.frame f) := by
  simp [frame, modify, Array.getElem_modify, h]

theorem frame_modify_of_ne (s : Store) {f g : FrameId} (h : g ≠ f) (change : Frame → Frame) :
    (s.modify f change).frame g = s.frame g := by
  simp only [frame, modify, Array.getElem?_modify, Ne.symm h, if_false]

/-- A change of one frame leaves any frame as it was or changes it. -/
theorem frame_modify (s : Store) (f g : FrameId) (change : Frame → Frame) :
    (s.modify f change).frame g = s.frame g ∨ (s.modify f change).frame g = change (s.frame g) := by
  by_cases h : g = f
  · subst h
    rcases Nat.lt_or_ge g s.frames.size with hlt | hge
    · exact .inr (s.frame_modify_self hlt change)
    · left
      rw [s.frame_of_size_le hge, (s.modify g change).frame_of_size_le (by simpa using hge)]
  · exact .inl (s.frame_modify_of_ne h change)

/-- The new frame has no bindings. -/
theorem frame_child_self (s : Store) (parent : FrameId) :
    (s.child parent).2.frame s.frames.size = Frame.empty (some parent) := by
  simp [frame, child]

theorem frame_child_of_ne (s : Store) (parent : FrameId) {g : FrameId} (h : g ≠ s.frames.size) :
    (s.child parent).2.frame g = s.frame g := by
  simp only [frame, child, Array.getElem?_push, h, if_false]

theorem frame_child (s : Store) (parent g : FrameId) :
    (s.child parent).2.frame g = s.frame g ∨
      (s.child parent).2.frame g = Frame.empty (some parent) := by
  by_cases h : g = s.frames.size
  · subst h
    exact .inr (s.frame_child_self parent)
  · exact .inl (s.frame_child_of_ne parent h)

variable {s : Store}

theorem All.modify (hs : s.All I) (f : FrameId) {change : Frame → Frame}
    (hc : ∀ x : Frame, x.All I → (change x).All I) : (s.modify f change).All I := by
  intro g
  rcases s.frame_modify f g change with h | h
  · rw [h]
    exact hs g
  · rw [h]
    exact hc _ (hs g)

theorem All.set (hs : s.All I) (f : FrameId) (n : Name) {v : Value} (hv : v.All I) :
    (s.set f n v).All I :=
  hs.modify f fun _ hx => FieldsAll.put hx n hv

end Store

/-- An answer is a value in which all satisfies `I`, or a failure in `F`. -/
def Answer.All (I : Content) (F : Failure → Prop) : Answer → Prop
  | .ok v => v.All I
  | .error e => F e

/-- The errors that a program can always end with. The others tell of a signal that nothing takes,
of an operator or a built-in that does not exist, and of a part of a program that could not be read. -/
def RuntimeError.isOrdinary : RuntimeError → Bool
  | unknownOperator _ | unknownBuiltin _ | returnOutside | breakOutside | continueOutside | leavesBlock
  | invalidStatement _ | invalidExpression _ => false
  | _ => true

/-- Failures among which are the errors that a program can always end with. -/
def Tolerant (F : Failure → Prop) : Prop := ∀ e : RuntimeError, e.isOrdinary = true → F (.error e)

def BinaryOp.isNumeric : BinaryOp → Bool
  | sub | mul | div | mod | pow | lt | le | gt | ge => true
  | add | eq | neq | and | or | concat => false

namespace Value

variable {F : Failure → Prop} (hF : Tolerant F)
include hF

theorem all_powerOf (x y : Float) : (powerOf x y).All I F := by
  unfold powerOf
  split
  · exact .number _
  · exact hF _ rfl
  · exact hF _ rfl
  · exact hF _ rfl

theorem all_remainderOf (hrem : F (.defect .remainderOfInfinity)) (x y : Float) :
    (remainderOf x y).All I F := by
  unfold remainderOf
  split
  · exact hF _ rfl
  · split
    · exact .number _
    · exact hrem

/-- No operator on numbers is unknown. -/
theorem all_applyNumbers {op : BinaryOp} (hop : op.isNumeric = true)
    (hrem : op = .mod → F (.defect .remainderOfInfinity)) (x y : Float) :
    (applyNumbers op x y).All I F := by
  cases op with
  | sub => exact .number _
  | mul => exact .number _
  | div =>
    show Answer.All I F (if y == 0 then .fail .divisionByZero else .ok (.number (x / y)))
    split
    · exact hF _ rfl
    · exact .number _
  | mod => exact all_remainderOf hF (hrem rfl) x y
  | pow => exact all_powerOf hF x y
  | lt => exact .bool _
  | le => exact .bool _
  | gt => exact .bool _
  | ge => exact .bool _
  | _ => cases hop

theorem all_applyLogic (op : BinaryOp) (combine : Bool → Bool → Bool) (v w : Value) :
    (applyLogic op combine v w).All I F := by
  unfold applyLogic
  split
  · exact .bool _
  · exact hF _ rfl

theorem all_applyAdd (v w : Value) : (applyAdd v w).All I F := by
  unfold applyAdd
  split
  · exact .number _
  · exact .text _
  · exact hF _ rfl

/-- An operator answers with a value made of its operands or fails with an error of the language, except
for the remainder of an infinity. -/
theorem all_applyBinary {op : BinaryOp} (hrem : op = .mod → F (.defect .remainderOfInfinity))
    (v w : Value) : (applyBinary op v w).All I F := by
  cases op with
  | eq => exact .bool _
  | neq => exact .bool _
  | and => exact all_applyLogic hF _ _ v w
  | or => exact all_applyLogic hF _ _ v w
  | concat => exact .text _
  | add => exact all_applyAdd hF v w
  | _ =>
    cases v with
    | number x =>
      cases w with
      | number y => exact all_applyNumbers hF rfl hrem x y
      | _ => exact hF _ rfl
    | _ => exact hF _ rfl

theorem all_applyUnary (op : UnaryOp) (v : Value) : (applyUnary op v).All I F := by
  unfold applyUnary
  split
  · exact .bool _
  · exact .number _
  · exact hF _ rfl

theorem toIndex_error {what : String} {length : Nat} {v : Value} {e : Failure}
    (h : toIndex what length v = .error e) : F e := by
  unfold toIndex at h
  dsimp only at h
  split at h
  · cases h
    exact hF _ rfl
  · split at h
    · cases h
      exact hF _ rfl
    · cases h

/-- What stands at an index stood in the value. -/
theorem all_getIndex {v : Value} (hv : v.All I) (i : Value) : (getIndex v i).All I F := by
  cases hv with
  | list h =>
    rename_i items
    show Answer.All I F (toIndex "list" items.length i >>= fun k => .ok (items.getD k .null))
    cases hk : toIndex "list" items.length i with
    | error e => exact toIndex_error hF hk
    | ok k =>
      show (items.getD k .null).All I
      rw [List.getD_eq_getElem?_getD]
      cases hitem : items[k]? with
      | none => exact .null
      | some w => exact h w (List.mem_of_getElem? hitem)
  | text s =>
    show Answer.All I F
      (toIndex "string" s.length i >>= fun k => .ok (.text (s.toList.getD k ' ').toString))
    cases hk : toIndex "string" s.length i with
    | error e => exact toIndex_error hF hk
    | ok k => exact .text _
  | record _ _ h =>
    rename_i t fields _ _
    cases i with
    | text n =>
      cases hw : fields.lookup (.text n) with
      | some w =>
        rw [show getIndex (.record t fields) (.text n) = .ok w by simp only [getIndex, hw]]
        exact FieldsAll.lookup h hw
      | none =>
        rw [show getIndex (.record t fields) (.text n) =
          .fail (.unknownField n (typeName (.record t fields))) by simp only [getIndex, hw]]
        exact hF _ rfl
    | _ => exact hF _ rfl
  | _ => exact hF _ rfl

/-- Members are methods bound to their receiver, fields, and the built-in methods. -/
theorem all_getMember
    (hlist : ∀ n b items, Builtin.listMethod? n = some b →
      I.function (b.function (some (.list items))))
    (htext : ∀ n b s, Builtin.textMethod? n = some b → I.function (b.function (some (.text s))))
    {v : Value} (hv : v.All I) {n : Name} (hn : n.isKey = true ∨ F (.defect .wrongType)) :
    (getMember v n).All I F := by
  have hreceiver : ∀ f : Function, f.receiver = some v → I.function f →
      (Value.function f).All I := by
    intro f hf hI
    refine .function (.mk hI fun w hw => ?_)
    obtain rfl := Option.some.inj (hf.symm.trans hw)
    exact hv
  have hunknown : Answer.All I F (.fail (.unknownMember n v.typeName)) := hF _ rfl
  unfold getMember
  split
  · rename_i t fields
    unfold getRecordMember
    split
    · split
      · rename_i f hf
        obtain ⟨p, hp, rfl⟩ := Named.mem_of_lookup hf
        cases hv with
        | record ht => exact hreceiver _ rfl (ht.bound p hp _)
      · split
        · rename_i w hw
          cases hv with
          | record _ _ hfs => exact FieldsAll.lookup hfs hw
        · exact hunknown
    · rename_i hkey
      exact hn.resolve_left hkey
  · split
    · rename_i items _ b hb
      exact hreceiver _ rfl (hlist n b items hb)
    · exact hunknown
  · split
    · rename_i s _ b hb
      exact hreceiver _ rfl (htext n b s hb)
    · exact hunknown
  · exact hunknown

end Value

namespace Builtin

/-- Whether a built-in takes these arguments: their number is right, and the first argument of a
method is a list or a text. -/
def accepts : Builtin → List Value → Bool
  | input, [] | toNumber, [_] | length, [_] | push, [_, _] | remove, [_, _] => true
  | listPush, [.list _, _] | listRemove, [.list _, _] => true
  | listLength, [.list _] | listLen, [.list _] => true
  | textLen, [.text _] | textLength, [.text _] | textUpper, [.text _] | textLower, [.text _] => true
  | _, _ => false

variable {F : Failure → Prop} (hF : Tolerant F)
include hF

theorem all_readNumber (v : Value) : (readNumber v).All I F := by
  cases v with
  | text s =>
    simp only [readNumber, expectText, bind, Except.bind]
    split
    · exact .number _
    · exact hF _ rfl
  | _ => exact hF _ rfl

theorem all_lengthOf (v : Value) : (lengthOf v).All I F := by
  cases v with
  | list items => exact .number _
  | _ => exact hF _ rfl

theorem all_pushOnto {v item : Value} (hv : v.All I) (hitem : item.All I) :
    (pushOnto v item).All I F := by
  cases hv with
  | list h =>
    refine .list fun w hw => ?_
    rcases List.mem_append.mp hw with hw | hw
    · exact h w hw
    · exact List.mem_singleton.mp hw ▸ hitem
  | _ => exact hF _ rfl

theorem all_removeFrom {v : Value} (hv : v.All I) (index : Value) :
    (removeFrom v index).All I F := by
  cases hv with
  | list h =>
    rename_i items
    show Answer.All I F
      (Value.toIndex "list" items.length index >>= fun k => .ok (.list (items.eraseIdx k)))
    cases hk : Value.toIndex "list" items.length index with
    | error e => exact Value.toIndex_error hF hk
    | ok k => exact .list fun w hw => h w (List.mem_of_mem_eraseIdx hw)
  | _ => exact hF _ rfl

/-- Arguments of the wrong number or kind are the only ones that spoil a run. -/
theorem all_answer {b : Builtin} {args : List Value} (hb : b ≠ input)
    (haccepts : b.accepts args = true ∨ F (.defect .wrongType)) (hargs : ∀ v ∈ args, v.All I) :
    (b.answer args).All I F := by
  unfold answer
  split
  · exact all_readNumber hF _
  · exact all_lengthOf hF _
  · exact all_lengthOf hF _
  · exact all_lengthOf hF _
  · exact all_pushOnto hF (hargs _ (by simp)) (hargs _ (by simp))
  · exact all_pushOnto hF (hargs _ (by simp)) (hargs _ (by simp))
  · exact all_removeFrom hF (hargs _ (by simp)) _
  · exact all_removeFrom hF (hargs _ (by simp)) _
  · exact .number _
  · exact .number _
  · exact .text _
  · exact .text _
  · rcases haccepts with h | h
    · unfold accepts at h
      split at h <;> simp_all
    · exact h

end Builtin

end Scripting
