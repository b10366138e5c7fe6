import Mathlib.Logic.Relation
import Scripting.Proofs.Eval.Heap
import Scripting.Proofs.Tree.Equality
import Scripting.Proofs.Value.Fields

/-!
Equality of values is an equivalence on the values without an undefined number. It relates lists item
by item, types and records field by field, and functions by their outlines; what stands in functions
plays no part. `Value.Matches` says what one comparison asks of the values directly inside, and each law
goes by induction over these.

Fields, defaults and methods are kept by name, so no name comes up twice among them: `Value.Keyed` says
so of a value and of all that stands in it. The order of the names does not matter.
-/

namespace Scripting

namespace Value

/-- The values directly in a value: the items of a list, the defaults of a type, the type and the fields
of a record. There are none in functions. -/
def children : Value → List Value
  | list items => items
  | type t => t.fields.map Prod.snd
  | record t fields => type t :: fields.map Prod.snd
  | number _ | bool _ | text _ | null | function _ | datum _ => []

theorem sizeOf_child {v w : Value} (h : w ∈ v.children) : sizeOf w < sizeOf v := by
  have hfields : ∀ {fields : List (Name × Value)}, w ∈ fields.map Prod.snd →
      sizeOf w < sizeOf fields := by
    intro fields hw
    obtain ⟨p, hp, rfl⟩ := List.mem_map.mp hw
    exact Named.sizeOf_value_lt hp
  cases v with
  | list items =>
    have : sizeOf w < sizeOf items := List.sizeOf_lt_of_mem h
    rw [list.sizeOf_spec]
    omega
  | type t =>
    cases t with
    | mk name fields methods =>
      have : sizeOf w < sizeOf fields := hfields h
      rw [type.sizeOf_spec, RecordType.mk.sizeOf_spec]
      omega
  | record t fields =>
    rw [record.sizeOf_spec]
    rcases List.mem_cons.mp h with rfl | h
    · rw [type.sizeOf_spec]
      cases fields with
      | nil => rw [List.nil.sizeOf_spec]; omega
      | cons p rest => rw [List.cons.sizeOf_spec]; omega
    · have := hfields h
      omega
  | _ => cases h

/-- What holds of a value if it holds of the values in it holds of every value. -/
@[elab_as_elim]
theorem induction_inside {motive : Value → Prop}
    (step : ∀ v, (∀ w ∈ v.children, motive w) → motive v) (v : Value) : motive v :=
  step v fun w hw =>
    have := sizeOf_child hw
    induction_inside step w
termination_by sizeOf v

/-- `P` holds of a value and of all that stands in it, at whatever depth. -/
inductive Throughout (P : Value → Prop) : Value → Prop
  | mk {v : Value} (here : P v) (inside : ∀ w ∈ v.children, Throughout P w) : Throughout P v

namespace Throughout

variable {P : Value → Prop} {v : Value}

theorem here (h : Throughout P v) : P v := by
  cases h with
  | mk here inside => exact here

theorem inside (h : Throughout P v) : ∀ w ∈ v.children, Throughout P w := by
  cases h with
  | mk here inside => exact inside

theorem iff_of_leaf (h : v.children = []) : Throughout P v ↔ P v :=
  ⟨here, fun hv => .mk hv (h ▸ nofun)⟩

theorem list_iff {items : List Value} :
    Throughout P (.list items) ↔ P (.list items) ∧ ∀ w ∈ items, Throughout P w :=
  ⟨fun h => ⟨h.here, h.inside⟩, fun h => .mk h.1 h.2⟩

theorem type_iff {t : RecordType} :
    Throughout P (.type t) ↔ P (.type t) ∧ ∀ w ∈ t.fields.map Prod.snd, Throughout P w :=
  ⟨fun h => ⟨h.here, h.inside⟩, fun h => .mk h.1 h.2⟩

theorem record_iff {t : RecordType} {fields : List (Name × Value)} :
    Throughout P (.record t fields) ↔ P (.record t fields) ∧ Throughout P (.type t) ∧
      ∀ w ∈ fields.map Prod.snd, Throughout P w := by
  rw [← List.forall_mem_cons]
  exact ⟨fun h => ⟨h.here, h.inside⟩, fun h => .mk h.1 h.2⟩

end Throughout

/-- No name comes up twice among the fields or the methods. -/
def Distinct : Value → Prop
  | type t => (Named.names t.fields).Nodup ∧ (Named.names t.methods).Nodup
  | record _ fields => (Named.names fields).Nodup
  | _ => True

/-- No name comes up twice among the fields or the methods of what stands in a value. -/
def Keyed (v : Value) : Prop := v.Throughout Distinct

/-- Names stay distinct when a field is set. -/
theorem Keyed.put {t : RecordType} {fields : List (Name × Value)} {v : Value}
    (h : (record t fields).Keyed) (name : Name) (hv : v.Keyed) :
    (record t (Named.put name v fields)).Keyed := by
  have hnames : (Named.names (Named.put name v fields)).Nodup := by
    have hold : (Named.names fields).Nodup := h.here
    rw [Named.names_put, Named.withName]
    split
    · exact hold
    · next hnot =>
      rw [← List.concat_eq_append]
      exact hold.concat (by simpa using hnot)
  refine .mk hnames fun w hw => ?_
  rcases List.mem_cons.mp hw with rfl | hw
  · exact h.inside _ List.mem_cons_self
  · obtain ⟨p, hp, rfl⟩ := List.mem_map.mp hw
    rcases Named.mem_put hp with heq | hp
    · exact heq ▸ hv
    · exact h.inside _ (List.mem_cons_of_mem _ (List.mem_map_of_mem hp))

/-- A value of the language other than the undefined number. -/
def Definite : Value → Prop
  | number x => x.isNaN = false
  | datum _ => False
  | _ => True

def Equal (a b : Value) : Prop := a.same b = true

/-- What it takes for two values to be equal, in terms of the values in them. -/
inductive Matches : Value → Value → Prop
  | number {x y : Float} (h : (x == y) = true) : Matches (.number x) (.number y)
  | bool (b : Bool) : Matches (.bool b) (.bool b)
  | text (s : String) : Matches (.text s) (.text s)
  | null : Matches .null .null
  | list {as bs : List Value} (h : List.Forall₂ Equal as bs) : Matches (.list as) (.list bs)
  | function {f g : Function} (h : f.outline = g.outline) : Matches (.function f) (.function g)
  | type {t u : RecordType} (name : t.name = u.name) (fields : Named.Agree Equal t.fields u.fields)
      (methods : Named.Agree (fun f g => f.outline = g.outline) t.methods u.methods) :
      Matches (.type t) (.type u)
  | record {t u : RecordType} {fs gs : List (Name × Value)} (kind : Equal (.type t) (.type u))
      (fields : Named.Agree Equal fs gs) : Matches (.record t fs) (.record u gs)

theorem sameItems_iff {as bs : List Value} : sameItems as bs = true ↔ List.Forall₂ Equal as bs := by
  induction as generalizing bs with
  | nil => cases bs <;> simp [sameItems]
  | cons a as ih => cases bs <;> simp [sameItems, ih, Equal]

theorem sameFields_iff {fs gs : List (Name × Value)} :
    sameFields fs gs = true ↔ ∀ p ∈ fs, ∃ w, gs.lookup p.1 = some w ∧ Equal p.2 w := by
  induction fs with
  | nil => simp [sameFields]
  | cons p rest ih =>
    obtain ⟨n, v⟩ := p
    rw [sameFields, List.forall_mem_cons, ← ih]
    cases gs.lookup n <;> simp [Equal]

theorem agree_iff {fs gs : List (Name × Value)} :
    fs.length = gs.length ∧ sameFields fs gs = true ↔ Named.Agree Equal fs gs := by
  rw [sameFields_iff]
  exact ⟨fun h => ⟨h.1, h.2⟩, fun h => ⟨h.length, h.entries⟩⟩

theorem sameMethods_iff {fs gs : List (Name × Function)} :
    sameMethods fs gs = true ↔ Named.Agree (fun f g => f.outline = g.outline) fs gs := by
  have hentry : ∀ p : Name × Function, ((gs.lookup p.1).map (Function.same p.2)).getD false = true ↔
      ∃ g, gs.lookup p.1 = some g ∧ p.2.outline = g.outline := by
    intro p
    cases gs.lookup p.1 <;> simp [Function.same_iff]
  rw [sameMethods, Bool.and_eq_true, beq_iff_eq, List.all_eq_true]
  simp only [hentry]
  exact ⟨fun h => ⟨h.1, h.2⟩, fun h => ⟨h.length, h.entries⟩⟩

theorem sameType_iff {t u : RecordType} : sameType t u = true ↔ t.name = u.name ∧
    Named.Agree Equal t.fields u.fields ∧
      Named.Agree (fun f g => f.outline = g.outline) t.methods u.methods := by
  cases t with
  | mk n fs ms =>
    cases u with
    | mk k gs ns =>
      rw [← agree_iff, ← sameMethods_iff]
      simp [sameType, RecordType.name, RecordType.fields, RecordType.methods, and_assoc]

/-- Equality is what the values in two values say. -/
theorem equal_iff_matches {a b : Value} : Equal a b ↔ Matches a b := by
  constructor
  · intro h
    unfold Equal at h
    cases a <;> cases b <;> simp only [same, Bool.false_eq_true] at h
    case number.number => exact .number h
    case bool.bool => exact beq_iff_eq.mp h ▸ .bool _
    case text.text => exact beq_iff_eq.mp h ▸ .text _
    case null.null => exact .null
    case list.list => exact .list (sameItems_iff.mp h)
    case function.function => exact .function (Function.same_iff.mp h)
    case type.type =>
      obtain ⟨name, fields, methods⟩ := sameType_iff.mp h
      exact .type name fields methods
    case record.record =>
      rw [Bool.and_eq_true, Bool.and_eq_true, beq_iff_eq, and_assoc] at h
      exact .record (by rw [Equal, same]; exact h.1) (agree_iff.mp h.2)
  · intro h
    unfold Equal
    cases h with
    | number h => rwa [same]
    | bool b => simp [same]
    | text s => simp [same]
    | null => rw [same]
    | list h => rw [same, sameItems_iff]; exact h
    | function h => rw [same, Function.same_iff]; exact h
    | type name fields methods => rw [same, sameType_iff]; exact ⟨name, fields, methods⟩
    | record kind fields =>
      rw [Equal, same] at kind
      rw [same, Bool.and_eq_true, Bool.and_eq_true, beq_iff_eq, and_assoc]
      exact ⟨kind, agree_iff.mpr fields⟩

/-! ### The laws of an equivalence -/

/-- Lists that agree item by item do so from the other side as well. -/
theorem forall₂_symm {as bs : List Value} (h : List.Forall₂ Equal as bs)
    (hsymm : ∀ a ∈ as, ∀ b ∈ bs, Equal a b → Equal b a) : List.Forall₂ Equal bs as := by
  induction h with
  | nil => exact .nil
  | cons head _ ih =>
    refine .cons (hsymm _ List.mem_cons_self _ List.mem_cons_self head) (ih fun a ha b hb => ?_)
    exact hsymm a (List.mem_cons_of_mem _ ha) b (List.mem_cons_of_mem _ hb)

theorem forall₂_trans {as bs cs : List Value} (h : List.Forall₂ Equal as bs)
    (h' : List.Forall₂ Equal bs cs) (htrans : ∀ a ∈ as, ∀ b c, Equal a b → Equal b c → Equal a c) :
    List.Forall₂ Equal as cs := by
  induction h generalizing cs with
  | nil => cases h'; exact .nil
  | cons head _ ih =>
    cases h' with
    | cons head' tail' =>
      refine .cons (htrans _ List.mem_cons_self _ _ head head') (ih tail' fun a ha => ?_)
      exact htrans a (List.mem_cons_of_mem _ ha)

/-- An item may be another one if it is equal to the same values. -/
theorem forall₂_replace {front back bs : List Value} {v w : Value}
    (h : List.Forall₂ Equal (front ++ v :: back) bs) (hv : ∀ b, Equal v b → Equal w b) :
    List.Forall₂ Equal (front ++ w :: back) bs := by
  induction front generalizing bs with
  | nil =>
    cases h with
    | cons head tail => exact .cons (hv _ head) tail
  | cons a front ih =>
    cases h with
    | cons head tail => exact .cons head (ih tail)

/-- Equality is symmetric where no name comes up twice. -/
theorem Keyed.equal_symm {a b : Value} (ha : a.Keyed) (hb : b.Keyed) (h : Equal a b) : Equal b a := by
  induction ha generalizing b with
  | @mk a hdistinct _ ih =>
    have hinside : ∀ v ∈ a.children, ∀ w ∈ b.children, Equal v w → Equal w v :=
      fun v hv w hw => ih v hv (hb.inside w hw)
    have hdistinct' := hb.here
    rw [equal_iff_matches] at h ⊢
    cases h with
    | number h => exact .number (Rounding.beq_comm _ _ ▸ h)
    | bool b => exact .bool b
    | text s => exact .text s
    | null => exact .null
    | list h => exact .list (forall₂_symm h hinside)
    | function h => exact .function h.symm
    | type name fields methods =>
      refine .type name.symm (fields.symm hdistinct.1 hdistinct'.1 fun p hp q hq => ?_)
        (methods.symm hdistinct.2 hdistinct'.2 fun p _ q _ => Eq.symm)
      exact hinside _ (List.mem_map_of_mem hp) _ (List.mem_map_of_mem hq)
    | record kind fields =>
      refine .record (hinside _ List.mem_cons_self _ List.mem_cons_self kind)
        (fields.symm hdistinct hdistinct' fun p hp q hq => ?_)
      exact hinside _ (List.mem_cons_of_mem _ (List.mem_map_of_mem hp)) _
        (List.mem_cons_of_mem _ (List.mem_map_of_mem hq))

/-- Equality is transitive. -/
theorem Equal.trans {a b c : Value} (h : Equal a b) (h' : Equal b c) : Equal a c := by
  induction a using induction_inside generalizing b c with
  | step a ih =>
    rw [equal_iff_matches] at h h' ⊢
    cases h with
    | number h =>
      cases h' with
      | number h' => exact .number (Rounding.beq_trans h h')
    | bool b => exact h'
    | text s => exact h'
    | null => exact h'
    | list h =>
      cases h' with
      | list h' => exact .list (forall₂_trans h h' fun a ha b c => ih a ha)
    | function h =>
      cases h' with
      | function h' => exact .function (h.trans h')
    | type name fields methods =>
      cases h' with
      | type name' fields' methods' =>
        refine .type (name.trans name') (fields.trans fields' fun p hp b c => ?_)
          (methods.trans methods' fun p _ f g => Eq.trans)
        exact ih _ (List.mem_map_of_mem hp)
    | record kind fields =>
      cases h' with
      | record kind' fields' =>
        refine .record (ih _ List.mem_cons_self kind kind') (fields.trans fields' fun p hp b c => ?_)
        exact ih _ (List.mem_cons_of_mem _ (List.mem_map_of_mem hp))

/-- A value without undefined numbers in it equals itself. -/
theorem Keyed.equal_refl {a : Value} (ha : a.Keyed) (hdefinite : a.Throughout Definite) :
    Equal a a := by
  induction ha with
  | @mk a hdistinct _ ih =>
    have hinside : ∀ v ∈ a.children, Equal v v := fun v hv => ih v hv (hdefinite.inside v hv)
    have hhere := hdefinite.here
    rw [equal_iff_matches]
    cases a with
    | number x => exact .number (Rounding.beq_self_iff.mpr hhere)
    | bool b => exact .bool b
    | text s => exact .text s
    | null => exact .null
    | list items => exact .list (List.forall₂_same.mpr hinside)
    | function f => exact .function rfl
    | type t =>
      refine .type rfl (.refl hdistinct.1 fun p hp => ?_) (.refl hdistinct.2 fun p _ => rfl)
      exact hinside _ (List.mem_map_of_mem hp)
    | record t fields =>
      refine .record (hinside _ List.mem_cons_self) (.refl hdistinct fun p hp => ?_)
      exact hinside _ (List.mem_cons_of_mem _ (List.mem_map_of_mem hp))
    | datum t => exact hhere.elim

/-! ### Variants -/

inductive Variant where
  | number | bool | text | null | list | function | type | record | datum
  deriving DecidableEq, Repr

def variant : Value → Variant
  | number _ => .number
  | bool _ => .bool
  | text _ => .text
  | null => .null
  | list _ => .list
  | function _ => .function
  | type _ => .type
  | record _ _ => .record
  | datum _ => .datum

theorem Equal.variant_eq {a b : Value} (h : Equal a b) : a.variant = b.variant := by
  cases equal_iff_matches.mp h <;> rfl

/-! ### The order of names -/

/-- A value with the fields, the defaults or the methods of one thing in it in another order. -/
inductive Reordered : Value → Value → Prop
  | fields (t : RecordType) {fs gs : List (Name × Value)} (h : fs.Perm gs) :
      Reordered (.record t fs) (.record t gs)
  | defaults (name : Name) {fs gs : List (Name × Value)} (methods : List (Name × Function))
      (h : fs.Perm gs) : Reordered (.type (.mk name fs methods)) (.type (.mk name gs methods))
  | methods (name : Name) (fs : List (Name × Value)) {ms ns : List (Name × Function)}
      (h : ms.Perm ns) : Reordered (.type (.mk name fs ms)) (.type (.mk name fs ns))
  | inItem {v w : Value} (front back : List Value) (h : Reordered v w) :
      Reordered (.list (front ++ v :: back)) (.list (front ++ w :: back))
  | inDefault {v w : Value} (name key : Name) (front back : List (Name × Value))
      (methods : List (Name × Function)) (h : Reordered v w) :
      Reordered (.type (.mk name (front ++ (key, v) :: back) methods))
        (.type (.mk name (front ++ (key, w) :: back) methods))
  | inKind {t u : RecordType} (fields : List (Name × Value)) (h : Reordered (.type t) (.type u)) :
      Reordered (.record t fields) (.record u fields)
  | inField {v w : Value} (t : RecordType) (key : Name) (front back : List (Name × Value))
      (h : Reordered v w) :
      Reordered (.record t (front ++ (key, v) :: back)) (.record t (front ++ (key, w) :: back))

namespace Reordered

variable {v w : Value}

theorem symm (h : Reordered v w) : Reordered w v := by
  induction h with
  | fields t h => exact .fields t h.symm
  | defaults name methods h => exact .defaults name methods h.symm
  | methods name fs h => exact .methods name fs h.symm
  | inItem front back _ ih => exact .inItem front back ih
  | inDefault name key front back methods _ ih => exact .inDefault name key front back methods ih
  | inKind fields _ ih => exact .inKind fields ih
  | inField t key front back _ ih => exact .inField t key front back ih

/-- A value in another order is equal to what the value is equal to. -/
theorem equal (h : Reordered v w) {b : Value} (hb : Equal v b) : Equal w b := by
  induction h generalizing b with
  | fields t h =>
    rw [equal_iff_matches] at hb ⊢
    cases hb with
    | record kind fields => exact .record kind (fields.perm_left h)
  | defaults name methods h =>
    rw [equal_iff_matches] at hb ⊢
    cases hb with
    | type name' fields' methods' => exact .type name' (fields'.perm_left h) methods'
  | methods name fs h =>
    rw [equal_iff_matches] at hb ⊢
    cases hb with
    | type name' fields' methods' => exact .type name' fields' (methods'.perm_left h)
  | @inItem v w front back _ ih =>
    rw [equal_iff_matches] at hb ⊢
    cases hb with
    | list items =>
      exact .list (forall₂_replace items fun b => ih)
  | inDefault name key front back methods _ ih =>
    rw [equal_iff_matches] at hb ⊢
    cases hb with
    | type name' fields' methods' => exact .type name' (fields'.replace fun b => ih) methods'
  | inKind fields _ ih =>
    rw [equal_iff_matches] at hb ⊢
    cases hb with
    | record kind fields' => exact .record (ih kind) fields'
  | inField t key front back _ ih =>
    rw [equal_iff_matches] at hb ⊢
    cases hb with
    | record kind fields' => exact .record kind (fields'.replace fun b => ih)

theorem mem_replace {front back : List Value} {x : Value} (h : x ∈ front ++ w :: back) :
    x = w ∨ x ∈ front ++ v :: back := by
  rw [List.mem_append, List.mem_cons] at h ⊢
  tauto

theorem mem_values_replace {key : Name} {front back : List (Name × Value)} {x : Value}
    (h : x ∈ (front ++ (key, w) :: back).map Prod.snd) :
    x = w ∨ x ∈ (front ++ (key, v) :: back).map Prod.snd := by
  rw [List.map_append, List.map_cons] at h ⊢
  exact mem_replace h

theorem names_replace (key : Name) (front back : List (Name × Value)) :
    Named.names (front ++ (key, w) :: back) = Named.names (front ++ (key, v) :: back) := by
  simp [Named.names]

/-- Another order keeps names distinct. -/
theorem keyed (h : Reordered v w) (hv : v.Keyed) : w.Keyed := by
  induction h with
  | fields t h =>
    refine .mk (((h.map Prod.fst).nodup_iff).mp hv.here) fun x hx => hv.inside x ?_
    exact (List.mem_cons.mp hx).elim (fun h => h ▸ List.mem_cons_self) fun hx =>
      List.mem_cons_of_mem _ ((h.map Prod.snd).mem_iff.mpr hx)
  | defaults name methods h =>
    exact .mk ⟨((h.map Prod.fst).nodup_iff).mp hv.here.1, hv.here.2⟩ fun x hx =>
      hv.inside x ((h.map Prod.snd).mem_iff.mpr hx)
  | methods name fs h =>
    exact .mk ⟨hv.here.1, ((h.map Prod.fst).nodup_iff).mp hv.here.2⟩ hv.inside
  | inItem front back _ ih =>
    refine .mk trivial fun x hx => ?_
    rcases mem_replace hx with rfl | hx
    · exact ih (hv.inside _ (List.mem_append_right _ List.mem_cons_self))
    · exact hv.inside x hx
  | @inDefault v w name key front back methods _ ih =>
    have hnames : (Named.names (front ++ (key, w) :: back)).Nodup := by
      rw [names_replace (v := v)]
      exact hv.here.1
    refine .mk ⟨hnames, hv.here.2⟩ fun x hx => ?_
    rcases mem_values_replace hx with rfl | hx
    · exact ih (hv.inside _ (by simp [children, RecordType.fields]))
    · exact hv.inside x hx
  | inKind fields _ ih =>
    refine .mk hv.here fun x hx => ?_
    rcases List.mem_cons.mp hx with rfl | hx
    · exact ih (hv.inside _ List.mem_cons_self)
    · exact hv.inside x (List.mem_cons_of_mem _ hx)
  | @inField v w t key front back _ ih =>
    have hnames : (Named.names (front ++ (key, w) :: back)).Nodup := by
      rw [names_replace (v := v)]
      exact hv.here
    refine .mk hnames fun x hx => ?_
    rcases List.mem_cons.mp hx with rfl | hx
    · exact hv.inside _ List.mem_cons_self
    · rcases mem_values_replace hx with rfl | hx
      · exact ih (hv.inside _ (by simp [children]))
      · exact hv.inside x (List.mem_cons_of_mem _ hx)

/-- In whatever order names stand at whatever depth, a value is equal to the same values. -/
theorem equal_iff {v' w' : Value} (hv : v.Keyed) (hw : w.Keyed)
    (hv' : Relation.ReflTransGen Reordered v v') (hw' : Relation.ReflTransGen Reordered w w') :
    Equal v w ↔ Equal v' w' := by
  have hleft : ∀ {a a' : Value}, Relation.ReflTransGen Reordered a a' →
      ∀ b, Equal a b ↔ Equal a' b := by
    intro a a' h b
    induction h with
    | refl => rfl
    | tail _ hstep ih => exact ih.trans ⟨hstep.equal, hstep.symm.equal⟩
  have hkeyed : ∀ {a a' : Value}, Relation.ReflTransGen Reordered a a' → a.Keyed → a'.Keyed := by
    intro a a' h ha
    induction h with
    | refl => exact ha
    | tail _ hstep ih => exact hstep.keyed ih
  have hcomm : ∀ {a b : Value}, a.Keyed → b.Keyed → (Equal a b ↔ Equal b a) :=
    fun ha hb => ⟨ha.equal_symm hb, hb.equal_symm ha⟩
  have hvk := hkeyed hv' hv
  have hwk := hkeyed hw' hw
  rw [hleft hv' w, hcomm hvk hw, hleft hw' v', hcomm hwk hvk]

end Reordered

end Value

/-- Equality of values is symmetric and transitive, and it relates every value without an undefined
number to itself. It never relates values of different variants, and it does not depend on the order of
fields, of defaults or of methods, at whatever depth. -/
theorem equality_laws :
    (∀ a b : Value, a.Keyed → b.Keyed → a.same b = b.same a) ∧
    (∀ a b c : Value, a.same b = true → b.same c = true → a.same c = true) ∧
    (∀ a : Value, a.Keyed → a.Throughout Value.Definite → a.same a = true) ∧
    (∀ a b : Value, a.same b = true → a.variant = b.variant) ∧
    (∀ a a' b b' : Value, a.Keyed → b.Keyed → Relation.ReflTransGen Value.Reordered a a' →
      Relation.ReflTransGen Value.Reordered b b' → a.same b = a'.same b') := by
  refine ⟨fun a b ha hb => ?_, fun a b c h h' => ?_, fun a ha h => ha.equal_refl h,
    fun a b h => Value.Equal.variant_eq h, fun a a' b b' ha hb h h' => ?_⟩
  · exact Bool.eq_iff_iff.mpr ⟨ha.equal_symm hb, hb.equal_symm ha⟩
  · exact Value.Equal.trans (b := b) h h'
  · exact Bool.eq_iff_iff.mpr (Value.Reordered.equal_iff ha hb h h')

/-- The records `P { x: 0, y: [null] }` and `P { y: [null], x: -0 }`. -/
theorem equality_laws_records :
    let t : RecordType := .mk (.text "P") [(.text "x", .number 1), (.text "y", .null)] []
    let a : Value := .record t [(.text "x", .number 0), (.text "y", .list [.null])]
    let b : Value := .record t [(.text "y", .list [.null]), (.text "x", .number (-0))]
    a.same a = true ∧ a.same b = true ∧ b.same a = true ∧ b.same b = true ∧
      a.variant = b.variant := by
  intro t a b
  have hnumber : ∀ (P : Value → Prop) x, Value.Throughout P (.number x) ↔ P (.number x) :=
    fun P x => Value.Throughout.iff_of_leaf rfl
  have hnull : ∀ P : Value → Prop, Value.Throughout P .null ↔ P .null :=
    fun P => Value.Throughout.iff_of_leaf rfl
  have ha : a.Keyed := by
    simp [a, t, Value.Keyed, Value.Throughout.record_iff, Value.Throughout.type_iff,
      Value.Throughout.list_iff, hnumber, hnull, Value.Distinct, Named.names, RecordType.fields,
      RecordType.methods]
  have hb : b.Keyed := by
    simp [b, t, Value.Keyed, Value.Throughout.record_iff, Value.Throughout.type_iff,
      Value.Throughout.list_iff, hnumber, hnull, Value.Distinct, Named.names, RecordType.fields,
      RecordType.methods]
  have hnan : (1 : Float).isNaN = false ∧ (0 : Float).isNaN = false := by decide
  have hdefinite : a.Throughout Value.Definite := by
    simpa [a, t, Value.Throughout.record_iff, Value.Throughout.type_iff, Value.Throughout.list_iff,
      hnumber, hnull, Value.Definite, RecordType.fields] using hnan
  obtain ⟨hsymm, htrans, hrefl, hvariant, horder⟩ := equality_laws
  let c : Value := .record t [(.text "x", .number (-0)), (.text "y", .list [.null])]
  have hbc : Relation.ReflTransGen Value.Reordered b c :=
    .single (.fields t (List.Perm.swap _ _ _))
  have hzeros : ((0 : Float) == -0) = true ∧ ((1 : Float) == 1) = true := by decide
  have hnames : (Name.text "y" == Name.text "x") = false := by decide
  have hac : a.same c = true := by
    simp [a, c, t, Value.same, Value.sameFields, Value.sameType, Value.sameItems,
      Value.sameMethods, List.lookup, hzeros, hnames]
  have hab : a.same b = true := (horder a a b c ha hb .refl hbc).trans hac
  have hba : b.same a = true := (hsymm b a hb ha).trans hab
  exact ⟨hrefl a ha hdefinite, hab, hba, htrans b a b hba hab, hvariant a b hab⟩

end Scripting
