import Scripting.Proofs.Value.Equality
import Scripting.Value.Text

/-!
Equal values are observed alike: their types have the same name, both count as true or neither does,
and they have the same text. Texts give the fields of records in order, while equality does not look at
the order; so for texts the fields have to come in the same order on both sides.
-/

namespace Scripting

namespace Value

mutual

/-- Records in the same place of two values have their fields in the same order. -/
def aligned : Value → Value → Bool
  | list as, list bs => alignedItems as bs
  | record _ fs, record _ gs => Named.names fs == Named.names gs && alignedFields fs gs
  | _, _ => true

def alignedItems : List Value → List Value → Bool
  | a :: as, b :: bs => aligned a b && alignedItems as bs
  | _, _ => true

def alignedFields : List (Name × Value) → List (Name × Value) → Bool
  | (_, v) :: fs, (_, w) :: gs => aligned v w && alignedFields fs gs
  | _, _ => true

end

theorem Equal.name_eq {t u : RecordType} (h : Equal (.type t) (.type u)) : t.name = u.name := by
  cases equal_iff_matches.mp h with
  | type name fields methods => exact name

theorem Equal.typeName_eq {a b : Value} (h : Equal a b) : a.typeName = b.typeName := by
  cases equal_iff_matches.mp h with
  | record kind fields => exact congrArg Name.shown kind.name_eq
  | _ => rfl

theorem Equal.isTruthy_eq {a b : Value} (h : Equal a b) : a.isTruthy = b.isTruthy := by
  cases equal_iff_matches.mp h with
  | @number x y heq =>
    have hzero : (x == 0) = (y == 0) := Rounding.beq_congr heq 0
    simp only [isTruthy, bne, hzero]
  | list items => cases items <;> rfl
  | _ => rfl

/-- Functions with the same outline have the same text, whatever their frames and receivers. -/
theorem text_of_outline {f g : Function} (h : f.outline = g.outline) : f.text = g.text := by
  obtain ⟨-, hrest⟩ := Prod.mk.inj h
  obtain ⟨-, hrest⟩ := Prod.mk.inj hrest
  obtain ⟨hname, hnative⟩ := Prod.mk.inj hrest
  rw [Function.text, Function.text, hname, hnative]

theorem renderItems_eq {as bs : List Value} (h : List.Forall₂ Equal as bs)
    (haligned : alignedItems as bs = true)
    (hitem : ∀ a ∈ as, ∀ b, Equal a b → a.aligned b = true → a.render true = b.render true) :
    renderItems as = renderItems bs := by
  induction h with
  | nil => rfl
  | @cons a b as bs head _ ih =>
    rw [alignedItems, Bool.and_eq_true] at haligned
    rw [renderItems, renderItems, hitem a List.mem_cons_self b head haligned.1,
      ih haligned.2 fun a ha => hitem a (List.mem_cons_of_mem _ ha)]

theorem renderFields_eq {fs gs : List (Name × Value)}
    (h : List.Forall₂ (fun p q => p.1 = q.1 ∧ Equal p.2 q.2) fs gs)
    (haligned : alignedFields fs gs = true)
    (hfield : ∀ p ∈ fs, ∀ b, Equal p.2 b → p.2.aligned b = true →
      p.2.render true = b.render true) :
    renderFields fs = renderFields gs := by
  induction h with
  | nil => rfl
  | @cons p q fs gs head _ ih =>
    obtain ⟨n, v⟩ := p
    obtain ⟨k, w⟩ := q
    obtain ⟨rfl, hequal⟩ := head
    rw [alignedFields, Bool.and_eq_true] at haligned
    rw [renderFields, renderFields, hfield (n, v) List.mem_cons_self w hequal haligned.1,
      ih haligned.2 fun p hp => hfield p (List.mem_cons_of_mem _ hp)]

/-- Equal values with their fields in the same order have the same text, at any depth. -/
theorem Keyed.render_eq {a b : Value} (ha : a.Keyed) (h : Equal a b) (haligned : a.aligned b = true)
    (nested : Bool) : a.render nested = b.render nested := by
  induction ha generalizing b nested with
  | @mk a hdistinct _ ih =>
    cases equal_iff_matches.mp h with
    | number heq => rw [render, render, Number.plain_congr heq]
    | bool b => rfl
    | text s => rfl
    | null => rfl
    | list items =>
      rw [aligned] at haligned
      rw [render, render, renderItems_eq items haligned fun a ha b h h' => ih a ha h h' true]
    | function heq => rw [render, render, text_of_outline heq]
    | type name => rw [render, render, name]
    | record kind fields =>
      rw [aligned, Bool.and_eq_true, beq_iff_eq] at haligned
      have hfields := fields.forall₂ hdistinct haligned.1
      rw [render, render, kind.name_eq, renderFields_eq hfields haligned.2 fun p hp b h h' =>
        ih p.2 (List.mem_cons_of_mem _ (List.mem_map_of_mem hp)) h h' true]

end Value

/-- Equal values have types of the same name and count as true alike. If their records have the fields
in the same order, at whatever depth, they have the same text, on their own and inside of other
values. -/
theorem equal_values_alike (a b : Value) (h : a.same b = true) :
    a.typeName = b.typeName ∧ a.isTruthy = b.isTruthy ∧
      (a.Keyed → a.aligned b = true → ∀ nested, a.render nested = b.render nested) :=
  ⟨Value.Equal.typeName_eq h, Value.Equal.isTruthy_eq h, fun ha => ha.render_eq h⟩

/-- The values `[0, P { f: f }]` and `[-0, P { f: f }]`, where the functions were made in different
frames and the second one has a receiver. -/
theorem equal_values_alike_list :
    let t : RecordType := .mk (.text "P") [] []
    let f : Function := .mk [] [] (.text "f") (some 1) false none
    let g : Function := .mk [] [] (.text "f") (some 2) false (some .null)
    let a : Value := .list [.number 0, .record t [(.text "f", .function f)]]
    let b : Value := .list [.number (-0), .record t [(.text "f", .function g)]]
    a.same b = true ∧ a.Keyed ∧ a.aligned b = true ∧ a.typeName = b.typeName ∧
      a.isTruthy = b.isTruthy ∧ a.shown = b.shown := by
  intro t f g a b
  have hzeros : ((0 : Float) == -0) = true := by decide
  have hsame : a.same b = true := by
    simp [a, b, t, f, g, Value.same, Value.sameFields, Value.sameType, Value.sameItems,
      Value.sameMethods, List.lookup, hzeros, Function.same_iff, Function.outline, Function.params,
      Function.body, Function.name, Function.native]
  have hkeyed : a.Keyed := by
    have hleaf : ∀ v : Value, v.children = [] → v.Distinct → v.Throughout Value.Distinct :=
      fun v hv => (Value.Throughout.iff_of_leaf hv).mpr
    have hnumber := hleaf (.number 0) rfl trivial
    have hfunction := hleaf (.function f) rfl trivial
    simp [a, t, Value.Keyed, Value.Throughout.list_iff, Value.Throughout.record_iff,
      Value.Throughout.type_iff, hnumber, hfunction, Value.Distinct, Named.names,
      RecordType.fields, RecordType.methods]
  have haligned : a.aligned b = true := by
    simp [a, b, Value.aligned, Value.alignedItems, Value.alignedFields, Named.names]
  obtain ⟨htype, htruthy, htext⟩ := equal_values_alike a b hsame
  exact ⟨hsame, hkeyed, haligned, htype, htruthy, htext hkeyed haligned false⟩

end Scripting
