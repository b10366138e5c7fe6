import Scripting.Tree.Storage

/-!
Stored trees read back. `Tree.fits shape t` says that `t` is a tree of that shape all the way down:
a node has the members of its kind, each in the shape of its slot. What is stored of such a tree is
read as the same tree.
-/

namespace Scripting

/-- The names of the members of a kind tell them apart, and none is the name of the kind. -/
theorem NodeKind.slots_names (kind : NodeKind) :
    (kind.slots.map Slot.name).Nodup ∧ "type" ∉ kind.slots.map Slot.name := by
  cases kind <;> decide

theorem NodeKind.ofName?_name (kind : NodeKind) : ofName? kind.name = some kind := by
  cases kind <;> decide

theorem BinaryOp.ofSymbol?_symbol (op : BinaryOp) : ofSymbol? op.symbol = some op := by
  cases op <;> decide

theorem UnaryOp.ofSymbol?_symbol (op : UnaryOp) : ofSymbol? op.symbol = some op := by
  cases op <;> decide

namespace Tree

mutual

/-- Whether a tree has a shape. -/
def fits : Shape → Tree → Bool
  | .plain, .null | .plain, .bool _ | .plain, .float _ | .plain, .text _ => true
  | .plain, .list items => fitsAll items
  | .plain, .node kind members => fitsSlots kind.slots members
  | .pairs, .list items => fitsPairs items
  | .binaryOp, .binaryOp _ => true
  | .unaryOp, .unaryOp _ => true
  | .number, .float _ => true
  | _, _ => false

def fitsAll : List Tree → Bool
  | [] => true
  | t :: rest => fits .plain t && fitsAll rest

def fitsPairs : List Tree → Bool
  | [] => true
  | .pair a b :: rest => fits .plain a && fits .plain b && fitsPairs rest
  | _ :: _ => false

def fitsSlots : List Slot → List Tree → Bool
  | [], [] => true
  | slot :: slots, t :: rest => fits slot.shape t && fitsSlots slots rest
  | _, _ => false

end

/-- Reads a member in its shape. -/
def readAs : Shape → Json → Except StorageFault Tree
  | .plain => ofJson
  | .pairs => ofPairs
  | .binaryOp => readBinaryOp
  | .unaryOp => readUnaryOp
  | .number => readNumber

theorem ofMembers_cons (kind : NodeKind) (name : String) (v : Json) (rest : List (String × Json)) :
    ofMembers kind ((name, v) :: rest) =
      match kind.slots.find? (·.name == name) with
      | none => ofMembers kind rest
      | some slot => (name, readAs slot.shape v) :: ofMembers kind rest := by
  rw [ofMembers]
  cases kind.slots.find? (·.name == name) with
  | none => rfl
  | some slot =>
    obtain ⟨name, shape, absent⟩ := slot
    cases shape <;> rfl

/-- A slot is found under its name. -/
theorem find?_name {slots : List Slot} (h : (slots.map Slot.name).Nodup) {slot : Slot}
    (hmem : slot ∈ slots) : slots.find? (·.name == slot.name) = some slot := by
  induction slots with
  | nil => simp at hmem
  | cons first rest ih =>
    obtain ⟨hfirst, hrest⟩ := List.nodup_cons.mp h
    rcases List.mem_cons.mp hmem with rfl | hmem
    · simp
    · have hne : first.name ≠ slot.name := fun heq => hfirst (heq ▸ List.mem_map_of_mem hmem)
      rw [List.find?_cons_of_neg (by simpa using hne)]
      exact ih hrest hmem

/-- The members of a node are read one by one, each in its shape. -/
theorem ofMembers_zip (kind : NodeKind) {slots : List Slot} (hslots : ∀ s ∈ slots, s ∈ kind.slots) :
    ∀ vs : List Json, ofMembers kind ((slots.map Slot.name).zip vs) =
      List.zipWith (fun slot v => (slot.name, readAs slot.shape v)) slots vs := by
  induction slots with
  | nil => intro vs; simp [ofMembers]
  | cons slot rest ih =>
    rintro (_ | ⟨v, vs⟩)
    · simp [ofMembers]
    · have hfind := find?_name kind.slots_names.1 (hslots slot List.mem_cons_self)
      rw [List.map_cons, List.zip_cons_cons, ofMembers_cons, hfind, List.zipWith_cons_cons,
        ih (fun s hs => hslots s (List.mem_cons_of_mem _ hs))]

theorem mapM_members {slots : List Slot} {ts : List Tree} (hlen : slots.length = ts.length)
    {f : Slot → Except StorageFault (Option Tree)}
    (hf : ∀ x ∈ slots.zip ts, f x.1 = .ok (some x.2)) : slots.mapM f = .ok (ts.map some) := by
  induction slots generalizing ts with
  | nil =>
    obtain rfl : ts = [] := List.length_eq_zero_iff.mp hlen.symm
    rfl
  | cons slot rest ih =>
    obtain ⟨t, ts, rfl⟩ := List.exists_cons_of_length_eq_add_one hlen.symm
    have hfirst := hf (slot, t) (by simp)
    have hrest := ih (Nat.succ.inj hlen) fun x hx => hf x (by simp [hx])
    rw [List.mapM_cons, hrest, hfirst]
    rfl

/-- What was read under the name of a slot is found there. -/
theorem lookup_zip {slots : List Slot} (h : (slots.map Slot.name).Nodup) {ts : List Tree} :
    ∀ x ∈ slots.zip ts, ((slots.map Slot.name).zip (ts.map Except.ok)).lookup x.1.name =
      some (Except.ok x.2 : Except StorageFault Tree) := by
  induction slots generalizing ts with
  | nil => simp
  | cons slot rest ih =>
    obtain ⟨hfirst, hrest⟩ := List.nodup_cons.mp h
    cases ts with
    | nil => simp
    | cons t ts =>
      intro x hx
      rcases List.mem_cons.mp hx with rfl | hx
      · simp
      · have hmem : x.1.name ∈ rest.map Slot.name := List.mem_map_of_mem (List.of_mem_zip hx).1
        have hne : (x.1.name == slot.name) = false := by
          simp only [beq_eq_false_iff_ne]
          exact fun heq => hfirst (heq ▸ hmem)
        simp only [List.map_cons, List.zip_cons_cons, List.lookup_cons, hne]
        exact ih hrest x hx

theorem map_zip_some {slots : List Slot} {ts : List Tree} (hlen : slots.length = ts.length)
    {f : Slot × Option Tree → Tree} (hf : ∀ slot t, f (slot, some t) = t) :
    (slots.zip (ts.map some)).map f = ts := by
  induction slots generalizing ts with
  | nil =>
    obtain rfl : ts = [] := List.length_eq_zero_iff.mp hlen.symm
    rfl
  | cons slot rest ih =>
    obtain ⟨t, ts, rfl⟩ := List.exists_cons_of_length_eq_add_one hlen.symm
    simp [hf, ih (Nat.succ.inj hlen)]

/-- A node is put together from its members. -/
theorem assemble_zip {kind : NodeKind} {ts : List Tree} (hlen : kind.slots.length = ts.length) :
    assemble kind ((kind.slots.map Slot.name).zip (ts.map Except.ok)) = .ok (.node kind ts) := by
  unfold assemble
  rw [mapM_members hlen fun x hx => by rw [lookup_zip kind.slots_names.1 x hx]; rfl]
  change (if (List.filterMap _ (kind.slots.zip (ts.map some))).isEmpty = true then _ else _) = _
  rw [if_pos, map_zip_some hlen fun _ _ => rfl]
  -- no member is missing
  rw [List.isEmpty_iff, List.filterMap_eq_nil_iff]
  rintro ⟨slot, member⟩ hmem
  obtain ⟨t, -, rfl⟩ := List.mem_map.mp (List.of_mem_zip hmem).2
  rfl

theorem fitsSlots_length : ∀ {slots : List Slot} {ts : List Tree}, fitsSlots slots ts = true →
    slots.length = ts.length
  | [], [], _ => rfl
  | _ :: _, _ :: _, h => by
    rw [fitsSlots, Bool.and_eq_true] at h
    simp [fitsSlots_length h.2]

/-- A node is read from its kind and its members, each of which is read in its shape. -/
theorem ofJson_node {kind : NodeKind} {ts : List Tree} (hlen : kind.slots.length = ts.length)
    (hmembers : List.zipWith (fun slot v => (slot.name, readAs slot.shape v)) kind.slots (toItems ts) =
      (kind.slots.map Slot.name).zip (ts.map Except.ok)) :
    ofJson (toJson (.node kind ts)) = .ok (.node kind ts) := by
  have hkind : kindOf (some (.text kind.name)) = .ok kind := by
    simp only [kindOf, Option.getD_some, kind.ofName?_name]
  have htype : kind.slots.find? (·.name == "type") = none := by
    rw [List.find?_eq_none]
    intro slot hslot heq
    exact kind.slots_names.2 (beq_iff_eq.mp heq ▸ List.mem_map_of_mem hslot)
  simp only [toJson, ofJson, List.lookup_cons_self, hkind, ofMembers_cons, htype]
  rw [ofMembers_zip kind (fun _ h => h), hmembers, assemble_zip hlen]

mutual

/-- What is stored of a tree is read as the tree. -/
theorem readAs_toJson : ∀ {shape : Shape} {t : Tree}, fits shape t = true →
    readAs shape (toJson t) = .ok t
  | .plain, .null, _ | .plain, .bool _, _ | .plain, .float _, _
  | .plain, .text _, _ => by simp only [readAs, toJson, ofJson]
  | .plain, .list items, h => by
    rw [fits] at h
    simp only [readAs, toJson, ofJson, ofItems_toItems h, Except.map]
  | .plain, .node kind members, h => by
    rw [fits] at h
    exact ofJson_node (fitsSlots_length h) (readMembers_toItems h)
  | .pairs, .list items, h => by
    rw [fits] at h
    simp only [readAs, toJson, ofPairs, ofPairItems_toItems h, Except.map]
  | .binaryOp, .binaryOp op, _ => by
    simp only [readAs, toJson, readBinaryOp, op.ofSymbol?_symbol]
  | .unaryOp, .unaryOp op, _ => by
    simp only [readAs, toJson, readUnaryOp, op.ofSymbol?_symbol]
  | .number, .float x, _ => by simp only [readAs, toJson, readNumber]

theorem ofItems_toItems : ∀ {items : List Tree}, fitsAll items = true →
    ofItems (toItems items) = .ok items
  | [], _ => by rw [toItems, ofItems]
  | t :: rest, h => by
    rw [fitsAll, Bool.and_eq_true] at h
    have hfirst : ofJson (toJson t) = .ok t := readAs_toJson h.1
    rw [toItems, ofItems, hfirst, ofItems_toItems h.2]
    rfl

theorem ofPairItems_toItems : ∀ {items : List Tree}, fitsPairs items = true →
    ofPairItems (toItems items) = .ok items
  | [], _ => by rw [toItems, ofPairItems]
  | .pair a b :: rest, h => by
    simp only [fitsPairs, Bool.and_eq_true] at h
    have hfirst : ofJson (toJson a) = .ok a := readAs_toJson h.1.1
    have hsecond : ofJson (toJson b) = .ok b := readAs_toJson h.1.2
    rw [toItems, toJson, ofPairItems, ofPair, hfirst, hsecond, ofPairItems_toItems h.2]
    rfl

theorem readMembers_toItems : ∀ {slots : List Slot} {ts : List Tree}, fitsSlots slots ts = true →
    List.zipWith (fun slot v => (slot.name, readAs slot.shape v)) slots (toItems ts) =
      (slots.map Slot.name).zip (ts.map Except.ok)
  | [], [], _ => rfl
  | slot :: slots, t :: ts, h => by
    rw [fitsSlots, Bool.and_eq_true] at h
    rw [toItems, List.zipWith_cons_cons, readAs_toJson h.1, readMembers_toItems h.2, List.map_cons,
      List.map_cons, List.zip_cons_cons]

end

/-- The statements of a stored program are read one by one. -/
theorem programOfJson_stored (trees : List Tree) :
    programOfJson (programToJson trees) = ofItems (toItems trees) := by
  have hname : ("body" == "type") = false := by decide
  simp only [programOfJson, programToJson, List.lookup_cons_self, List.lookup_cons, hname]

/-- What is stored of a program is read as the trees of its statements. -/
theorem programOfJson_toJson {trees : List Tree} (h : fitsAll trees = true) :
    programOfJson (programToJson trees) = .ok trees := by
  rw [programOfJson_stored]
  exact ofItems_toItems h

end Tree

end Scripting
