import Scripting.Proofs.Tree.Storage

/-!
Loose data and its canonical form. The reader takes much that is never written: numbers as texts,
pairs as texts or objects, members that are left out, members that no kind has, and plain data or
lists in the place of nodes. Whatever it makes of such data is stored in a form that is read as the
same, so that storing what was read changes nothing the second time.

`Tree.ReadsBack shape t` says this of one tree. Each clause of the reader has a lemma that takes it
from the parts to the whole; what stands for a member that is left out reads back too.
-/

namespace Scripting

section Except

variable {ε α β : Type} {x : Except ε α}

theorem bindExcept_eq_ok {f : α → Except ε β} {b : β} :
    x >>= f = .ok b ↔ ∃ a, x = .ok a ∧ f a = .ok b := by
  cases x <;> simp [bind, Except.bind]

theorem mapExcept_eq_ok {f : α → β} {b : β} : x.map f = .ok b ↔ ∃ a, x = .ok a ∧ f a = b := by
  cases x <;> simp [Except.map]

/-- What comes from a list of successes comes from them one by one. -/
theorem mapM_eq_ok {f : α → Except ε β} {xs : List α} {ys : List β} (h : xs.mapM f = .ok ys) :
    xs.length = ys.length ∧ ∀ p ∈ xs.zip ys, f p.1 = .ok p.2 := by
  induction xs generalizing ys with
  | nil =>
    cases h
    exact ⟨rfl, nofun⟩
  | cons a xs ih =>
    rw [List.mapM_cons] at h
    obtain ⟨b, hfirst, h⟩ := bindExcept_eq_ok.mp h
    obtain ⟨bs, hrest, h⟩ := bindExcept_eq_ok.mp h
    cases h
    obtain ⟨hlen, hall⟩ := ih hrest
    exact ⟨congrArg Nat.succ hlen, List.forall_mem_cons.mpr ⟨hfirst, hall⟩⟩

end Except

namespace Tree

/-- What is stored of a tree in a place of the given shape is read as the tree. -/
def ReadsBack (shape : Shape) (t : Tree) : Prop := readAs shape t.toJson = .ok t

def absentMember (slot : Slot) : Tree := if slot.absent == .empty then .list [] else .null

inductive IsPair : Tree → Prop
  | mk {a b : Tree} (first : ReadsBack .plain a) (second : ReadsBack .plain b) : IsPair (.pair a b)

namespace ReadsBack

theorem plain {t : Tree} (h : ReadsBack .plain t) : ofJson t.toJson = .ok t := h

theorem items {ts : List Tree} (h : ∀ t ∈ ts, ReadsBack .plain t) :
    ofItems (toItems ts) = .ok ts := by
  induction ts with
  | nil => rw [toItems, ofItems]
  | cons t ts ih =>
    obtain ⟨hfirst, hrest⟩ := List.forall_mem_cons.mp h
    rw [toItems, ofItems, hfirst.plain, ih hrest]
    rfl

theorem pairItems {ts : List Tree} (h : ∀ t ∈ ts, IsPair t) : ofPairItems (toItems ts) = .ok ts := by
  induction ts with
  | nil => rw [toItems, ofPairItems]
  | cons t ts ih =>
    obtain ⟨⟨hfirst, hsecond⟩, hrest⟩ := List.forall_mem_cons.mp h
    rw [toItems, toJson, ofPairItems, ofPair, hfirst.plain, hsecond.plain, ih hrest]
    rfl

theorem list {ts : List Tree} (h : ∀ t ∈ ts, ReadsBack .plain t) : ReadsBack .plain (.list ts) := by
  show ofJson (.array (toItems ts)) = _
  rw [ofJson, items h]
  rfl

theorem pairs {ts : List Tree} (h : ∀ t ∈ ts, IsPair t) : ReadsBack .pairs (.list ts) := by
  show ofPairs (.array (toItems ts)) = _
  rw [ofPairs, pairItems h]
  rfl

/-- A node reads back when each member does in the shape of its slot. -/
theorem node {kind : NodeKind} {ts : List Tree} (hlen : kind.slots.length = ts.length)
    (h : ∀ p ∈ kind.slots.zip ts, ReadsBack p.1.shape p.2) : ReadsBack .plain (.node kind ts) := by
  refine ofJson_node hlen ?_
  generalize kind.slots = slots at hlen h
  induction slots generalizing ts with
  | nil =>
    obtain rfl : ts = [] := List.length_eq_zero_iff.mp hlen.symm
    rfl
  | cons slot slots ih =>
    obtain ⟨t, ts, rfl⟩ := List.exists_cons_of_length_eq_add_one hlen.symm
    obtain ⟨hfirst, hrest⟩ := List.forall_mem_cons.mp h
    have hfirst : readAs slot.shape t.toJson = .ok t := hfirst
    rw [toItems, List.zipWith_cons_cons, hfirst, ih (Nat.succ.inj hlen) hrest]
    rfl

theorem binaryOp (op : BinaryOp) : ReadsBack .binaryOp (.binaryOp op) := by
  simp only [ReadsBack, readAs, toJson, readBinaryOp, op.ofSymbol?_symbol]

theorem unaryOp (op : UnaryOp) : ReadsBack .unaryOp (.unaryOp op) := by
  simp only [ReadsBack, readAs, toJson, readUnaryOp, op.ofSymbol?_symbol]

/-- What stands for a member that is left out has the shape of the member. -/
theorem absentMember {kind : NodeKind} {slot : Slot} (hslot : slot ∈ kind.slots)
    (habsent : slot.absent ≠ .refused) : ReadsBack slot.shape (absentMember slot) := by
  have hslots : ∀ s ∈ kind.slots, s.absent = .refused ∨ s.absent = .null ∧ s.shape = .plain ∨
      s.absent = .empty ∧ (s.shape = .plain ∨ s.shape = .pairs) := by
    cases kind <;> decide
  rcases hslots slot hslot with hrefused | ⟨hnull, hshape⟩ | ⟨hempty, hshape | hshape⟩
  · exact absurd hrefused habsent
  · rw [hshape, Tree.absentMember, hnull]
    rfl
  · rw [hshape, Tree.absentMember, hempty]
    exact list nofun
  · rw [hshape, Tree.absentMember, hempty]
    exact pairs nofun

end ReadsBack

/-- What is beside an item in a list that was made from the pairs with it. -/
theorem mem_zip_map {α β γ : Type} {g : α × β → γ} {xs : List α} {ys : List β} {p : α × γ}
    (h : p ∈ xs.zip ((xs.zip ys).map g)) : ∃ y, (p.1, y) ∈ xs.zip ys ∧ p.2 = g (p.1, y) := by
  induction xs generalizing ys with
  | nil => cases h
  | cons x xs ih =>
    cases ys with
    | nil => cases h
    | cons y ys =>
      rcases List.mem_cons.mp h with rfl | h
      · exact ⟨y, List.mem_cons_self, rfl⟩
      · obtain ⟨z, hz, hp⟩ := ih h
        exact ⟨z, List.mem_cons_of_mem _ hz, hp⟩

/-- A node that was put together has a member for each slot: what was read under its name, or what
stands for a member that may be left out. -/
theorem assemble_eq_ok {kind : NodeKind} {read : List (String × Except StorageFault Tree)} {t : Tree}
    (h : assemble kind read = .ok t) : ∃ ts, t = .node kind ts ∧ kind.slots.length = ts.length ∧
      ∀ p ∈ kind.slots.zip ts, read.lookup p.1.name = some (.ok p.2) ∨
        p.1.absent ≠ .refused ∧ p.2 = absentMember p.1 := by
  obtain ⟨members, hmembers, h⟩ := bindExcept_eq_ok.mp h
  obtain ⟨hlen, hread⟩ := mapM_eq_ok hmembers
  dsimp only at h
  split at h
  · rename_i hmissing
    rw [List.isEmpty_iff, List.filterMap_eq_nil_iff] at hmissing
    cases h
    refine ⟨_, rfl, by simp [hlen], fun p hp => ?_⟩
    obtain ⟨member, hmem, hvalue⟩ := mem_zip_map hp
    have hmember := hread _ hmem
    have hrefused := hmissing _ hmem
    dsimp only at hmember hrefused hvalue
    cases hlookup : read.lookup p.1.name with
    | some outcome =>
      rw [hlookup] at hmember
      obtain ⟨u, rfl, rfl⟩ := mapExcept_eq_ok.mp hmember
      exact .inl (by rw [hvalue]; rfl)
    | none =>
      rw [hlookup] at hmember
      cases hmember
      refine .inr ⟨?_, hvalue⟩
      intro heq
      simp [heq] at hrefused
  · cases h

/-- What is found under the name of a slot was read from the member of that name in its shape. -/
theorem lookup_ofMembers {kind : NodeKind} {slot : Slot} (hslot : slot ∈ kind.slots)
    {members : List (String × Json)} {outcome : Except StorageFault Tree}
    (h : (ofMembers kind members).lookup slot.name = some outcome) :
    ∃ v, (slot.name, v) ∈ members ∧ outcome = readAs slot.shape v := by
  have hfind := find?_name kind.slots_names.1 hslot
  induction members with
  | nil =>
    rw [ofMembers] at h
    cases h
  | cons member rest ih =>
    obtain ⟨name, v⟩ := member
    have hlater : (ofMembers kind rest).lookup slot.name = some outcome →
        ∃ v', (slot.name, v') ∈ (name, v) :: rest ∧ outcome = readAs slot.shape v' := by
      intro hrest
      obtain ⟨v', hmem, heq⟩ := ih hrest
      exact ⟨v', List.mem_cons_of_mem _ hmem, heq⟩
    rw [ofMembers_cons] at h
    by_cases hname : name = slot.name
    · subst hname
      rw [hfind] at h
      simp only [List.lookup_cons_self, Option.some.injEq] at h
      exact ⟨v, List.mem_cons_self, h.symm⟩
    · split at h
      · exact hlater h
      · rename_i other hother
        have hne : (slot.name == name) = false := by simpa using Ne.symm hname
        rw [List.lookup_cons, hne] at h
        exact hlater h

theorem eq_of_readBinaryOp {v : Json} {t : Tree} (h : readBinaryOp v = .ok t) :
    ∃ op, t = .binaryOp op := by
  unfold readBinaryOp at h
  split at h
  · split at h
    · cases h
      exact ⟨_, rfl⟩
    · cases h
  · cases h

theorem eq_of_readUnaryOp {v : Json} {t : Tree} (h : readUnaryOp v = .ok t) :
    ∃ op, t = .unaryOp op := by
  unfold readUnaryOp at h
  split at h
  · split at h
    · cases h
      exact ⟨_, rfl⟩
    · cases h
  · cases h

/-- Whatever stands for a number is read as one. -/
theorem eq_of_readNumber {v : Json} {t : Tree} (h : readNumber v = .ok t) : ∃ x, t = .float x := by
  cases v with
  | bool b =>
    cases h
    exact ⟨_, rfl⟩
  | int n =>
    simp only [readNumber] at h
    split at h
    · cases h
    · cases h
      exact ⟨_, rfl⟩
  | float x =>
    cases h
    exact ⟨_, rfl⟩
  | text s =>
    simp only [readNumber] at h
    split at h
    · cases h
      exact ⟨_, rfl⟩
    · cases h
  | null | array _ | object _ => cases h

theorem isPair_of_pairOfTexts {parts : List String} {t : Tree} (h : pairOfTexts parts = .ok t) :
    IsPair t := by
  unfold pairOfTexts at h
  split at h
  · cases h
    exact ⟨rfl, rfl⟩
  · cases h

/-- A list of pairs that were made of texts one by one. -/
theorem readsBack_of_texts {α : Type} {f : α → List String} {xs : List α} {t : Tree}
    (h : (xs.mapM fun a => pairOfTexts (f a)).map .list = .ok t) : ReadsBack .pairs t := by
  obtain ⟨ts, hread, rfl⟩ := mapExcept_eq_ok.mp h
  obtain ⟨hlen, hall⟩ := mapM_eq_ok hread
  refine .pairs fun t ht => ?_
  rw [← List.map_snd_zip (Nat.le_of_eq hlen.symm)] at ht
  obtain ⟨p, hp, rfl⟩ := List.mem_map.mp ht
  exact isPair_of_pairOfTexts (hall p hp)

mutual

/-- Whatever is read reads back. -/
theorem readsBack_of_read : ∀ {shape : Shape} {v : Json} {t : Tree}, readAs shape v = .ok t →
    ReadsBack shape t
  | .plain, .null, _, h | .plain, .bool _, _, h | .plain, .int _, _, h | .plain, .float _, _, h
  | .plain, .text _, _, h => by
    simp only [readAs, ofJson] at h
    cases h
    rfl
  | .plain, .array items, _, h => by
    simp only [readAs, ofJson] at h
    obtain ⟨ts, hitems, rfl⟩ := mapExcept_eq_ok.mp h
    exact .list (readsBack_of_items hitems)
  | .plain, .object members, _, h => by
    simp only [readAs, ofJson] at h
    split at h
    · cases h
    · rename_i kind hkind
      obtain ⟨ts, rfl, hlen, hmembers⟩ := assemble_eq_ok h
      refine .node hlen fun p hp => ?_
      have hslot : p.1 ∈ kind.slots := (List.of_mem_zip hp).1
      rcases hmembers p hp with hread | ⟨habsent, hvalue⟩
      · obtain ⟨v, hv, hread⟩ := lookup_ofMembers hslot hread
        exact readsBack_of_member hv hread.symm
      · rw [hvalue]
        exact .absentMember hslot habsent
  | .pairs, .array items, _, h => by
    simp only [readAs, ofPairs] at h
    obtain ⟨ts, hitems, rfl⟩ := mapExcept_eq_ok.mp h
    exact .pairs (isPair_of_items hitems)
  | .pairs, .text s, _, h => by
    simp only [readAs, ofPairs] at h
    exact readsBack_of_texts h
  | .pairs, .object members, _, h => by
    simp only [readAs, ofPairs] at h
    exact readsBack_of_texts h
  | .binaryOp, _, _, h => by
    obtain ⟨op, rfl⟩ := eq_of_readBinaryOp h
    exact .binaryOp op
  | .unaryOp, _, _, h => by
    obtain ⟨op, rfl⟩ := eq_of_readUnaryOp h
    exact .unaryOp op
  | .number, _, _, h => by
    obtain ⟨x, rfl⟩ := eq_of_readNumber h
    rfl

theorem readsBack_of_items : ∀ {vs : List Json} {ts : List Tree}, ofItems vs = .ok ts →
    ∀ t ∈ ts, ReadsBack .plain t
  | [], _, h => by
    rw [ofItems] at h
    cases h
    exact nofun
  | v :: vs, _, h => by
    rw [ofItems] at h
    obtain ⟨t, hfirst, h⟩ := bindExcept_eq_ok.mp h
    obtain ⟨ts, hrest, h⟩ := bindExcept_eq_ok.mp h
    cases h
    exact List.forall_mem_cons.mpr ⟨readsBack_of_read hfirst, readsBack_of_items hrest⟩

theorem readsBack_of_member : ∀ {members : List (String × Json)} {name : String} {v : Json},
    (name, v) ∈ members → ∀ {shape : Shape} {t : Tree}, readAs shape v = .ok t → ReadsBack shape t
  | (_, w) :: members, _, _, hmem, _, _, h => by
    rcases List.mem_cons.mp hmem with heq | hmem
    · cases heq
      exact readsBack_of_read h
    · exact readsBack_of_member hmem h

theorem isPair_of_items : ∀ {vs : List Json} {ts : List Tree}, ofPairItems vs = .ok ts →
    ∀ t ∈ ts, IsPair t
  | [], _, h => by
    rw [ofPairItems] at h
    cases h
    exact nofun
  | v :: vs, _, h => by
    rw [ofPairItems] at h
    obtain ⟨t, hfirst, h⟩ := bindExcept_eq_ok.mp h
    obtain ⟨ts, hrest, h⟩ := bindExcept_eq_ok.mp h
    cases h
    exact List.forall_mem_cons.mpr ⟨isPair_of_read hfirst, isPair_of_items hrest⟩

theorem isPair_of_read : ∀ {v : Json} {t : Tree}, ofPair v = .ok t → IsPair t
  | .array [a, b], _, h => by
    rw [ofPair] at h
    obtain ⟨x, hfirst, h⟩ := bindExcept_eq_ok.mp h
    obtain ⟨y, hsecond, h⟩ := bindExcept_eq_ok.mp h
    cases h
    exact ⟨readsBack_of_read hfirst, readsBack_of_read hsecond⟩
  | .text s, _, h => by
    rw [ofPair] at h
    exact isPair_of_pairOfTexts h
  | .object members, _, h => by
    rw [ofPair] at h
    exact isPair_of_pairOfTexts h

end

/-- The statements of a program that was read read back, whatever stood for its body. -/
theorem readsBack_of_program {v : Json} {ts : List Tree} (h : programOfJson v = .ok ts) :
    ∀ t ∈ ts, ReadsBack .plain t := by
  have htexts : ∀ names : List String, ∀ t ∈ names.map Tree.text, ReadsBack .plain t := by
    intro names t ht
    obtain ⟨s, -, rfl⟩ := List.mem_map.mp ht
    rfl
  unfold programOfJson at h
  split at h
  · split at h
    · split at h
      · cases h
      · exact readsBack_of_items h
      · cases h
        exact htexts _
      · cases h
        exact htexts _
      · cases h
    · cases h
  · cases h

/-- What is stored of the tree that data holds. -/
def canonical (v : Json) : Except StorageFault Json := (ofJson v).map toJson

def canonicalProgram (v : Json) : Except StorageFault Json := (programOfJson v).map programToJson

end Tree

/-- Whatever data holds, its members left out, out of place or spelt otherwise, what is stored of the
tree that was read is read as this tree, and what is stored of the program that was read is read as
this program. So data that was stored from what was read is its own canonical form. Trees are compared
as they are, so that the undefined number counts as equal to itself. -/
theorem reading_canonical :
    (∀ v t, Tree.ofJson v = .ok t → Tree.ofJson t.toJson = .ok t) ∧
    (∀ v ts, Tree.programOfJson v = .ok ts → Tree.programOfJson (Tree.programToJson ts) = .ok ts) ∧
    (∀ v w, Tree.canonical v = .ok w → Tree.canonical w = .ok w) ∧
    ∀ v w, Tree.canonicalProgram v = .ok w → Tree.canonicalProgram w = .ok w := by
  have htree : ∀ v t, Tree.ofJson v = .ok t → Tree.ofJson t.toJson = .ok t := by
    intro v t h
    have hread : Tree.readAs .plain v = .ok t := h
    exact Tree.readsBack_of_read hread
  have hprogram : ∀ v ts, Tree.programOfJson v = .ok ts →
      Tree.programOfJson (Tree.programToJson ts) = .ok ts := by
    intro v ts h
    rw [Tree.programOfJson_stored]
    exact Tree.ReadsBack.items (Tree.readsBack_of_program h)
  refine ⟨htree, hprogram, fun v w h => ?_, fun v w h => ?_⟩
  · obtain ⟨t, hread, rfl⟩ := mapExcept_eq_ok.mp h
    rw [Tree.canonical, htree v t hread]
    rfl
  · obtain ⟨ts, hread, rfl⟩ := mapExcept_eq_ok.mp h
    rw [Tree.canonicalProgram, hprogram v ts hread]
    rfl

/-- A type whose name is a number and whose fields are an object, with an unknown member and without
methods; behind it a number as a text, a list and a text in the place of statements, and nothing to
return. -/
theorem reading_canonical_loose :
    let type : Json := .object [("type", .text "TypeStmt"), ("name", .int 5),
      ("fields", .object [("ab", .null)]), ("colour", .object [("type", .int 1)])]
    let loose : Json := .object [("body", .array [type,
        .object [("expr", .object [("value", .text " 1_0 "), ("type", .text "NumberLit")]),
          ("type", .text "ExprStmt")],
        .array [.null], .text "x", .object [("type", .text "ReturnStmt")]]),
      ("type", .text "Program")]
    let tree : Tree := .node .typeStmt [.int 5, .list [.pair (.text "a") (.text "b")], .list []]
    let trees : List Tree := [tree, .node .exprStmt [.node .numberLit [.float 10]], .list [.null],
      .text "x", .node .returnStmt [.null]]
    Tree.ofJson type = .ok tree ∧ Tree.ofJson tree.toJson = .ok tree ∧
      Tree.programOfJson loose = .ok trees ∧
      Tree.programOfJson (Tree.programToJson trees) = .ok trees := by
  intro type loose tree trees
  have htree : Tree.ofJson type = .ok tree := rfl
  have hprogram : Tree.programOfJson loose = .ok trees := rfl
  exact ⟨htree, reading_canonical.1 type tree htree, hprogram,
    reading_canonical.2.1 loose trees hprogram⟩

end Scripting
