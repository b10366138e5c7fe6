import Scripting.Proofs.Eval.Formed

/-!
Chains of frames. A name is read in the nearest frame outward that binds it. An assignment gives that
one binding another value; a declaration binds the name in one frame. So another value is seen only by
those who read that name through that frame, whichever other frames share it or shadow the name.
-/

namespace Scripting

/-- The stores that can be built: one frame, and then, in any order, frames inside of others, variables,
constants and assignments. -/
inductive Store.Built : Store → Prop
  | root : Built .root
  | child {s : Store} {f : FrameId} (h : Built s) (hf : f < s.frames.size) : Built (s.child f).2
  | set {s : Store} {f : FrameId} (h : Built s) (hf : f < s.frames.size) (n : Name) (v : Value) :
      Built (s.set f n v)
  | declareConstant {s : Store} {f : FrameId} (h : Built s) (hf : f < s.frames.size) (n : Name)
      (v : Value) : Built (s.declareConstant f n v)
  | assign {s : Store} {f : FrameId} (h : Built s) (hf : f < s.frames.size) (n : Name) (v : Value) :
      Built (s.assign f n v).2

/-- A change of a frame that gives the name `n` the value `v` there. -/
structure Frame.Puts (n : Name) (v : Value) (change : Frame → Frame) : Prop where
  parent : ∀ f : Frame, (change f).parent = f.parent
  bindings : ∀ f : Frame, (change f).bindings = Named.put n v f.bindings

namespace Store

variable {s s' : Store} {f g o : FrameId} {n m : Name} {v : Value} {change : Frame → Frame}

theorem Shaped.assign (h : s.Shaped) (f : FrameId) (n : Name) (v : Value) :
    (s.assign f n v).2.Shaped := by
  unfold Store.assign
  split
  · exact h
  · split
    · exact h
    · exact h.modify _ (.update n)

theorem Built.shaped (h : s.Built) : s.Shaped := by
  induction h with
  | root => exact root_shaped
  | child _ hf ih => exact ih.child hf
  | set _ _ n v ih => exact ih.modify _ (.bind (v := v) n)
  | declareConstant _ _ n v ih => exact ih.modify _ (.bindConstant (v := v) n)
  | assign _ _ n v ih => exact ih.assign _ n v

/-- A search has one answer. -/
theorem Search.unique {a b : Option FrameId} (h : s.Search n f a) (h' : s.Search n f b) : a = b := by
  induction h with
  | here howns =>
    cases h' with
    | here => rfl
    | missing hnot => rw [hnot] at howns; cases howns
    | outward hnot => rw [hnot] at howns; cases howns
  | missing hnot hlast =>
    cases h' with
    | here howns => rw [hnot] at howns; cases howns
    | missing => rfl
    | outward _ hp => rw [hlast] at hp; cases hp
  | outward hnot hp _ ih =>
    cases h' with
    | here howns => rw [hnot] at howns; cases howns
    | missing _ hlast => rw [hlast] at hp; cases hp
    | outward _ hp' rest =>
      obtain rfl := Option.some.inj (hp.symm.trans hp')
      exact ih rest

theorem Search.owns (h : s.Search n f (some o)) : (s.frame o).owns n = true := by
  generalize ha : some o = a at h
  induction h with
  | here howns =>
    cases ha
    exact howns
  | missing => cases ha
  | outward _ _ _ ih => exact ih ha

/-- A frame that binds a name is there. -/
theorem lt_size_of_owns (h : (s.frame f).owns n = true) : f < s.frames.size := by
  rcases Nat.lt_or_ge f s.frames.size with hlt | hge
  · exact hlt
  · rw [s.frame_of_size_le hge] at h
    cases h

/-- Frame by frame, a search finds what the program finds, also in a frame that is not there. -/
theorem Shaped.search (hs : s.Shaped) (f : FrameId) (n : Name) : s.Search n f (s.owner? f n) := by
  by_cases hf : f < s.frames.size
  · obtain ⟨path, hpath, -, -, hlength, -⟩ := hs.path f hf
    have hchain : s.chain f = path := hpath.chainFrom hlength
    rw [owner?, hchain]
    exact hpath.search n
  · have hempty := s.frame_of_size_le (Nat.not_lt.mp hf)
    have hpath : s.Path f [f] := .last (by rw [hempty]; rfl)
    have hchain : s.chain f = [f] := hpath.chainFrom (by simp)
    rw [owner?, hchain]
    exact hpath.search n

theorem Shaped.owner?_eq_iff (hs : s.Shaped) {a : Option FrameId} :
    s.owner? f n = a ↔ s.Search n f a :=
  ⟨fun h => h ▸ hs.search f n, fun h => (hs.search f n).unique h⟩

/-- A name that is found has a value. -/
theorem Shaped.isDefined_iff (hs : s.Shaped) (f : FrameId) (n : Name) :
    s.isDefined f n = true ↔ ∃ v, s.get? f n = some v := by
  have hsearch := hs.search f n
  rw [isDefined, get?]
  cases howner : s.owner? f n with
  | none => simp
  | some o =>
    rw [howner] at hsearch
    have howns : ((s.frame o).bindings.lookup n).isSome = true := hsearch.owns
    simpa [Option.isSome_iff_exists] using howns

/-- Parents and names decide what a search finds. -/
theorem Search.congr (hparent : ∀ g, (s'.frame g).parent = (s.frame g).parent)
    (howns : ∀ g, (s'.frame g).owns n = (s.frame g).owns n) {a : Option FrameId}
    (h : s.Search n f a) : s'.Search n f a := by
  induction h with
  | here h => exact .here ((howns _).trans h)
  | missing h hlast => exact .missing ((howns _).trans h) ((hparent _).trans hlast)
  | outward h hp _ ih => exact .outward ((howns _).trans h) ((hparent _).trans hp) ih

section Puts

variable (hc : Frame.Puts n v change) (hf : f < s.frames.size)
include hc

theorem parent_modify (f g : FrameId) :
    ((s.modify f change).frame g).parent = (s.frame g).parent := by
  rcases s.frame_modify f g change with h | h
  · rw [h]
  · rw [h, hc.parent]

include hf

/-- One binding has the new value, and all others have the value that they had. -/
theorem lookup_modify (g : FrameId) (m : Name) :
    ((s.modify f change).frame g).bindings.lookup m =
      if g = f ∧ m = n then some v else (s.frame g).bindings.lookup m := by
  by_cases hg : g = f
  · subst hg
    rw [s.frame_modify_self hf, hc.bindings]
    by_cases hm : m = n
    · rw [if_pos ⟨rfl, hm⟩, hm, Named.lookup_put_self]
    · rw [if_neg fun h => hm h.2, Named.lookup_put_of_ne hm]
  · rw [if_neg fun h => hg h.1, s.frame_modify_of_ne hg]

theorem owns_modify (g : FrameId) (m : Name) :
    ((s.modify f change).frame g).owns m = (decide (g = f ∧ m = n) || (s.frame g).owns m) := by
  unfold Frame.owns Named.has
  rw [lookup_modify hc hf g m]
  by_cases h : g = f ∧ m = n
  · simp [h]
  · simp [h]

/-- Another name is found where it was. -/
theorem Search.modify_of_ne (hm : m ≠ n) {a : Option FrameId} (h : s.Search m g a) :
    (s.modify f change).Search m g a := by
  refine h.congr (parent_modify hc f) fun h => ?_
  simp [owns_modify hc hf, hm]

/-- The name is found where it was or in the frame that has it now. -/
theorem Search.modify {a : Option FrameId} (h : s.Search n g a) :
    (s.modify f change).Search n g a ∨ (s.modify f change).Search n g (some f) := by
  have howns := owns_modify hc hf (m := n)
  have hhere : (s.modify f change).Search n f (some f) := .here (by simp [howns])
  induction h with
  | @here g h => exact .inl (.here (by simp [howns, h]))
  | @missing g h hlast =>
    by_cases hg : g = f
    · exact .inr (hg ▸ hhere)
    · exact .inl (.missing (by simp [howns, h, hg]) ((parent_modify hc f g).trans hlast))
  | @outward g p a h hp _ ih =>
    by_cases hg : g = f
    · exact .inr (hg ▸ hhere)
    · have hnot : ((s.modify f change).frame g).owns n = false := by simp [howns, h, hg]
      have hp' := (parent_modify hc f g).trans hp
      exact ih.imp (.outward hnot hp') (.outward hnot hp')

/-- Those who find the name in the changed frame read the new value. Everybody else reads what they
read before, under this name and under all others. -/
theorem Shaped.get?_modify (hs : s.Shaped) (hs' : (s.modify f change).Shaped) (g : FrameId)
    (m : Name) : (s.modify f change).get? g m =
      if m = n ∧ (s.modify f change).owner? g n = some f then some v else s.get? g m := by
  have hlookup := lookup_modify hc hf
  have hsearch := hs.search g m
  by_cases hm : m = n
  · subst hm
    rcases Search.modify hc hf hsearch with h | h
    · have howner := hs'.owner?_eq_iff.mpr h
      rw [get?, get?, howner]
      cases ho : s.owner? g m with
      | none => simp
      | some o =>
        by_cases hof : o = f
        · simp [hof, hlookup]
        · simp [hof, hlookup]
    · have howner := hs'.owner?_eq_iff.mpr h
      simp [get?, howner, hlookup]
  · have howner := hs'.owner?_eq_iff.mpr (Search.modify_of_ne hc hf hm hsearch)
    rw [if_neg fun h => hm h.1, get?, get?, howner]
    simp [hlookup, hm]

end Puts

theorem puts_bind (n : Name) (v : Value) : Frame.Puts n v (Frame.bind n v) :=
  ⟨fun _ => rfl, fun _ => rfl⟩

theorem puts_bindConstant (n : Name) (v : Value) : Frame.Puts n v (Frame.bindConstant n v) :=
  ⟨fun _ => rfl, fun _ => rfl⟩

theorem puts_update (n : Name) (v : Value) : Frame.Puts n v (Frame.update n v) :=
  ⟨fun _ => rfl, fun _ => rfl⟩

/-- The binding of `n` in the frame `o` has the value `v`, and nothing else is different: no other
binding, no frame's names, no mark of a constant. Those who find `n` in `o` read `v`, and every other
reading is as it was. -/
structure Reassigned (s : Store) (o : FrameId) (n : Name) (v : Value) (s' : Store) : Prop where
  size : s'.frames.size = s.frames.size
  parents : ∀ g, (s'.frame g).parent = (s.frame g).parent
  names : ∀ g, Named.names (s'.frame g).bindings = Named.names (s.frame g).bindings
  constants : ∀ g, (s'.frame g).constants = (s.frame g).constants
  bindings : ∀ g m, (s'.frame g).bindings.lookup m =
    if g = o ∧ m = n then some v else (s.frame g).bindings.lookup m
  readers : ∀ g, s.Search n g (some o) → s'.get? g n = some v
  others : ∀ g m, ¬ (m = n ∧ s.Search n g (some o)) → s'.get? g m = s.get? g m

/-- The frame `f` binds `n` to `v`, marked as a constant or not, and nothing else is different: no other
frame, no other name in this one, no other mark. Those who now find `n` in `f` read `v`, among them all
who did so before, and every other reading is as it was. -/
structure Declared (s : Store) (f : FrameId) (n : Name) (v : Value) (constant : Bool) (s' : Store) :
    Prop where
  size : s'.frames.size = s.frames.size
  frames : ∀ g, g ≠ f → s'.frame g = s.frame g
  parent : (s'.frame f).parent = (s.frame f).parent
  names : Named.names (s'.frame f).bindings = Named.withName n (Named.names (s.frame f).bindings)
  marks : ∀ m, m ∈ (s'.frame f).constants ↔
    if m = n then constant = true else m ∈ (s.frame f).constants
  bindings : ∀ m, (s'.frame f).bindings.lookup m =
    if m = n then some v else (s.frame f).bindings.lookup m
  found : ∀ g, s.Search n g (some f) → s'.Search n g (some f)
  readers : ∀ g, s'.Search n g (some f) → s'.get? g n = some v
  others : ∀ g m, ¬ (m = n ∧ s'.Search n g (some f)) → s'.get? g m = s.get? g m

/-- An assignment to a variable in the frame that binds it. -/
theorem Shaped.reassigned (hs : s.Shaped) (howns : (s.frame o).owns n = true) (v : Value) :
    s.Reassigned o n v (s.modify o (Frame.update n v)) := by
  have ho := lt_size_of_owns howns
  have hc := puts_update n v
  have hs' : (s.modify o (Frame.update n v)).Shaped := hs.modify o (.update n)
  have hsame : ∀ g m, ((s.modify o (Frame.update n v)).frame g).owns m = (s.frame g).owns m := by
    intro g m
    rw [owns_modify hc ho]
    by_cases h : g = o ∧ m = n
    · obtain ⟨rfl, rfl⟩ := h
      simp [howns]
    · simp [h]
  have hread := hs.get?_modify hc ho hs'
  have howner : ∀ g, (s.modify o (Frame.update n v)).owner? g n = some o ↔
      s.Search n g (some o) := by
    intro g
    rw [hs'.owner?_eq_iff]
    exact ⟨.congr (fun h => (parent_modify hc o h).symm) fun h => (hsame h n).symm,
      .congr (parent_modify hc o) fun h => hsame h n⟩
  constructor
  case size => exact s.size_modify o _
  case parents => exact parent_modify hc o
  case names =>
    intro g
    rcases s.frame_modify o g (Frame.update n v) with h | h
    · rw [h]
    · by_cases hg : g = o
      · subst hg
        rw [h]
        exact Named.names_put_of_has howns v
      · rw [s.frame_modify_of_ne hg]
  case constants =>
    intro g
    rcases s.frame_modify o g (Frame.update n v) with h | h
    · rw [h]
    · rw [h]
      rfl
  case bindings => exact lookup_modify hc ho
  case readers =>
    intro g hg
    rw [hread, if_pos ⟨rfl, (howner g).mpr hg⟩]
  case others =>
    intro g m hne
    rw [hread, if_neg fun h => hne ⟨h.1, (howner g).mp h.2⟩]

/-- A declaration in a frame, whatever becomes of the mark. -/
theorem Shaped.declared (hs : s.Shaped) (hf : f < s.frames.size) (hc : Frame.Puts n v change)
    (hs' : (s.modify f change).Shaped) {constant : Bool}
    (hmarks : ∀ m, m ∈ (change (s.frame f)).constants ↔
      if m = n then constant = true else m ∈ (s.frame f).constants) :
    s.Declared f n v constant (s.modify f change) := by
  have hself := s.frame_modify_self hf change
  have hread := hs.get?_modify hc hf hs'
  constructor
  case size => exact s.size_modify f change
  case frames => exact fun g hg => s.frame_modify_of_ne hg change
  case parent => exact parent_modify hc f f
  case names =>
    rw [hself, hc.bindings]
    exact Named.names_put n v _
  case marks =>
    rw [hself]
    exact hmarks
  case bindings =>
    intro m
    simpa using lookup_modify hc hf f m
  case found =>
    intro g hg
    exact (Search.modify hc hf hg).elim id id
  case readers =>
    intro g hg
    rw [hread, if_pos ⟨rfl, hs'.owner?_eq_iff.mpr hg⟩]
  case others =>
    intro g m hne
    rw [hread, if_neg fun h => hne ⟨h.1, hs'.owner?_eq_iff.mp h.2⟩]

theorem Shaped.declared_set (hs : s.Shaped) (hf : f < s.frames.size) (n : Name) (v : Value) :
    s.Declared f n v false (s.set f n v) := by
  refine hs.declared hf (puts_bind n v) (hs.modify f (.bind (v := v) n)) fun m => ?_
  have hmem : m ∈ (Frame.bind n v (s.frame f)).constants ↔ m ∈ (s.frame f).constants ∧ m ≠ n := by
    simp [Frame.bind]
  rw [hmem]
  by_cases hm : m = n
  · simp [hm]
  · simp [hm]

theorem Shaped.declared_constant (hs : s.Shaped) (hf : f < s.frames.size) (n : Name) (v : Value) :
    s.Declared f n v true (s.declareConstant f n v) := by
  refine hs.declared hf (puts_bindConstant n v) (hs.modify f (.bindConstant (v := v) n)) fun m => ?_
  have hmem : m ∈ (Frame.bindConstant n v (s.frame f)).constants ↔
      m = n ∨ m ∈ (s.frame f).constants := by
    unfold Frame.bindConstant
    dsimp only
    split
    · rename_i hn
      rw [List.contains_iff_mem] at hn
      exact ⟨.inr, fun h => h.elim (fun h => h ▸ hn) id⟩
    · rw [List.mem_append, List.mem_singleton, or_comm]
  rw [hmem]
  by_cases hm : m = n
  · simp [hm]
  · simp [hm]

/-- What is read under a name is its value in the frame that a search finds. -/
theorem Shaped.get?_eq_some_iff (hs : s.Shaped) (f : FrameId) (n : Name) (w : Value) :
    s.get? f n = some w ↔
      ∃ o, s.Search n f (some o) ∧ (s.frame o).bindings.lookup n = some w := by
  rw [get?, Option.bind_eq_some_iff]
  exact exists_congr fun o => and_congr_left fun _ => hs.owner?_eq_iff

/-- An assignment has three outcomes, according to the frame that a search finds. -/
theorem Shaped.assign_cases (hs : s.Shaped) (f : FrameId) (n : Name) (v : Value) :
    (s.assign f n v = (.undefined, s) ∧ s.Search n f none) ∨
    (∃ o, s.assign f n v = (.constant, s) ∧ s.Search n f (some o) ∧ n ∈ (s.frame o).constants) ∨
    (∃ o, s.assign f n v = (.done, s.modify o (Frame.update n v)) ∧ s.Search n f (some o) ∧
      n ∉ (s.frame o).constants) := by
  have hsearch := hs.search f n
  unfold Store.assign
  cases howner : s.owner? f n with
  | none =>
    rw [howner] at hsearch
    exact .inl ⟨rfl, hsearch⟩
  | some o =>
    rw [howner] at hsearch
    dsimp only
    by_cases hconstant : n ∈ (s.frame o).constants
    · rw [if_pos (List.contains_iff_mem.mpr hconstant)]
      exact .inr (.inl ⟨o, rfl, hsearch, hconstant⟩)
    · rw [if_neg fun h => hconstant (List.contains_iff_mem.mp h)]
      exact .inr (.inr ⟨o, rfl, hsearch, hconstant⟩)

theorem Shaped.assign_undefined_iff (hs : s.Shaped) (f : FrameId) (n : Name) (v : Value) :
    (s.assign f n v).1 = .undefined ↔ s.isDefined f n = false := by
  have hdefined : s.isDefined f n = false ↔ s.Search n f none := by
    rw [← hs.owner?_eq_iff, isDefined, Option.isSome_eq_false_iff, Option.isNone_iff_eq_none]
  rw [hdefined]
  rcases hs.assign_cases f n v with ⟨hassign, hnone⟩ | ⟨o, hassign, ho, -⟩ | ⟨o, hassign, ho, -⟩
  · simp [hassign, hnone]
  · have hnot : ¬ s.Search n f none := fun h => nomatch h.unique ho
    simp [hassign, hnot]
  · have hnot : ¬ s.Search n f none := fun h => nomatch h.unique ho
    simp [hassign, hnot]

theorem Shaped.assign_constant_iff (hs : s.Shaped) (f : FrameId) (n : Name) (v : Value) :
    (s.assign f n v).1 = .constant ↔ ∃ o, s.Search n f (some o) ∧ n ∈ (s.frame o).constants := by
  rcases hs.assign_cases f n v with ⟨hassign, hnone⟩ | ⟨o, hassign, ho, hmark⟩ |
    ⟨o, hassign, ho, hmark⟩
  · have hnot : ¬ ∃ o, s.Search n f (some o) ∧ n ∈ (s.frame o).constants :=
      fun ⟨o, ho, _⟩ => nomatch ho.unique hnone
    simp [hassign, hnot]
  · simpa [hassign] using ⟨o, ho, hmark⟩
  · have hnot : ¬ ∃ o, s.Search n f (some o) ∧ n ∈ (s.frame o).constants := by
      rintro ⟨p, hp, hp'⟩
      obtain rfl := Option.some.inj (hp.unique ho)
      exact hmark hp'
    simp [hassign, hnot]

theorem Shaped.assign_of_ne_done (hs : s.Shaped) {f : FrameId} {n : Name} {v : Value}
    (h : (s.assign f n v).1 ≠ .done) : (s.assign f n v).2 = s := by
  rcases hs.assign_cases f n v with ⟨hassign, -⟩ | ⟨o, hassign, -⟩ | ⟨o, hassign, -⟩
  · rw [hassign]
  · rw [hassign]
  · rw [hassign] at h
    exact absurd rfl h

theorem Shaped.assign_of_done (hs : s.Shaped) {f : FrameId} {n : Name} {v : Value}
    (h : (s.assign f n v).1 = .done) :
    ∃ o, s.Search n f (some o) ∧ s.Reassigned o n v (s.assign f n v).2 := by
  rcases hs.assign_cases f n v with ⟨hassign, -⟩ | ⟨o, hassign, -⟩ | ⟨o, hassign, ho, -⟩
  · rw [hassign] at h
    cases h
  · rw [hassign] at h
    cases h
  · rw [hassign]
    exact ⟨o, ho, hs.reassigned ho.owns v⟩

end Store

/-- In every store that can be built, a name has the value that the nearest frame outward gives it, and
it is defined just if there is such a value. An assignment fails for want of such a frame, or because
that frame has the name as a constant, and then changes nothing. Otherwise it changes that one binding,
for all who find the name there and for nobody else. A declaration changes only what is read through its
own frame under the declared name. -/
theorem scope_chain {s : Store} (hs : s.Built) {f : FrameId} (hf : f < s.frames.size) (n : Name)
    (v : Value) :
    (∀ w, s.get? f n = some w ↔
      ∃ o, s.Search n f (some o) ∧ (s.frame o).bindings.lookup n = some w) ∧
    (s.isDefined f n = true ↔ ∃ w, s.get? f n = some w) ∧
    ((s.assign f n v).1 = .undefined ↔ s.isDefined f n = false) ∧
    ((s.assign f n v).1 = .constant ↔
      ∃ o, s.Search n f (some o) ∧ n ∈ (s.frame o).constants) ∧
    ((s.assign f n v).1 ≠ .done → (s.assign f n v).2 = s) ∧
    ((s.assign f n v).1 = .done →
      ∃ o, s.Search n f (some o) ∧ s.Reassigned o n v (s.assign f n v).2) ∧
    s.Declared f n v false (s.set f n v) ∧
    s.Declared f n v true (s.declareConstant f n v) := by
  have hshaped := hs.shaped
  exact ⟨hshaped.get?_eq_some_iff f n, hshaped.isDefined_iff f n,
    hshaped.assign_undefined_iff f n v, hshaped.assign_constant_iff f n v,
    hshaped.assign_of_ne_done, hshaped.assign_of_done,
    hshaped.declared_set hf n v, hshaped.declared_constant hf n v⟩

/-- A constant in the outermost frame, shadowed by a variable in the frame 1. From the frame 2 inside of
that one the variable is found and changed, which its sibling 3 sees as well; the frame 4 beside them
still finds the constant. -/
theorem scope_chain_shadowed :
    let n : Name := .text "x"
    let s₁ := ((Store.root.declareConstant 0 n (.bool true)).child 0).2.set 1 n .null
    let s := (((s₁.child 1).2.child 1).2.child 0).2
    let s' := (s.assign 2 n (.text "new")).2
    s.Built ∧ (s.assign 2 n (.text "new")).1 = .done ∧ s'.get? 3 n = some (.text "new") ∧
      s'.get? 4 n = s.get? 4 n := by
  intro n s₁ s s'
  have hs₁ : s₁.Built :=
    .set (.child (.declareConstant .root (by decide) _ _) (by decide)) (by decide) _ _
  have hs : s.Built := .child (.child (.child hs₁ (by decide)) (by decide)) (by decide)
  have hdone : (s.assign 2 n (.text "new")).1 = .done := by decide
  obtain ⟨-, -, -, -, -, hassign, -, -⟩ := scope_chain hs (f := 2) (by decide) n (.text "new")
  obtain ⟨o, ho, hreassigned⟩ := hassign hdone
  have hsearch : ∀ f, s.Search n f (s.owner? f n) := fun f => hs.shaped.search f n
  obtain rfl : o = 1 := Option.some.inj (ho.unique (hsearch 2))
  have hother : ¬ s.Search n 4 (some 1) := fun h => nomatch h.unique (hsearch 4)
  exact ⟨hs, hdone, hreassigned.readers 3 (hsearch 3), hreassigned.others 4 n fun h => hother h.2⟩

end Scripting
