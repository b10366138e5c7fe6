import Scripting.Proofs.Json.Scalars

/-!
Stored data reads back from its text. The reader passes over the new lines and the indentation
between the parts of the text, and its bound grows twice as fast as the text, which is more than the
steps that it takes.
-/

namespace Scripting

theorem Named.put_of_notMem {κ α : Type} [BEq κ] [LawfulBEq κ] {name : κ} (value : α) :
    ∀ {xs : List (κ × α)}, name ∉ xs.map Prod.fst → put name value xs = xs ++ [(name, value)]
  | [], _ => rfl
  | (n, v) :: rest, h => by
    rw [List.map_cons, List.mem_cons, not_or] at h
    have hne : (n == name) = false := beq_eq_false_iff_ne.mpr (Ne.symm h.1)
    rw [put, hne, put_of_notMem value h.2]
    rfl

namespace Json

mutual

/-- Data as programs are stored: without integers, the members of an object under different
names. -/
def storable : Json → Bool
  | .null | .bool _ | .float _ | .text _ => true
  | .int _ => false
  | .array items => storableItems items
  | .object members => decide (members.map Prod.fst).Nodup && storableMembers members

def storableItems : List Json → Bool
  | [] => true
  | v :: rest => storable v && storableItems rest

def storableMembers : List (String × Json) → Bool
  | [] => true
  | (_, v) :: rest => storable v && storableMembers rest

end

open Printer Reader

section Gaps

theorem newline_toList (depth : Nat) :
    (newline depth).toList = '\n' :: List.replicate (2 * depth) ' ' := by
  simp [newline]

theorem skipGap_cons {c : Char} (hc : isGap c = false) (cs : List Char) :
    skipGap (c :: cs) = c :: cs := by
  simp [skipGap, hc]

theorem skipGap_newline (depth : Nat) (cs : List Char) :
    skipGap ((newline depth).toList ++ cs) = skipGap cs := by
  have hspaces : ∀ n, skipGap (List.replicate n ' ' ++ cs) = skipGap cs := by
    intro n
    induction n with
    | zero => rfl
    | succ n ih => exact ih
  rw [newline_toList]
  exact hspaces _

theorem ends_newline (depth : Nat) (cs : List Char) : Ends ((newline depth).toList ++ cs) := by
  rw [newline_toList]
  rintro c hc
  exact .inr (Option.some.inj hc).symm

end Gaps

section Texts

variable (depth : Nat)

theorem render_array (v : Json) (vs : List Json) : (render depth (.array (v :: vs))).toList =
    '[' :: ((newline (depth + 1)).toList ++ ((render (depth + 1) v).toList ++
      ((renderItems (depth + 1) vs).toList ++ ((newline depth).toList ++ [']'])))) := by
  simp [render]

theorem render_object (name : String) (v : Json) (ms : List (String × Json)) :
    (render depth (.object ((name, v) :: ms))).toList =
      '\x7b' :: ((newline (depth + 1)).toList ++ ((Printer.text name).toList ++
        (':' :: ' ' :: ((render (depth + 1) v).toList ++
          ((renderMembers (depth + 1) ms).toList ++ ((newline depth).toList ++ ['\x7d'])))))) := by
  simp [render]

theorem renderItems_cons (v : Json) (vs : List Json) : (renderItems depth (v :: vs)).toList =
    ',' :: ((newline depth).toList ++ ((render depth v).toList ++ (renderItems depth vs).toList)) := by
  simp [renderItems]

theorem renderMembers_cons (name : String) (v : Json) (ms : List (String × Json)) :
    (renderMembers depth ((name, v) :: ms)).toList =
      ',' :: ((newline depth).toList ++ ((Printer.text name).toList ++
        (':' :: ' ' :: ((render depth v).toList ++ (renderMembers depth ms).toList)))) := by
  simp [renderMembers]

end Texts

theorem value_scalar {c : Char} (hc : startsScalar c = true) (bound : Nat) (cs : List Char) :
    value (bound + 1) (c :: cs) = scalar (c :: cs) := by
  rw [value] <;>
  · rintro rest heq
    cases heq
    exact absurd hc (by decide)

theorem isGap_of_startsScalar {c : Char} (hc : startsScalar c = true) : isGap c = false := by
  rw [Bool.eq_false_iff]
  intro hgap
  simp only [isGap, Bool.or_eq_true, beq_iff_eq] at hgap
  rcases hgap with ((rfl | rfl) | rfl) | rfl <;> exact absurd hc (by decide)

theorem ends_items (depth close : Nat) (vs : List Json) (cs : List Char) :
    Ends ((renderItems depth vs).toList ++ ((newline close).toList ++ cs)) := by
  cases vs with
  | nil =>
    rw [renderItems]
    exact ends_newline close cs
  | cons v vs =>
    rw [renderItems_cons]
    exact fun c hc => .inl (Option.some.inj hc).symm

theorem ends_members (depth close : Nat) (ms : List (String × Json)) (cs : List Char) :
    Ends ((renderMembers depth ms).toList ++ ((newline close).toList ++ cs)) := by
  cases ms with
  | nil =>
    rw [renderMembers]
    exact ends_newline close cs
  | cons m ms =>
    rw [renderMembers_cons]
    exact fun c hc => .inl (Option.some.inj hc).symm

/-- The name of a member is read with the colon behind it. -/
theorem memberName_text {cs : List Char} (name : String) {rest : List Char}
    (hcs : skipGap cs = (Printer.text name).toList ++ ':' :: rest) :
    memberName cs = .ok (name, rest) := by
  obtain ⟨body, htext, -, hread⟩ := text_text name
  have hgap : skipGap (':' :: rest) = ':' :: rest := skipGap_cons (by decide) rest
  rw [htext] at hcs
  rw [memberName, hcs]
  simp only [List.cons_append, hread, hgap, bind, Except.bind]

/-- The text of a value is read as the value, at any depth and with enough steps. It starts neither
with a gap nor with the end of an array. -/
structure Reads (v : Json) : Prop where
  opens : ∀ depth, ∃ c cs, (render depth v).toList = c :: cs ∧ isGap c = false ∧ c ≠ ']'
  value : ∀ (depth bound : Nat) (rest : List Char), 2 * (render depth v).toList.length ≤ bound →
    Ends rest → value bound ((render depth v).toList ++ rest) = .ok (v, rest)

theorem Reads.skipGap {v : Json} (hv : Reads v) (depth : Nat) (cs : List Char) :
    skipGap ((render depth v).toList ++ cs) = (render depth v).toList ++ cs := by
  obtain ⟨c, rest, htext, hc, -⟩ := hv.opens depth
  rw [htext]
  exact skipGap_cons hc _

/-- A value is read back when one step reads its text. -/
theorem Reads.of_step {v : Json} (hopens : ∀ depth, ∃ c cs, (render depth v).toList = c :: cs ∧
      isGap c = false ∧ c ≠ ']')
    (hstep : ∀ (depth bound : Nat) (rest : List Char),
      2 * (render depth v).toList.length ≤ bound + 1 → Ends rest →
      Reader.value (bound + 1) ((render depth v).toList ++ rest) = .ok (v, rest)) : Reads v := by
  refine ⟨hopens, fun depth bound rest hbound hrest => ?_⟩
  obtain ⟨c, cs, htext, -⟩ := hopens depth
  obtain ⟨bound, rfl⟩ : ∃ b, bound = b + 1 := by
    rw [htext, List.length_cons] at hbound
    exact ⟨bound - 1, by omega⟩
  exact hstep depth bound rest hbound hrest

/-- Words and numbers are read back. -/
theorem reads_scalar {v : Json} {c : Char} {cs : List Char}
    (htext : ∀ depth, (render depth v).toList = c :: cs) (hc : startsScalar c = true)
    (hread : ∀ rest, Ends rest → scalar (c :: cs ++ rest) = .ok (v, rest)) : Reads v := by
  refine .of_step (fun depth => ⟨c, cs, htext depth, isGap_of_startsScalar hc, ?_⟩)
    fun depth bound rest _ hrest => ?_
  · rintro rfl
    exact absurd hc (by decide)
  · rw [htext, List.cons_append, value_scalar hc]
    exact hread rest hrest

theorem reads_null : Reads .null :=
  reads_scalar (fun depth => by rw [render]; rfl) (by decide : startsScalar 'n' = true) fun _ _ => rfl

theorem reads_bool : ∀ b, Reads (.bool b)
  | true => reads_scalar (fun depth => by rw [render]; rfl) (by decide : startsScalar 't' = true)
      fun _ _ => rfl
  | false => reads_scalar (fun depth => by rw [render]; rfl) (by decide : startsScalar 'f' = true)
      fun _ _ => rfl

theorem reads_float (x : Float) : Reads (.float x) := by
  obtain ⟨c, cs, htext, hc, -, hread⟩ := scalar_float x
  exact reads_scalar (fun depth => by rw [render, htext]) hc hread

theorem reads_text (s : String) : Reads (.text s) := by
  obtain ⟨cs, htext, -, hread⟩ := text_text s
  have hrender : ∀ depth, (render depth (.text s)).toList = '"' :: cs := fun depth => by
    rw [render, htext]
  refine .of_step (fun depth => ⟨'"', cs, hrender depth, by decide, by decide⟩)
    fun depth bound rest _ _ => ?_
  rw [hrender, List.cons_append, value, hread]
  rfl

/-- The items of an array are read up to its closing bracket. -/
theorem items_render {depth close : Nat} {rest : List Char} {vs : List Json} : ∀ {v : Json}
    {bound : Nat} {cs : List Char} (read : List Json), (∀ w ∈ v :: vs, Reads w) →
    2 * ((render depth v).toList.length + (renderItems depth vs).toList.length) < bound →
    skipGap cs = (render depth v).toList ++ ((renderItems depth vs).toList ++
      ((newline close).toList ++ ']' :: rest)) →
    items bound read cs = .ok (.array (read.reverse ++ v :: vs), rest) := by
  induction vs with
  | nil =>
    intro v bound cs read hreads hbound hcs
    obtain ⟨bound, rfl⟩ : ∃ b, bound = b + 1 := ⟨bound - 1, by omega⟩
    have hv := (hreads v List.mem_cons_self).value depth bound _ (by omega)
      (ends_items depth close [] (']' :: rest))
    have hclose : skipGap ((renderItems depth []).toList ++ ((newline close).toList ++ ']' :: rest)) =
        ']' :: rest := by
      rw [renderItems]
      exact (skipGap_newline close _).trans (skipGap_cons (by decide) rest)
    rw [items, hcs, hv]
    simp only [bind, Except.bind, hclose, List.reverse_cons]
  | cons w ws ih =>
    intro v bound cs read hreads hbound hcs
    obtain ⟨bound, rfl⟩ : ∃ b, bound = b + 1 := ⟨bound - 1, by omega⟩
    have hv := (hreads v List.mem_cons_self).value depth bound _ (by omega)
      (ends_items depth close (w :: ws) (']' :: rest))
    rw [renderItems_cons] at hbound hv hcs
    simp only [List.cons_append, List.append_assoc, List.length_cons, List.length_append]
      at hbound hv hcs
    rw [items, hcs, hv]
    simp only [bind, Except.bind]
    rw [skipGap_cons (by decide)]
    have hw := (hreads w (List.mem_cons_of_mem v List.mem_cons_self)).skipGap depth
    refine (ih (v :: read) (fun u hu => hreads u (List.mem_cons_of_mem v hu)) (by omega)
      ((skipGap_newline depth _).trans (hw _))).trans ?_
    rw [List.reverse_cons, List.append_assoc, List.singleton_append]

/-- A member is read and put behind the members read so far. A comma goes on with the next one, a
brace ends the object. -/
theorem members_step {depth bound : Nat} {name : String} {v : Json} {cs behind rest : List Char}
    {read : List (String × Json)} (hv : Reads v) (hfresh : name ∉ read.map Prod.fst)
    (hbound : 2 * (render depth v).toList.length ≤ bound) (hends : Ends behind)
    (hcs : skipGap cs = (Printer.text name).toList ++ (':' :: ' ' :: ((render depth v).toList ++
      behind))) :
    (skipGap behind = ',' :: rest →
      members (bound + 1) read cs = members bound (read ++ [(name, v)]) rest) ∧
    (skipGap behind = '\x7d' :: rest →
      members (bound + 1) read cs = .ok (.object (read ++ [(name, v)]), rest)) := by
  have hgap : skipGap (' ' :: ((render depth v).toList ++ behind)) =
      (render depth v).toList ++ behind :=
    hv.skipGap depth behind
  rw [members, memberName_text name hcs]
  simp only [bind, Except.bind, hgap, hv.value depth bound behind hbound hends,
    Named.put_of_notMem v hfresh]
  constructor
  · intro hnext
    simp only [hnext]
  · intro hnext
    simp only [hnext]

/-- The members of an object are read up to its closing brace. -/
theorem members_render {depth close : Nat} {rest : List Char} {ms : List (String × Json)} :
    ∀ {name : String} {v : Json} {bound : Nat} {cs : List Char} (read : List (String × Json)),
    (∀ m ∈ (name, v) :: ms, Reads m.2) →
    ((read ++ (name, v) :: ms).map Prod.fst).Nodup →
    2 * ((render depth v).toList.length + (renderMembers depth ms).toList.length) < bound →
    skipGap cs = (Printer.text name).toList ++ (':' :: ' ' :: ((render depth v).toList ++
      ((renderMembers depth ms).toList ++ ((newline close).toList ++ '\x7d' :: rest)))) →
    members bound read cs = .ok (.object (read ++ (name, v) :: ms), rest) := by
  have hfresh : ∀ {name : String} {v : Json} {read ms : List (String × Json)},
      ((read ++ (name, v) :: ms).map Prod.fst).Nodup → name ∉ read.map Prod.fst := by
    intro name v read ms hnames hmem
    rw [List.map_append, List.map_cons, List.nodup_append] at hnames
    exact hnames.2.2 name hmem name List.mem_cons_self rfl
  induction ms with
  | nil =>
    intro name v bound cs read hreads hnames hbound hcs
    obtain ⟨bound, rfl⟩ : ∃ b, bound = b + 1 := ⟨bound - 1, by omega⟩
    have hv : Reads v := hreads (name, v) List.mem_cons_self
    have hclose : skipGap ((renderMembers depth []).toList ++
        ((newline close).toList ++ '\x7d' :: rest)) = '\x7d' :: rest := by
      rw [renderMembers]
      exact (skipGap_newline close _).trans (skipGap_cons (by decide) rest)
    exact (members_step hv (hfresh hnames) (by omega) (ends_members depth close [] _) hcs).2 hclose
  | cons m ms ih =>
    intro name v bound cs read hreads hnames hbound hcs
    obtain ⟨bound, rfl⟩ : ∃ b, bound = b + 1 := ⟨bound - 1, by omega⟩
    have hv : Reads v := hreads (name, v) List.mem_cons_self
    have hends := ends_members depth close (m :: ms) ('\x7d' :: rest)
    rw [renderMembers_cons] at hbound hends hcs
    simp only [List.cons_append, List.append_assoc, List.length_cons, List.length_append]
      at hbound hends hcs
    rw [(members_step hv (hfresh hnames) (by omega) hends hcs).1 (skipGap_cons (by decide) _)]
    obtain ⟨body, htext, -⟩ := text_text m.1
    refine (ih (read ++ [(name, v)]) (fun u hu => hreads u (List.mem_cons_of_mem _ hu)) ?_
      (by omega) ((skipGap_newline depth _).trans ?_)).trans ?_
    · rwa [List.append_assoc, List.singleton_append]
    · rw [htext]
      exact skipGap_cons (by decide) _
    · rw [List.append_assoc, List.singleton_append]

/-- Arrays are read back when their items are. -/
theorem reads_array : ∀ {vs : List Json}, (∀ v ∈ vs, Reads v) → Reads (.array vs)
  | [], _ => by
    have hrender : ∀ depth, (render depth (.array [])).toList = ['[', ']'] := fun depth => by
      rw [render]
      rfl
    refine .of_step (fun depth => ⟨'[', [']'], hrender depth, by decide, by decide⟩)
      fun depth bound rest _ _ => ?_
    rw [hrender]
    rfl
  | v :: vs, hvs => by
    refine .of_step (fun depth => ⟨'[', _, render_array depth v vs, by decide, by decide⟩)
      fun depth bound rest hbound _ => ?_
    have hv := hvs v List.mem_cons_self
    rw [render_array] at hbound ⊢
    simp only [List.cons_append, List.append_assoc, List.nil_append, List.length_cons,
      List.length_append] at hbound ⊢
    have hskip := hv.skipGap (depth + 1)
      ((renderItems (depth + 1) vs).toList ++ ((newline depth).toList ++ ']' :: rest))
    obtain ⟨c, cs, htext, -, hne⟩ := hv.opens (depth + 1)
    rw [value, skipGap_newline, hskip]
    -- an array that does not close at once goes on with its first item
    split
    · rename_i heq
      rw [htext] at heq
      exact absurd (List.cons.inj heq).1 hne
    · exact items_render [] hvs (by omega) hskip

/-- Objects are read back when their members are. -/
theorem reads_object : ∀ {ms : List (String × Json)}, (∀ m ∈ ms, Reads m.2) →
    (ms.map Prod.fst).Nodup → Reads (.object ms)
  | [], _, _ => by
    have hrender : ∀ depth, (render depth (.object [])).toList = ['\x7b', '\x7d'] := fun depth => by
      rw [render]
      rfl
    refine .of_step (fun depth => ⟨'\x7b', ['\x7d'], hrender depth, by decide, by decide⟩)
      fun depth bound rest _ _ => ?_
    rw [hrender]
    rfl
  | (name, v) :: ms, hms, hnames => by
    refine .of_step (fun depth => ⟨'\x7b', _, render_object depth name v ms, by decide, by decide⟩)
      fun depth bound rest hbound _ => ?_
    obtain ⟨body, htext, -⟩ := text_text name
    rw [render_object] at hbound ⊢
    simp only [List.cons_append, List.append_assoc, List.nil_append, List.length_cons,
      List.length_append] at hbound ⊢
    have hskip : skipGap ((Printer.text name).toList ++ (':' :: ' ' :: ((render (depth + 1) v).toList ++
        ((renderMembers (depth + 1) ms).toList ++ ((newline depth).toList ++ '\x7d' :: rest))))) =
        (Printer.text name).toList ++ (':' :: ' ' :: ((render (depth + 1) v).toList ++
          ((renderMembers (depth + 1) ms).toList ++ ((newline depth).toList ++ '\x7d' :: rest)))) := by
      rw [htext]
      exact skipGap_cons (by decide) _
    rw [value, skipGap_newline, hskip]
    -- an object that does not close at once goes on with the name of its first member
    split
    · rename_i heq
      rw [htext] at heq
      exact absurd (List.cons.inj heq).1 (by decide)
    · exact members_render [] hms hnames (by omega) hskip

mutual

/-- Storable data is read back. -/
theorem reads_of_storable : ∀ {v : Json}, v.storable = true → Reads v
  | .null, _ => reads_null
  | .bool b, _ => reads_bool b
  | .float x, _ => reads_float x
  | .text s, _ => reads_text s
  | .array vs, h => by
    rw [storable] at h
    exact reads_array (reads_of_storableItems h)
  | .object ms, h => by
    rw [storable, Bool.and_eq_true, decide_eq_true_eq] at h
    exact reads_object (reads_of_storableMembers h.2) h.1

theorem reads_of_storableItems : ∀ {vs : List Json}, storableItems vs = true → ∀ v ∈ vs, Reads v
  | [], _ => by simp
  | v :: vs, h => by
    rw [storableItems, Bool.and_eq_true] at h
    exact List.forall_mem_cons.mpr ⟨reads_of_storable h.1, reads_of_storableItems h.2⟩

theorem reads_of_storableMembers : ∀ {ms : List (String × Json)}, storableMembers ms = true →
    ∀ m ∈ ms, Reads m.2
  | [], _ => by simp
  | (name, v) :: ms, h => by
    rw [storableMembers, Bool.and_eq_true] at h
    exact List.forall_mem_cons.mpr ⟨reads_of_storable h.1, reads_of_storableMembers h.2⟩

end

/-- The text of storable data is read as the data. -/
theorem read_render {v : Json} (hv : v.storable = true) : Reader.read (render 0 v) = .ok v := by
  have hreads := reads_of_storable hv
  have hvalue := hreads.value 0 (2 * (render 0 v).toList.length + 2) [] (by omega) (by simp [Ends])
  have hskip := hreads.skipGap 0 []
  rw [List.append_nil] at hvalue hskip
  simp only [Reader.read, hskip, hvalue]
  rfl

theorem not_mem_newline (depth : Nat) : '\r' ∉ (newline depth).toList := by
  rw [newline_toList, List.mem_cons, List.mem_replicate]
  rintro (h | ⟨-, h⟩) <;> exact absurd h (by decide)

theorem not_mem_text (s : String) : '\r' ∉ (Printer.text s).toList := by
  obtain ⟨cs, htext, hcs, -⟩ := text_text s
  rw [htext, List.mem_cons, not_or]
  exact ⟨by decide, hcs⟩

mutual

/-- The text of storable data holds no carriage return. -/
theorem not_mem_render : ∀ {v : Json}, v.storable = true → ∀ depth, '\r' ∉ (render depth v).toList
  | .null, _, depth => by
    rw [render]
    decide
  | .bool b, _, depth => by
    cases b <;>
    · rw [render]
      decide
  | .float x, _, depth => by
    obtain ⟨c, cs, htext, -, hcs, -⟩ := scalar_float x
    rwa [render, htext]
  | .text s, _, depth => by
    rw [render]
    exact not_mem_text s
  | .array [], _, depth => by
    rw [render]
    decide
  | .array (v :: vs), h, depth => by
    simp only [storable, storableItems, Bool.and_eq_true] at h
    simp [render_array, not_mem_newline, not_mem_render h.1, not_mem_renderItems h.2]
  | .object [], _, depth => by
    rw [render]
    decide
  | .object ((name, v) :: ms), h, depth => by
    simp only [storable, storableMembers, Bool.and_eq_true] at h
    simp [render_object, not_mem_newline, not_mem_text, not_mem_render h.2.1,
      not_mem_renderMembers h.2.2]

theorem not_mem_renderItems : ∀ {vs : List Json}, storableItems vs = true →
    ∀ depth, '\r' ∉ (renderItems depth vs).toList
  | [], _, depth => by
    rw [renderItems]
    decide
  | v :: vs, h, depth => by
    simp only [storableItems, Bool.and_eq_true] at h
    simp [renderItems_cons, not_mem_newline, not_mem_render h.1, not_mem_renderItems h.2]

theorem not_mem_renderMembers : ∀ {ms : List (String × Json)}, storableMembers ms = true →
    ∀ depth, '\r' ∉ (renderMembers depth ms).toList
  | [], _, depth => by
    rw [renderMembers]
    decide
  | (name, v) :: ms, h, depth => by
    simp only [storableMembers, Bool.and_eq_true] at h
    simp [renderMembers_cons, not_mem_newline, not_mem_text, not_mem_render h.1,
      not_mem_renderMembers h.2]

end

end Json

end Scripting
