import Mathlib.Data.List.Forall2
import Mathlib.Data.List.Perm.Subperm
import Scripting.Named

/-!
Lists of named things as maps. Two such lists agree if they have equally many entries and each entry of
the one has a counterpart of the same name in the other. Where no name comes up twice, it does not
matter from which of the two one looks, nor in which order the entries stand.
-/

namespace Scripting.Named

variable {κ α β γ : Type} [BEq κ] [LawfulBEq κ]

theorem mem_of_lookup_eq {n : κ} {a : α} {xs : List (κ × α)} (h : xs.lookup n = some a) :
    (n, a) ∈ xs := by
  obtain ⟨front, back, rfl, -⟩ := List.lookup_eq_some_iff.mp h
  simp

/-- Where no name comes up twice, every entry is found under its name. -/
theorem lookup_of_mem {p : κ × α} {xs : List (κ × α)} (hxs : (names xs).Nodup) (hp : p ∈ xs) :
    xs.lookup p.1 = some p.2 := by
  induction xs with
  | nil => cases hp
  | cons x rest ih =>
    obtain ⟨hnot, hrest⟩ := List.nodup_cons.mp hxs
    rcases List.mem_cons.mp hp with rfl | hp
    · exact List.lookup_cons_self
    · have hne : (p.1 == x.1) = false :=
        beq_eq_false_iff_ne.mpr fun heq => hnot (heq ▸ List.mem_map_of_mem hp)
      rw [List.lookup_cons, hne]
      exact ih hrest hp

/-- The lists have equally many entries, and each of the first has a counterpart in the second. -/
structure Agree (R : α → β → Prop) (xs : List (κ × α)) (ys : List (κ × β)) : Prop where
  length : xs.length = ys.length
  entries : ∀ p ∈ xs, ∃ b, ys.lookup p.1 = some b ∧ R p.2 b

namespace Agree

variable {R : α → β → Prop} {S : β → γ → Prop} {xs : List (κ × α)} {ys : List (κ × β)}
  {zs : List (κ × γ)}

theorem refl {R : α → α → Prop} (hxs : (names xs).Nodup) (h : ∀ p ∈ xs, R p.2 p.2) :
    Agree R xs xs :=
  ⟨rfl, fun p hp => ⟨p.2, lookup_of_mem hxs hp, h p hp⟩⟩

theorem trans {T : α → γ → Prop} (h : Agree R xs ys) (h' : Agree S ys zs)
    (hT : ∀ p ∈ xs, ∀ b c, R p.2 b → S b c → T p.2 c) : Agree T xs zs := by
  refine ⟨h.length.trans h'.length, fun p hp => ?_⟩
  obtain ⟨b, hb, hR⟩ := h.entries p hp
  obtain ⟨c, hc, hS⟩ := h'.entries (p.1, b) (mem_of_lookup_eq hb)
  exact ⟨c, hc, hT p hp b c hR hS⟩

/-- Equally many names, each of which is among the others, are the same names. -/
theorem names_perm (h : Agree R xs ys) (hxs : (names xs).Nodup) : (names xs).Perm (names ys) := by
  have hsubset : names xs ⊆ names ys := by
    intro n hn
    obtain ⟨p, hp, rfl⟩ := List.mem_map.mp hn
    obtain ⟨b, hb, -⟩ := h.entries p hp
    exact List.mem_map.mpr ⟨(p.1, b), mem_of_lookup_eq hb, rfl⟩
  have hlength : (names ys).length ≤ (names xs).length := by
    simp [names, h.length]
  exact (List.subperm_of_subset hxs hsubset).perm_of_length_le hlength

theorem symm {T : β → α → Prop} (h : Agree R xs ys) (hxs : (names xs).Nodup)
    (hys : (names ys).Nodup) (hT : ∀ p ∈ xs, ∀ q ∈ ys, R p.2 q.2 → T q.2 p.2) :
    Agree T ys xs := by
  refine ⟨h.length.symm, fun q hq => ?_⟩
  have hname : q.1 ∈ names xs := (h.names_perm hxs).mem_iff.mpr (List.mem_map_of_mem hq)
  obtain ⟨p, hp, hpq⟩ := List.mem_map.mp hname
  obtain ⟨b, hb, hR⟩ := h.entries p hp
  rw [hpq, lookup_of_mem hys hq] at hb
  obtain rfl := Option.some.inj hb
  exact ⟨p.2, hpq ▸ lookup_of_mem hxs hp, hT p hp q hq hR⟩

omit [LawfulBEq κ] in
/-- The order of the entries does not matter to the first list. -/
theorem perm_left {xs' : List (κ × α)} (h : Agree R xs ys) (hxs : xs.Perm xs') : Agree R xs' ys :=
  ⟨hxs.length_eq.symm.trans h.length, fun p hp => h.entries p (hxs.mem_iff.mpr hp)⟩

omit [LawfulBEq κ] in
/-- An entry of the first list may have another value if it has the same counterparts. -/
theorem replace {front back : List (κ × α)} {n : κ} {a a' : α}
    (h : Agree R (front ++ (n, a) :: back) ys) (ha : ∀ b, R a b → R a' b) :
    Agree R (front ++ (n, a') :: back) ys := by
  refine ⟨by simpa using h.length, fun p hp => ?_⟩
  rcases List.mem_append.mp hp with hp | hp
  · exact h.entries p (List.mem_append_left _ hp)
  · rcases List.mem_cons.mp hp with rfl | hp
    · obtain ⟨b, hb, hR⟩ := h.entries (n, a) (by simp)
      exact ⟨b, hb, ha b hR⟩
    · exact h.entries p (by simp [hp])

/-- Lists with the same names in the same order agree entry by entry. -/
theorem forall₂ (h : Agree R xs ys) (hxs : (names xs).Nodup) (hnames : names xs = names ys) :
    List.Forall₂ (fun p q => p.1 = q.1 ∧ R p.2 q.2) xs ys := by
  induction xs generalizing ys with
  | nil =>
    cases ys with
    | nil => exact .nil
    | cons q ys => cases hnames
  | cons p xs ih =>
    cases ys with
    | nil => cases hnames
    | cons q ys =>
      obtain ⟨hname, hrest⟩ := List.cons.inj hnames
      obtain ⟨hnot, hxs'⟩ := List.nodup_cons.mp hxs
      refine .cons ⟨hname, ?_⟩ (ih ⟨Nat.succ.inj h.length, fun r hr => ?_⟩ hxs' hrest)
      · obtain ⟨b, hb, hR⟩ := h.entries p List.mem_cons_self
        rw [hname, List.lookup_cons_self] at hb
        exact Option.some.inj hb ▸ hR
      · obtain ⟨b, hb, hR⟩ := h.entries r (List.mem_cons_of_mem p hr)
        have hne : (r.1 == q.1) = false :=
          beq_eq_false_iff_ne.mpr fun heq => hnot (hname ▸ heq ▸ List.mem_map_of_mem hr)
        rw [List.lookup_cons, hne] at hb
        exact ⟨b, hb, hR⟩

end Agree

end Scripting.Named
