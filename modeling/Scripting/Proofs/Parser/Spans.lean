import Scripting.Proofs.Parser.Headers

/-!
The functions of a text, told from its tokens. Behind `fn`, a header and a note, a brace opens the
body of a function; the brace that closes it is found by counting. `Passes` says what a row of
tokens adds to the functions and to the count: a parser takes rows with as many opening as closing
braces, and of the functions in such a row every one is closed.
-/

namespace Scripting

/-- Whether a token neither is a brace nor starts a function. -/
def Token.Kind.isPlain : Token.Kind → Bool
  | mark .lbrace | mark .rbrace | keyword .fn => false
  | _ => true

/-- A function with braces around its body, and where these stand. -/
structure Span where
  name : String
  first : Position
  last : Position
  deriving DecidableEq, Repr

namespace Span

def lines (f : Span) : Nat := f.last.line - f.first.line

/-- The place of the brace that closes the last but `depth` of the open braces. -/
def closing? : (depth : Nat) → List Token → Option Position
  | _, [] => none
  | depth, ⟨k, p⟩ :: ts =>
    match k with
    | .mark .lbrace => closing? (depth + 1) ts
    | .mark .rbrace =>
      match depth with
      | 0 => some p
      | depth + 1 => closing? depth ts
    | _ => closing? depth ts

def ofBody? (name : String) : List Token → Option Span
  | ⟨.mark .lbrace, first⟩ :: ts => (closing? 0 ts).map fun last => ⟨name, first, last⟩
  | _ => none

/-- The function whose keyword stands in front of these tokens, unless it has no braces. -/
def ofHeader? (ts : List Token) : Option Span :=
  (Header.split? ts).bind fun (name, rest) =>
    ofBody? (name.getD "<lambda>") (Header.pastNote rest)

/-- The functions among tokens, in the order of their keywords. -/
def all : List Token → List Span
  | [] => []
  | t :: ts => (if t.kind.isKeyword .fn then (ofHeader? ts).toList else []) ++ all ts

theorem closing?_cons {t : Token} (h : t.kind.isPlain = true) (depth : Nat) (ts : List Token) :
    closing? depth (t :: ts) = closing? depth ts := by
  obtain ⟨k, p⟩ := t
  cases k with
  | mark m =>
    cases m with
    | lbrace => cases h
    | rbrace => cases h
    | _ => rfl
  | _ => rfl

theorem closing?_append {ts : List Token} (h : ∀ t ∈ ts, t.kind.isPlain = true) (depth : Nat)
    (rest : List Token) : closing? depth (ts ++ rest) = closing? depth rest := by
  induction ts with
  | nil => rfl
  | cons t ts ih =>
    rw [List.cons_append, closing?_cons (h t List.mem_cons_self),
      ih fun u hu => h u (List.mem_cons_of_mem t hu)]

theorem all_cons {t : Token} (h : t.kind ≠ .keyword .fn) (ts : List Token) :
    all (t :: ts) = all ts := by
  have hfn : t.kind.isKeyword .fn = false :=
    Bool.eq_false_iff.mpr fun hk => h (Token.Kind.isKeyword_iff.mp hk)
  rw [all, hfn]
  rfl

theorem all_append {ts : List Token} (h : ∀ t ∈ ts, t.kind.isPlain = true) (rest : List Token) :
    all (ts ++ rest) = all rest := by
  induction ts with
  | nil => rfl
  | cons t ts ih =>
    have hne : t.kind ≠ .keyword .fn := fun hk => by
      have hplain := h t List.mem_cons_self
      rw [hk] at hplain
      cases hplain
    rw [List.cons_append, all_cons hne, ih fun u hu => h u (List.mem_cons_of_mem t hu)]

theorem mem_of_closing? {depth : Nat} {ts : List Token} {p : Position}
    (h : closing? depth ts = some p) : p ∈ ts.map Token.position := by
  induction ts generalizing depth with
  | nil => cases h
  | cons t ts ih =>
    obtain ⟨k, q⟩ := t
    rw [List.map_cons]
    by_cases hplain : k.isPlain = true
    · rw [closing?_cons hplain] at h
      exact List.mem_cons_of_mem _ (ih h)
    have hlater : ∀ {depth}, closing? depth ts = some p → p ∈ q :: ts.map Token.position :=
      fun h => List.mem_cons_of_mem q (ih h)
    cases k with
    | mark m =>
      cases m with
      | lbrace => exact hlater h
      | rbrace =>
        cases depth with
        | zero =>
          cases h
          exact List.mem_cons_self
        | succ depth => exact hlater h
      | _ => exact absurd rfl hplain
    | keyword w => exact hlater h
    | _ => exact absurd rfl hplain

theorem sublist_of_ofBody? {name : String} {ts : List Token} {f : Span}
    (h : ofBody? name ts = some f) : [f.first, f.last].Sublist (ts.map Token.position) := by
  unfold ofBody? at h
  split at h
  · rename_i first ts
    obtain ⟨last, hlast, rfl⟩ := Option.map_eq_some_iff.mp h
    exact (List.singleton_sublist.mpr (mem_of_closing? hlast)).cons_cons first
  · cases h

theorem sublist_of_ofHeader? {ts : List Token} {f : Span} (h : ofHeader? ts = some f) :
    [f.first, f.last].Sublist (ts.map Token.position) := by
  obtain ⟨⟨name, rest⟩, hsplit, hbody⟩ := Option.bind_eq_some_iff.mp h
  have hsuffix := (Header.pastNote_suffix rest).trans (Header.suffix_of_split? hsplit)
  exact (sublist_of_ofBody? hbody).trans (hsuffix.sublist.map _)

/-- The opening brace of a function stands in front of the closing one. -/
theorem sublist_of_mem_all {ts : List Token} {f : Span} (h : f ∈ all ts) :
    [f.first, f.last].Sublist (ts.map Token.position) := by
  induction ts with
  | nil => cases h
  | cons t ts ih =>
    rw [List.map_cons]
    refine List.Sublist.cons _ ?_
    rw [all, List.mem_append] at h
    rcases h with h | h
    · split at h
      · exact sublist_of_ofHeader? (Option.mem_toList.mp h)
      · cases h
    · exact ih h

/-- Among tokens in their order, no closing brace stands above the opening one. -/
theorem lines_eq {ts : List Token} (hts : (ts.map Token.position).Pairwise (· < ·)) {f : Span}
    (h : f ∈ all ts) : (f.lines : Int) = (f.last.line : Int) - (f.first.line : Int) := by
  have hpair := hts.sublist (sublist_of_mem_all h)
  have hlt : f.first < f.last := by simpa using hpair
  rw [Position.lt_iff] at hlt
  rw [lines]
  omega

end Span

/-- What stands in a row of tokens between `S` and `R`: the functions `fs` are closed there, in
this order, the braces that are open change from `i` to `j`, and the functions `spans`, which are
those of `S` or have been opened just before, are those that are closed and those of `R`. -/
structure Passes (spans : List Span) (i j : Nat) (fs : List Span) (S R : List Token) : Prop where
  taken : ∃ ts, S = ts ++ R ∧ (fs.map Span.last).Sublist (ts.map Token.position)
  closing : ∀ d, Span.closing? (d + i) S = Span.closing? (d + j) R
  spans : ∀ f, f ∈ spans ↔ f ∈ fs ∨ f ∈ Span.all R

namespace Passes

open Scripting.Span

variable {o fs gs : List Span} {i j k : Nat} {S T R : List Token}

theorem trans (h : Passes o i k fs S T) (h' : Passes (all T) k j gs T R) :
    Passes o i j (fs ++ gs) S R where
  taken := by
    obtain ⟨ts, rfl, hts⟩ := h.taken
    obtain ⟨us, rfl, hus⟩ := h'.taken
    exact ⟨ts ++ us, by simp, by simpa using hts.append hus⟩
  closing d := (h.closing d).trans (h'.closing d)
  spans f := by rw [h.spans, h'.spans, List.mem_append, or_assoc]

theorem plain {ts : List Token} (h : ∀ t ∈ ts, t.kind.isPlain = true) (R : List Token) :
    Passes (all (ts ++ R)) i i [] (ts ++ R) R where
  taken := ⟨ts, rfl, List.nil_sublist _⟩
  closing d := closing?_append h _ R
  spans f := by simp [all_append h]

theorem opening (p : Position) (R : List Token) :
    Passes (all (⟨.mark .lbrace, p⟩ :: R)) i (i + 1) [] (⟨.mark .lbrace, p⟩ :: R) R where
  taken := ⟨[⟨.mark .lbrace, p⟩], rfl, List.nil_sublist _⟩
  closing d := rfl
  spans f := by simp [all_cons]

theorem close (p : Position) (R : List Token) :
    Passes (all (⟨.mark .rbrace, p⟩ :: R)) (i + 1) i [] (⟨.mark .rbrace, p⟩ :: R) R where
  taken := ⟨[⟨.mark .rbrace, p⟩], rfl, List.nil_sublist _⟩
  closing d := rfl
  spans f := by simp [all_cons]

/-- A body closes its function. -/
theorem body {name : String} {first last : Position}
    (h : Passes (all T) 0 0 fs T (⟨.mark .rbrace, last⟩ :: R)) :
    Passes
      ((ofBody? name (⟨.mark .lbrace, first⟩ :: T)).toList ++ all (⟨.mark .lbrace, first⟩ :: T))
      i i (fs ++ [⟨name, first, last⟩]) (⟨.mark .lbrace, first⟩ :: T) R where
  taken := by
    obtain ⟨ts, rfl, hts⟩ := h.taken
    refine ⟨⟨.mark .lbrace, first⟩ :: ts ++ [⟨.mark .rbrace, last⟩], by simp, ?_⟩
    have hlast : [last].Sublist (List.map Token.position [⟨.mark .rbrace, last⟩]) := .refl _
    simpa using (hts.append hlast).cons first
  closing d := h.closing (d + i + 1)
  spans f := by
    have hlast : closing? 0 T = some last := h.closing 0
    have hrest : all (⟨.mark .rbrace, last⟩ :: R) = all R := all_cons (by simp) R
    simp only [ofBody?, hlast, Option.map_some, Option.toList_some, List.mem_append,
      List.mem_singleton, all_cons (t := ⟨.mark .lbrace, first⟩) (by simp), h.spans, hrest]
    tauto

/-- Behind its header, a function is closed like the body that follows. -/
theorem header {name : String} {ts : List Token} {p : Position}
    (hplain : ∀ t ∈ ts, t.kind.isPlain = true) (hspan : ofHeader? (ts ++ T) = ofBody? name T)
    (h : Passes ((ofBody? name T).toList ++ all T) i i fs T R) :
    Passes (all (⟨.keyword .fn, p⟩ :: (ts ++ T))) i i fs (⟨.keyword .fn, p⟩ :: (ts ++ T)) R where
  taken := by
    obtain ⟨us, rfl, hus⟩ := h.taken
    refine ⟨⟨.keyword .fn, p⟩ :: ts ++ us, by simp, ?_⟩
    rw [List.map_append]
    exact hus.trans (List.sublist_append_right _ _)
  closing d := (closing?_append hplain (d + i) T).trans (h.closing d)
  spans f := by
    have hall : all (⟨.keyword .fn, p⟩ :: (ts ++ T)) = (ofBody? name T).toList ++ all T := by
      rw [← hspan, ← all_append hplain T]
      rfl
    rw [hall, h.spans]

end Passes

end Scripting
