import Scripting.Proofs.Parser.Brackets

/-!
Expressions on a longer stream. An expression can end in a function literal without braces, whose
body takes semicolons; the levels above then go on with what follows these.
-/

namespace Scripting

theorem Expr.Grown.trans {e₁ e₂ e₃ : Expr} (h₁ : e₁.Grown e₂) (h₂ : e₂ = e₃ ∨ e₂.Grown e₃) :
    e₁.Grown e₃ := by
  rcases h₂ with rfl | h₂
  · exact h₁
  · exact ⟨Nat.lt_trans h₁.1 h₂.1, h₂.2⟩

theorem Expr.grown_call (e : Expr) (args : List Expr) : e.Grown (.call e args) := by
  refine ⟨?_, fun es => Expr.noConfusion⟩
  simp only [Expr.call.sizeOf_spec]
  omega

theorem Expr.grown_index (e i : Expr) : e.Grown (.index e i) := by
  refine ⟨?_, fun es => Expr.noConfusion⟩
  simp only [Expr.index.sizeOf_spec]
  omega

theorem Expr.grown_field (e : Expr) (n : Name) : e.Grown (.field e n) := by
  refine ⟨?_, fun es => Expr.noConfusion⟩
  simp only [Expr.field.sizeOf_spec]
  omega

theorem Expr.grown_binary_left (e : Expr) (op : BinaryOp) (e' : Expr) :
    e.Grown (.binary e op e') := by
  refine ⟨?_, fun es => Expr.noConfusion⟩
  simp only [Expr.binary.sizeOf_spec]
  omega

theorem Expr.Grown.binary {e e' : Expr} (h : e.Grown e') (d : Expr) (op : BinaryOp) :
    (Expr.binary d op e).Grown (.binary d op e') := by
  refine ⟨?_, fun es => Expr.noConfusion⟩
  simp only [Expr.binary.sizeOf_spec]
  exact Nat.add_lt_add_left h.1 _

namespace Parser

variable {ι α : Type} {T : ι → Stream}

/-- Trailers keep the expression in front of them or make it grow. -/
theorem trailers_grown {r : Sorts} {b : Nat} {e : Expr} {S : Stream} {x : Expr × Stream}
    (h : trailers r b e S = .ok x) : e = x.1 ∨ e.Grown x.1 := by
  induction b generalizing e S with
  | zero => exact absurd h exhausted_ne_ok
  | succ b ih =>
    cases S with
    | invalid e => cases h
    | finish q =>
      cases h
      exact .inl rfl
    | token t S =>
      obtain ⟨k, q⟩ := t
      rcases k.isTrailer_cases with rfl | rfl | rfl | hk
      · rw [trailers_call] at h
        obtain ⟨args, S₁, -, h⟩ := bind_eq_ok h
        obtain ⟨_, S₂, -, h⟩ := bind_eq_ok h
        exact .inr ((Expr.grown_call e args).trans (ih h))
      · rw [trailers_field] at h
        obtain ⟨m, S₁, -, h⟩ := bind_eq_ok h
        exact .inr ((Expr.grown_field e (.text m)).trans (ih h))
      · rw [trailers_index] at h
        obtain ⟨i, S₁, -, h⟩ := bind_eq_ok h
        obtain ⟨_, S₂, -, h⟩ := bind_eq_ok h
        exact .inr ((Expr.grown_index e i).trans (ih h))
      · cases (trailers_stop r b e q S hk).symm.trans h
        exact .inl rfl

section Ladder

variable (hT : ∀ i, (T i).Seam) {n : Nat} {r : Sorts} {r' : ι → Sorts} (hr : Extends T n r r')
include hT hr

/-- A function literal without braces ends as its body does. -/
theorem Trailing.lambda :
    Trailing T (fun _ => false) Expr.Grown n (lambda r) fun i => lambda (r' i) := by
  refine (Closed.expectKeyword hT _).bind_trailing fun _ => ?_
  refine (Closed.params hT hr.bound).bind_trailing fun ps => ?_
  refine (Closed.typeNote hT).bind_trailing fun _ => ?_
  refine (Closed.atMark hT (by decide)).bind_trailing fun brace => ?_
  cases brace with
  | true => exact (Closed.bind hT (Closed.functionBody hT hr _) fun body => Closed.pure _).trailing
  | false =>
    refine hr.statement.map fun {s s'} h => ⟨?_, fun es => Expr.noConfusion⟩
    have : sizeOf s < sizeOf s' := h
    simp only [Expr.lambda.sizeOf_spec, List.cons.sizeOf_spec]
    omega

/-- A primary can grow at its end only where it is a function literal without braces. -/
theorem Trailing.primary (records : Bool) :
    Trailing T (fun _ => false) Expr.Grown n (primary r records)
      fun i => primary (r' i) records := by
  refine ⟨fun h => (by cases h), ?_⟩
  intro S S' a R hS h
  cases S with
  | invalid e => cases h
  | finish q => cases h
  | token t S =>
    obtain ⟨q', R', rfl, hR'⟩ := continues_token hS
    obtain ⟨k, q⟩ := t
    simp only [Parser.primary, lookKind_bind_token] at h ⊢
    cases k with
    | number x =>
      cases h
      exact .inl fun i => ⟨R' i, hR' i, rfl⟩
    | text v =>
      cases h
      exact .inl fun i => ⟨R' i, hR' i, rfl⟩
    | name v =>
      simp only [advance_bind_token] at h ⊢
      suffices hclosed : Closed T
          (if records && isTypeName v then do
            if ← Parser.atMark .lbrace then record r v else return .name (.text v)
          else return .name (.text v))
          fun i => if records && isTypeName v then do
            if ← Parser.atMark .lbrace then record (r' i) v else return .name (.text v)
          else return .name (.text v) from .inl (hclosed.agrees hR' h)
      split
      · refine Closed.bind hT (Closed.atMark hT (by decide)) fun brace => ?_
        cases brace with
        | true => exact Closed.record hT hr v
        | false => exact Closed.pure _
      · exact Closed.pure _
    | keyword w =>
      cases w with
      | true_ =>
        cases h
        exact .inl fun i => ⟨R' i, hR' i, rfl⟩
      | false_ =>
        cases h
        exact .inl fun i => ⟨R' i, hR' i, rfl⟩
      | fn => exact (Trailing.lambda hT hr).agrees hS h
      | _ => cases h
    | mark m =>
      cases m with
      | lparen => exact (Closed.group hT hr).trailing.agrees hS h
      | lbracket => exact (Closed.list hT hr).trailing.agrees hS h
      | lbrace => exact (Closed.brace hT hr).trailing.agrees hS h
      | _ => cases h

omit hT hr in
theorem Tail.trailers {b : Nat} {b' : ι → Nat} :
    Tail Token.Kind.trails Expr.Grown Expr.Grown (fun e => e) (trailers r (b + 1))
      fun i => trailers (r' i) (b' i + 1) where
  idle _ _ := rfl
  stop := by
    rintro i e S (⟨q, rfl⟩ | ⟨k, q, S, rfl, hk⟩)
    · rfl
    · rcases k.isTrailer_cases with rfl | rfl | rfl | hstop
      · simp [Token.Kind.trails] at hk
      · simp [Token.Kind.opens] at hk
      · simp [Token.Kind.trails] at hk
      · exact trailers_stop _ _ e q S hstop
  take := by
    intro i e k q S x hk h
    rcases k.isTrailer_cases with rfl | rfl | rfl | hstop
    · rw [trailers_call] at h
      obtain ⟨args, S₁, -, h⟩ := bind_eq_ok h
      obtain ⟨_, S₂, -, h⟩ := bind_eq_ok h
      exact (Expr.grown_call e args).trans (trailers_grown h)
    · cases hk
    · rw [trailers_index] at h
      obtain ⟨j, S₁, -, h⟩ := bind_eq_ok h
      obtain ⟨_, S₂, -, h⟩ := bind_eq_ok h
      exact (Expr.grown_index e j).trans (trailers_grown h)
    · cases hk.symm.trans (k.trails_eq_false hstop)
  grow _ _ _ _ _ hg h := hg.trans (trailers_grown h)

/-- Behind the old end, trailers go on with a call, a field or an index. -/
theorem Trailing.trailers {b : Nat} {b' : ι → Nat} (hb : ∀ i, b ≤ b' i) (e : Expr) :
    Trailing T Token.Kind.trails Expr.Grown n (trailers r b e)
      fun i => trailers (r' i) (b' i) e := by
  induction b generalizing b' e with
  | zero => exact Closed.exhausted.trailing
  | succ b ih =>
    obtain ⟨d, rfl, hd⟩ := exists_succ_bound hb
    refine ⟨fun h => by cases h; rfl, ?_⟩
    intro S S' a R hS h
    cases S with
    | invalid e => cases h
    | finish q =>
      cases h
      cases continues_finish hS
      exact .inl fun i => ⟨T i, hS i, (Tail.trailers (r := r) (b := b)).stop i e _ ((hT i).stops_self _)⟩
    | token t S =>
      obtain ⟨q', R', rfl, hR'⟩ := continues_token hS
      obtain ⟨k, q⟩ := t
      rcases k.isTrailer_cases with rfl | rfl | rfl | hstop
      · simp only [trailers_call] at h ⊢
        exact ((Inside.expressions hT hr (by decide) hr.bound).upTo fun args =>
          ih hd _).agrees hR' h
      · simp only [trailers_field] at h ⊢
        exact ((Closed.expectName hT _).bind_trailing fun m => ih hd _).agrees hR' h
      · simp only [trailers_index] at h ⊢
        exact ((hr.expression true).inside.upTo fun j => ih hd _).agrees hR' h
      · simp only [trailers_stop _ _ _ _ _ hstop] at h ⊢
        cases h
        exact .inl fun i => ⟨_, hS i, rfl⟩

theorem Trailing.trailed (records : Bool) :
    Trailing T Token.Kind.trails Expr.Grown n (trailed r records)
      fun i => trailed (r' i) records :=
  Trailing.bind_loop hT (Parser.trailers r) (fun i => Parser.trailers (r' i))
    (fun _ => (Bool.false_or _).symm) (fun _ => Token.Kind.extends_of_trails)
    (Trailing.primary hT hr records) (fun _ _ _ => exhausted_ne_ok) (fun _ _ => Tail.trailers)
    hr.bound (Trailing.trailers hT hr hr.bound)

theorem Trailing.signed (records : Bool) {b : Nat} {b' : ι → Nat} (hb : ∀ i, b ≤ b' i) :
    Trailing T Token.Kind.trails Expr.Grown n (signed r records b)
      fun i => signed (r' i) records (b' i) := by
  induction b generalizing b' with
  | zero => exact Closed.exhausted.trailing
  | succ b ih =>
    obtain ⟨d, rfl, hd⟩ := exists_succ_bound hb
    have hunary : ∀ (op : UnaryOp) {e e' : Expr}, e.Grown e' →
        (Expr.unary op e).Grown (.unary op e') := by
      intro op e e' h
      refine ⟨?_, fun es => Expr.noConfusion⟩
      simp only [Expr.unary.sizeOf_spec]
      exact Nat.add_lt_add_left h.1 _
    simp only [Parser.signed]
    refine (Closed.accept hT (by decide)).bind_trailing fun minus => ?_
    cases minus with
    | true => exact (ih hd).map (hunary .neg)
    | false =>
      refine (Closed.accept hT (by decide)).bind_trailing fun bang => ?_
      cases bang with
      | true => exact (ih hd).map (hunary .not)
      | false => exact Trailing.trailed hT hr records

end Ladder

section Levels

variable {f : Mark → Option BinaryOp} {operand : Parser Expr} {operand' : ι → Parser Expr}
  {c c₀ c' : Token.Kind → Bool} {n : Nat}

/-- A chain returns its first operand or one that has grown. -/
theorem chain_grown {b : Nat} {e : Expr} {S : Stream} {x : Expr × Stream}
    (h : chain f operand b e S = .ok x) : e = x.1 ∨ e.Grown x.1 := by
  induction b generalizing e S with
  | zero => exact absurd h exhausted_ne_ok
  | succ b ih =>
    cases S with
    | invalid e => cases h
    | finish q =>
      cases h
      exact .inl rfl
    | token t S =>
      obtain ⟨k, q⟩ := t
      cases hk : k.op? f with
      | none =>
        cases (chain_none b e q S f operand hk).symm.trans h
        exact .inl rfl
      | some op =>
        rw [chain_some b e q S f operand hk] at h
        obtain ⟨e', S₁, -, h⟩ := bind_eq_ok h
        exact .inr ((Expr.grown_binary_left e op e').trans (ih h))

/-- A level goes on with those tokens in `c` that are its operators. -/
structure Continuing (f : Mark → Option BinaryOp) (c : Token.Kind → Bool) : Prop where
  op : ∀ k, c k = true → (k.op? f).isSome = true
  stop : ∀ k, k.opens = true → c k = false → k.op? f = none
  semicolon : f .semicolon = none

theorem Tail.chain (hc : Continuing f c) {g : Expr → Expr}
    (hg : ∀ {e e' : Expr}, e.Grown e' → (g e).Grown (g e')) {b : Nat} {b' : ι → Nat} :
    Tail c Expr.Grown Expr.Grown g (fun e => chain f operand (b + 1) (g e))
      fun i e => chain f (operand' i) (b' i + 1) (g e) where
  idle _ _ := rfl
  stop := by
    rintro i e S (⟨q, rfl⟩ | ⟨k, q, S, rfl, hk⟩)
    · rfl
    · apply chain_none
      rcases hk with rfl | ⟨ho, hk⟩
      · exact hc.semicolon
      · exact hc.stop k ho hk
  take := by
    intro i e k q S x hk h
    obtain ⟨op, hop⟩ := Option.isSome_iff_exists.mp (hc.op k hk)
    rw [chain_some _ _ q S f _ hop] at h
    obtain ⟨e', S₁, -, h⟩ := bind_eq_ok h
    exact (Expr.grown_binary_left (g e) op e').trans (chain_grown h)
  grow _ _ _ _ _ hgrown h := (hg hgrown).trans (chain_grown h)

/-- The levels whose operators start no statement. -/
theorem continuing_none {f : Mark → Option BinaryOp}
    (hf : ∀ m ∈ Mark.all, (Token.Kind.mark m).opens = true → f m = none) (hs : f .semicolon = none) :
    Continuing f fun _ => false where
  op k h := by cases h
  stop k ho _ := by
    cases k with
    | mark m => exact hf m m.mem_all ho
    | _ => rfl
  semicolon := hs

variable (hT : ∀ i, (T i).Seam) (hc : Continuing f c) (hext : ∀ k, c k = true → k.extends_ = true)
  (hc' : ∀ k, c' k = (c₀ k || c k)) (hop : Trailing T c₀ Expr.Grown n operand operand')
include hT hc hext hc' hop

/-- Behind the old end, a chain goes on with its own operators. -/
theorem Trailing.chain {b : Nat} {b' : ι → Nat} (hb : ∀ i, b ≤ b' i) (e : Expr) :
    Trailing T c' Expr.Grown n (chain f operand b e) fun i => chain f (operand' i) (b' i) e := by
  induction b generalizing b' e with
  | zero => exact Closed.exhausted.trailing
  | succ b ih =>
    obtain ⟨d, rfl, hd⟩ := exists_succ_bound hb
    refine ⟨fun h => by cases h; rfl, ?_⟩
    intro S S' a R hS h
    cases S with
    | invalid e => cases h
    | finish q =>
      cases h
      cases continues_finish hS
      have htail : Tail c Expr.Grown Expr.Grown (fun e => e)
          (fun e => Parser.chain f operand (b + 1) e)
          fun i e => Parser.chain f (operand' i) (d i + 1) e := Tail.chain hc fun h => h
      exact .inl fun i => ⟨T i, hS i, htail.stop i e _ ((hT i).stops_self c)⟩
    | token t S =>
      obtain ⟨q', R', rfl, hR'⟩ := continues_token hS
      obtain ⟨k, q⟩ := t
      cases hk : k.op? f with
      | none =>
        simp only [chain_none _ _ _ _ _ _ hk] at h ⊢
        cases h
        exact .inl fun i => ⟨_, hS i, rfl⟩
      | some op =>
        simp only [chain_some _ _ _ _ _ _ hk] at h ⊢
        refine (Trailing.bind_loop hT (fun b e' => Parser.chain f operand b (.binary e op e'))
          (fun i b e' => Parser.chain f (operand' i) b (.binary e op e')) hc' hext hop (fun _ _ _ => exhausted_ne_ok)
          (fun _ _ => Tail.chain hc fun hg => hg.binary e op) hd fun e' => ih hd _).agrees hR' h

theorem Trailing.level {r : Sorts} {r' : ι → Sorts} (hb : ∀ i, r.bound ≤ (r' i).bound) :
    Trailing T c' Expr.Grown n (level r f operand) fun i => level (r' i) f (operand' i) :=
  Trailing.bind_loop hT (fun b e => Parser.chain f operand b e)
    (fun i b e => Parser.chain f (operand' i) b e) hc' hext hop
    (fun _ _ _ => exhausted_ne_ok) (fun _ _ => Tail.chain hc fun hg => hg) hb
    fun e => Trailing.chain hT hc hext hc' hop hb e

end Levels

section Expressions

variable (hT : ∀ i, (T i).Seam) {n : Nat} {r : Sorts} {r' : ι → Sorts} (hr : Extends T n r r')
  (records : Bool)
include hT hr

theorem Trailing.power {b : Nat} {b' : ι → Nat} (hb : ∀ i, b ≤ b' i) :
    Trailing T Token.Kind.trails Expr.Grown n (power r records b)
      fun i => power (r' i) records (b' i) := by
  induction b generalizing b' with
  | zero => exact Closed.exhausted.trailing
  | succ b ih =>
    obtain ⟨d, rfl, hd⟩ := exists_succ_bound hb
    simp only [Parser.power]
    refine (Trailing.signed hT hr records hr.bound).bind_tail hT
      (c := fun _ => false) (g := fun e => e)
      (fun _ => (Bool.or_false _).symm) (fun _ h => by cases h) ?_ fun e => ?_
    · refine ⟨fun e q => rfl, ?_, fun _ _ _ _ _ _ h => Bool.noConfusion h, ?_⟩
      · rintro i e S (⟨q, rfl⟩ | ⟨k, q, S, rfl, hk⟩)
        · rfl
        · have hcaret : k.isMark .caret = false := by
            refine Bool.eq_false_iff.mpr fun hm => ?_
            cases Token.Kind.isMark_iff.mp hm
            simp [Token.Kind.opens] at hk
          rw [bind_of_ok (accept_token k q S .caret), hcaret]
          rfl
      · intro i e e' S x hgrown h
        obtain ⟨caret, S₁, -, h⟩ := bind_eq_ok h
        cases caret with
        | true =>
          obtain ⟨e₂, S₂, -, h⟩ := bind_eq_ok h
          cases h
          exact hgrown.trans (.inr (Expr.grown_binary_left e' .pow e₂))
        | false =>
          cases h
          exact hgrown
    · refine (Closed.accept hT (by decide)).bind_trailing fun caret => ?_
      cases caret with
      | true => exact (ih hd).map fun hg => hg.binary e .pow
      | false => exact (Closed.pure e).trailing

theorem Trailing.product :
    Trailing T Token.Kind.trails Expr.Grown n (product r records)
      fun i => product (r' i) records :=
  Trailing.level hT (continuing_none (by decide) rfl) (fun _ h => Bool.noConfusion h)
    (fun _ => (Bool.or_false _).symm) (Trailing.power hT hr records hr.bound) hr.bound

/-- The minus of a sum starts statements too. -/
theorem Trailing.sum :
    Trailing T Token.Kind.extends_ Expr.Grown n (sum r records) fun i => sum (r' i) records := by
  refine Trailing.level hT (c := Token.Kind.isMark .minus) ⟨?_, ?_, rfl⟩ ?_ ?_
    (Trailing.product hT hr records) hr.bound
  · intro k h
    cases Token.Kind.isMark_iff.mp h
    rfl
  · intro k ho h
    cases k with
    | mark m => cases m <;> first | rfl | exact absurd h (by decide) | exact absurd ho (by decide)
    | _ => rfl
  · intro k h
    cases Token.Kind.isMark_iff.mp h
    rfl
  · intro k
    cases k with
    | mark m => cases m <;> rfl
    | _ => rfl

theorem Trailing.disjunction :
    Trailing T Token.Kind.extends_ Expr.Grown n (disjunction r records)
      fun i => disjunction (r' i) records := by
  -- the levels between have no operator that starts a statement
  have hlevel : ∀ {f : Mark → Option BinaryOp} {p : Parser Expr} {p' : ι → Parser Expr},
      (∀ m ∈ Mark.all, (Token.Kind.mark m).opens = true → f m = none) → f .semicolon = none →
        Trailing T Token.Kind.extends_ Expr.Grown n p p' →
          Trailing T Token.Kind.extends_ Expr.Grown n (Parser.level r f p)
            fun i => Parser.level (r' i) f (p' i) := fun hf hs hp =>
    Trailing.level hT (continuing_none hf hs) (fun _ h => Bool.noConfusion h)
      (fun _ => (Bool.or_false _).symm) hp hr.bound
  have hcomparison := hlevel (f := comparisonOp?) (by decide) rfl (Trailing.sum hT hr records)
  have hequality := hlevel (f := equalityOp?) (by decide) rfl hcomparison
  have hconjunction := hlevel (f := conjunctionOp?) (by decide) rfl hequality
  exact hlevel (f := disjunctionOp?) (by decide) rfl hconjunction

omit hT hr in
theorem assigned_grown {target : Expr} {S : Stream} {x : Expr × Stream}
    (h : assigned r records target S = .ok x) : target = x.1 ∨ target.Grown x.1 := by
  cases S with
  | invalid e => cases h
  | finish q =>
    cases h
    exact .inl rfl
  | token t S =>
    obtain ⟨k, q⟩ := t
    by_cases hk : k = .mark .assign
    · subst hk
      cases target with
      | name v =>
        rw [assigned_name] at h
        obtain ⟨value, S₁, -, h⟩ := bind_eq_ok h
        cases h
        refine .inr ⟨?_, fun es => Expr.noConfusion⟩
        simp only [Expr.name.sizeOf_spec, Expr.assign.sizeOf_spec]
        have := value.sizeOf_pos
        omega
      | _ => exact absurd h (assigned_ne_ok _ _ _ q S fun v => Expr.noConfusion)
    · cases (assigned_stop r records target q S hk).symm.trans h
      exact .inl rfl

theorem Trailing.assigned (target : Expr) :
    Trailing T Token.Kind.extends_ Expr.Grown n (assigned r records target)
      fun i => assigned (r' i) records target := by
  refine ⟨fun h => by cases h; rfl, ?_⟩
  intro S S' a R hS h
  cases S with
  | invalid e => cases h
  | finish q =>
    cases h
    cases continues_finish hS
    refine .inl fun i => ⟨T i, hS i, ?_⟩
    rcases (hT i).cases with ⟨q', hq'⟩ | ⟨q', U, hq'⟩ <;> simp only [hq'] <;> rfl
  | token t S =>
    obtain ⟨q', R', rfl, hR'⟩ := continues_token hS
    obtain ⟨k, q⟩ := t
    by_cases hk : k = .mark .assign
    · subst hk
      cases target with
      | name v =>
        simp only [assigned_name] at h ⊢
        refine ((hr.expression records).map fun {e e'} hg => ?_).agrees hR' h
        refine ⟨?_, fun es => Expr.noConfusion⟩
        simp only [Expr.assign.sizeOf_spec]
        exact Nat.add_lt_add_left hg.1 _
      | _ => exact absurd h (assigned_ne_ok _ _ _ q S fun v => Expr.noConfusion)
    · simp only [assigned_stop _ _ _ _ _ hk] at h ⊢
      cases h
      exact .inl fun i => ⟨_, hS i, rfl⟩

/-- What an expression takes from behind the old end of the input. -/
theorem Trailing.assignment :
    Trailing T Token.Kind.extends_ Expr.Grown n (assignment r records)
      fun i => assignment (r' i) records := by
  simp only [assignment_eq]
  refine (Trailing.disjunction hT hr records).bind_tail hT
    (c := fun _ => false) (g := fun e => e)
    (fun _ => (Bool.or_false _).symm) (fun _ h => Bool.noConfusion h) ?_ (Trailing.assigned hT hr records)
  refine ⟨fun e q => rfl, ?_, fun _ _ _ _ _ _ h => Bool.noConfusion h, ?_⟩
  · rintro i e S (⟨q, rfl⟩ | ⟨k, q, S, rfl, hk⟩)
    · rfl
    · refine assigned_stop _ _ _ q S ?_
      rintro rfl
      simp [Token.Kind.opens] at hk
  · intro i e e' S x hgrown h
    exact hgrown.trans (assigned_grown records h)

end Expressions

end Parser

end Scripting
