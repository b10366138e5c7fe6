import Mathlib.Tactic.Choose
import Scripting.Proofs.Parser.Basic

/-!
Two streams of which one goes on where the other ends. A parser that succeeds on the shorter stream
does one of three things on the longer one. It stops at the same place with the same result, or it
takes semicolons behind the old end and then stops, or, with fewer semicolons there than it would
take, it goes on with what follows them.
-/

namespace Scripting

namespace Token.Kind

/-- The tokens that a statement can start with; every keyword counts. -/
def opens : Token.Kind → Bool
  | mark .lparen | mark .lbracket | mark .lbrace | mark .minus | mark .bang => true
  | mark _ => false
  | _ => true

/-- The tokens that start a statement and also go on with an operand. -/
def trails : Token.Kind → Bool
  | mark .lparen | mark .lbracket => true
  | _ => false

/-- The tokens that start a statement and also go on with an expression. -/
def extends_ : Token.Kind → Bool
  | mark .minus => true
  | k => k.trails

theorem trails_eq_false {k : Token.Kind} (h : k.isTrailer = false) : k.trails = false := by
  cases k with
  | mark m => cases m <;> first | rfl | cases h
  | _ => rfl

theorem extends_of_trails {k : Token.Kind} (h : k.trails = true) : k.extends_ = true := by
  unfold extends_
  split
  · rfl
  · exact h

end Token.Kind

namespace Stream

def semicolons : Stream → Nat
  | token ⟨.mark .semicolon, _⟩ rest => rest.semicolons + 1
  | _ => 0

def core : Stream → Stream
  | token ⟨.mark .semicolon, _⟩ rest => rest.core
  | s => s

/-- The stream without its first `n` tokens as far as these are semicolons. -/
def dropSemicolons : (n : Nat) → Stream → Stream
  | n + 1, token ⟨.mark .semicolon, _⟩ rest => dropSemicolons n rest
  | _, s => s

/-- The tokens of `S` up to their positions, and `T` in the place of the end. -/
inductive Continues (T : Stream) : Stream → Stream → Prop
  | finish (p : Position) : Continues T (.finish p) T
  | token {k : Token.Kind} {p p' : Position} {S S' : Stream} (rest : Continues T S S') :
      Continues T (.token ⟨k, p⟩ S) (.token ⟨k, p'⟩ S')

theorem Continues.of_finish {T S' : Stream} {p : Position} (h : Continues T (.finish p) S') :
    S' = T := by
  cases h
  rfl

theorem Continues.of_token {T S S' : Stream} {t : Token} (h : Continues T (.token t S) S') :
    ∃ p R, S' = .token ⟨t.kind, p⟩ R ∧ Continues T S R := by
  cases h with
  | token rest => exact ⟨_, _, rfl, rest⟩

/-- What can follow a program: nothing, or a semicolon and then another program. -/
structure Seam (T : Stream) : Prop where
  front : (∃ p, T = .finish p) ∨ 0 < T.semicolons
  core : (∃ p, T.core = .finish p) ∨
    ∃ k p S, T.core = .token ⟨k, p⟩ S ∧ k.opens = true ∧ k ≠ .mark .semicolon

/-- Whether a parser that takes `n` semicolons at the end, and then goes on with a token in `c`,
takes a part of the program behind the semicolons of `T`. -/
def Absorbs (c : Token.Kind → Bool) (n : Nat) (T : Stream) : Prop :=
  T.semicolons < n ∧ T.core.front?.any Token.Kind.extends_ = true ∨
    T.semicolons = n ∧ T.core.front?.any c = true

@[simp] theorem dropSemicolons_zero (T : Stream) : T.dropSemicolons 0 = T := by
  cases T <;> rfl

theorem dropSemicolons_of_le {T : Stream} {n : Nat} (h : T.semicolons ≤ n) :
    T.dropSemicolons n = T.core := by
  fun_induction core T generalizing n with
  | case1 p rest ih =>
    obtain _ | n := n
    · simp [semicolons] at h
    · exact ih (by simpa [semicolons] using h)
  | case2 s hs =>
    unfold dropSemicolons
    split
    · exact absurd rfl (hs _ _)
    · rfl

theorem dropSemicolons_of_lt {T : Stream} {n : Nat} (h : n < T.semicolons) :
    ∃ p, T.dropSemicolons n = .token ⟨.mark .semicolon, p⟩ (T.dropSemicolons (n + 1)) := by
  fun_induction core T generalizing n with
  | case1 p rest ih =>
    obtain _ | n := n
    · exact ⟨p, by simp [dropSemicolons]⟩
    · exact ih (by simpa [semicolons] using h)
  | case2 s hs =>
    unfold semicolons at h
    split at h
    · exact absurd rfl (hs _ _)
    · omega

theorem core_token_of_ne {k : Token.Kind} {p : Position} {S : Stream} (hk : k ≠ .mark .semicolon) :
    core (.token ⟨k, p⟩ S) = .token ⟨k, p⟩ S := by
  unfold core
  split
  · rename_i heq
    cases heq
    exact absurd rfl hk
  · rfl

theorem core_dropSemicolons (T : Stream) (n : Nat) : (T.dropSemicolons n).core = T.core := by
  fun_induction dropSemicolons n T with
  | case1 n p rest ih => exact ih
  | case2 => rfl

theorem semicolons_dropSemicolons (T : Stream) (n : Nat) :
    (T.dropSemicolons n).semicolons = T.semicolons - n := by
  fun_induction dropSemicolons n T with
  | case1 n p rest ih =>
    rw [ih, semicolons]
    omega
  | case2 n s h =>
    cases n with
    | zero => rfl
    | succ n =>
      unfold semicolons
      split
      · exact absurd rfl (h n _ _ rfl)
      · rw [Nat.zero_sub]

theorem Continues.length {T S S' : Stream} (h : Continues T S S') :
    S'.length = S.length + T.length := by
  induction h with
  | finish p => simp [Stream.length]
  | token rest ih => simp [Stream.length, ih]; omega

theorem Continues.semicolons {q : Position} {S S' : Stream} (h : Continues (.finish q) S S') :
    S'.semicolons = S.semicolons := by
  induction h with
  | finish p => rfl
  | @token k p p' S S' rest ih =>
    cases k with
    | mark m =>
      cases m with
      | semicolon => exact congrArg Nat.succ ih
      | _ => rfl
    | _ => rfl

theorem Continues.front_core {q : Position} {S S' : Stream} (h : Continues (.finish q) S S') :
    S'.core.front? = S.core.front? := by
  induction h with
  | finish p => rfl
  | @token k p p' S S' rest ih =>
    by_cases hk : k = .mark .semicolon
    · subst hk
      exact ih
    · rw [core_token_of_ne hk, core_token_of_ne hk]
      rfl

/-- Where only semicolons are left, all of those behind the old end are among them. -/
theorem Continues.semicolons_le {T S S' : Stream} (h : Continues T S S')
    (hc : S'.core.front? = none) : T.semicolons ≤ S'.semicolons := by
  induction h with
  | finish p => exact Nat.le_refl _
  | @token k p p' S S' rest ih =>
    by_cases hk : k = .mark .semicolon
    · subst hk
      exact Nat.le_succ_of_le (ih hc)
    · rw [core_token_of_ne hk] at hc
      cases hc

/-- A parser that takes no semicolon takes nothing behind a seam. -/
theorem Seam.not_absorbs_zero {T : Stream} (hT : Seam T) (c : Token.Kind → Bool) :
    ¬ T.Absorbs c 0 := by
  rintro (⟨h, _⟩ | ⟨h, hc⟩)
  · omega
  · rcases hT.front with ⟨p, rfl⟩ | h'
    · simp [Stream.core, front?] at hc
    · omega

/-- One more semicolon at the end moves the limit by one. -/
theorem absorbs_succ_iff {T : Stream} {n : Nat} :
    T.Absorbs (fun _ => false) (n + 1) ↔ T.Absorbs Token.Kind.extends_ n := by
  have h : T.core.front?.any (fun _ => false) = false := by cases T.core.front? <;> rfl
  unfold Absorbs
  rw [h]
  constructor
  · rintro (⟨hn, hc⟩ | ⟨_, hc⟩)
    · rcases Nat.lt_or_ge T.semicolons n with hlt | hge
      · exact .inl ⟨hlt, hc⟩
      · exact .inr ⟨by omega, hc⟩
    · cases hc
  · rintro (⟨hn, hc⟩ | ⟨hn, hc⟩)
    · exact .inl ⟨by omega, hc⟩
    · exact .inl ⟨by omega, hc⟩

/-- Whether a parser that goes on with the tokens in `c` has nothing to take at the front. -/
def Stops (c : Token.Kind → Bool) (T : Stream) : Prop :=
  (∃ p, T = .finish p) ∨
    ∃ k p S, T = .token ⟨k, p⟩ S ∧ (k = .mark .semicolon ∨ k.opens = true ∧ c k = false)

/-- Where nothing is absorbed, a parser stops at the seam. -/
theorem Seam.stops {T : Stream} (hT : Seam T) {c c' : Token.Kind → Bool} {n : Nat}
    (hc : ∀ k, c k = true → c' k = true ∧ k.extends_ = true) (h : ¬ T.Absorbs c' n) :
    (T.dropSemicolons n).Stops c := by
  rcases Nat.lt_or_ge n T.semicolons with hlt | hge
  · obtain ⟨p, hp⟩ := dropSemicolons_of_lt hlt
    exact .inr ⟨_, p, _, hp, .inl rfl⟩
  · rw [dropSemicolons_of_le hge]
    rcases hT.core with hfin | ⟨k, p, S, hk, ho, -⟩
    · exact .inl hfin
    · refine .inr ⟨k, p, S, hk, .inr ⟨ho, ?_⟩⟩
      refine Bool.eq_false_iff.mpr fun hck => ?_
      obtain ⟨hc', he⟩ := hc k hck
      have hfront : T.core.front? = some k := by rw [hk]; rfl
      apply h
      rcases Nat.lt_or_ge T.semicolons n with hlt | hge'
      · exact .inl ⟨hlt, by rw [hfront]; exact he⟩
      · exact .inr ⟨by omega, by rw [hfront]; exact hc'⟩

theorem Seam.stops_self {T : Stream} (hT : Seam T) (c : Token.Kind → Bool) : T.Stops c := by
  rcases hT.front with hfin | h
  · exact .inl hfin
  · obtain ⟨p, hp⟩ := dropSemicolons_of_lt h
    rw [dropSemicolons_zero] at hp
    exact .inr ⟨_, p, _, hp, .inl rfl⟩

end Stream

namespace Parser

variable {ι α β : Type} {T : ι → Stream}

/-- On every longer stream the result is `a` and the place is that of `R`. The streams stand in a
family so that facts about the shorter one hold for all members alike. -/
def Agrees (T : ι → Stream) (a : α) (R : Stream) (o : ι → Except SyntaxError (α × Stream)) :
    Prop :=
  ∀ i, ∃ R', (T i).Continues R R' ∧ o i = .ok (a, R')

/-- On every longer stream `k` semicolons are taken behind the old end, unless the parser takes more
than that; then its result grows. -/
def Overruns (T : ι → Stream) (c : Token.Kind → Bool) (G : α → α → Prop) (n : Nat) (a : α)
    (o : ι → Except SyntaxError (α × Stream)) : Prop :=
  ∃ k ≤ n, ∀ i, (¬ (T i).Absorbs c k → o i = .ok (a, (T i).dropSemicolons k)) ∧
    ((T i).Absorbs c k → ∀ x, o i = .ok x → G a x.1)

/-- Parsers that do the same on longer streams when they stop in front of a token. -/
structure Inside (T : ι → Stream) (p : Parser α) (p' : ι → Parser α) : Prop where
  stays : ∀ {q x}, p (.finish q) = .ok x → x.2 = .finish q
  agrees : ∀ {S : Stream} {S' : ι → Stream} {a : α} {R : Stream},
    (∀ i, (T i).Continues S (S' i)) → p S = .ok (a, R) →
    (∃ q, R = .finish q) ∨ Agrees T a R fun i => p' i (S' i)

/-- Parsers that do the same on longer streams. -/
structure Closed (T : ι → Stream) (p : Parser α) (p' : ι → Parser α) : Prop where
  stays : ∀ {q x}, p (.finish q) = .ok x → x.2 = .finish q
  agrees : ∀ {S : Stream} {S' : ι → Stream} {a : α} {R : Stream},
    (∀ i, (T i).Continues S (S' i)) → p S = .ok (a, R) →
    Agrees T a R fun i => p' i (S' i)

/-- Parsers that can take semicolons behind the old end and go on with the tokens in `c`. -/
structure Trailing (T : ι → Stream) (c : Token.Kind → Bool) (G : α → α → Prop) (n : Nat)
    (p : Parser α) (p' : ι → Parser α) : Prop where
  stays : ∀ {q x}, p (.finish q) = .ok x → x.2 = .finish q
  agrees : ∀ {S : Stream} {S' : ι → Stream} {a : α} {R : Stream},
    (∀ i, (T i).Continues S (S' i)) → p S = .ok (a, R) →
    (Agrees T a R fun i => p' i (S' i)) ∨
      (∃ q, R = .finish q) ∧ Overruns T c G n a fun i => p' i (S' i)

/-- Parsers that need another token. -/
def Demands (p : Parser α) : Prop := ∀ q x, p (.finish q) ≠ .ok x

/-- What a parser goes on with behind its first part: at the end of the input it adds nothing, and
behind a seam it goes on with the tokens in `c` only. -/
structure Tail (c : Token.Kind → Bool) (G : α → α → Prop) (G' : β → β → Prop) (g : α → β)
    (f : α → Parser β) (f' : ι → α → Parser β) : Prop where
  idle : ∀ a q, f a (.finish q) = .ok (g a, .finish q)
  stop : ∀ i a S, S.Stops c → f' i a S = .ok (g a, S)
  take : ∀ i a k p S x, c k = true → f' i a (.token ⟨k, p⟩ S) = .ok x → G' (g a) x.1
  grow : ∀ i a a' S x, G a a' → f' i a' S = .ok x → G' (g a) x.1

theorem continues_finish {q : Position} {S' : ι → Stream}
    (h : ∀ i, (T i).Continues (.finish q) (S' i)) : S' = T := by
  funext i
  exact (h i).of_finish

theorem continues_token {t : Token} {S : Stream} {S' : ι → Stream}
    (h : ∀ i, (T i).Continues (.token t S) (S' i)) :
    ∃ (p' : ι → Position) (R' : ι → Stream), (S' = fun i => .token ⟨t.kind, p' i⟩ (R' i)) ∧
      ∀ i, (T i).Continues S (R' i) := by
  choose p' R' hS' hR' using fun i => (h i).of_token
  exact ⟨p', R', funext hS', hR'⟩

theorem Agrees.bind {p' : ι → Parser α} {f' : ι → α → Parser β} {S' R' : ι → Stream} {a : α}
    {b : β} {R : Stream} (hp : ∀ i, p' i (S' i) = .ok (a, R' i))
    (hf : Agrees T b R fun i => f' i a (R' i)) : Agrees T b R fun i => (p' i >>= f' i) (S' i) := by
  intro i
  obtain ⟨R₂, hR₂, hf₂⟩ := hf i
  exact ⟨R₂, hR₂, (bind_of_ok (hp i)).trans hf₂⟩

theorem Overruns.bind {p' : ι → Parser α} {f' : ι → α → Parser β} {S' R' : ι → Stream} {a : α}
    {b : β} {c : Token.Kind → Bool} {G : β → β → Prop} {n : Nat}
    (hp : ∀ i, p' i (S' i) = .ok (a, R' i)) (hf : Overruns T c G n b fun i => f' i a (R' i)) :
    Overruns T c G n b fun i => (p' i >>= f' i) (S' i) := by
  obtain ⟨k, hk, hall⟩ := hf
  refine ⟨k, hk, fun i => ?_⟩
  simp only [bind_of_ok (hp i)]
  exact hall i

theorem Agrees.overruns (hT : ∀ i, (T i).Seam) {c : Token.Kind → Bool} {G : α → α → Prop} {n : Nat}
    {a : α} {q : Position} {o : ι → Except SyntaxError (α × Stream)}
    (h : Agrees T a (.finish q) o) : Overruns T c G n a o := by
  refine ⟨0, Nat.zero_le n, fun i => ⟨fun _ => ?_, fun ha => ?_⟩⟩
  · obtain ⟨R', hR', ho⟩ := h i
    cases hR'
    rw [ho, Stream.dropSemicolons_zero]
  · exact absurd ha ((hT i).not_absorbs_zero c)

section Rules

variable {p : Parser α} {p' : ι → Parser α} {f : α → Parser β} {f' : ι → α → Parser β}
  {c : Token.Kind → Bool} {G : α → α → Prop} {G' : β → β → Prop} {n : Nat}

theorem Closed.inside (hp : Closed T p p') : Inside T p p' :=
  ⟨hp.stays, fun hS h => .inr (hp.agrees hS h)⟩

theorem Closed.trailing (hp : Closed T p p') : Trailing T c G n p p' :=
  ⟨hp.stays, fun hS h => .inl (hp.agrees hS h)⟩

theorem Trailing.inside (hp : Trailing T c G n p p') : Inside T p p' :=
  ⟨hp.stays, fun hS h => (hp.agrees hS h).symm.imp_left And.left⟩

theorem Trailing.mono {n' : Nat} (hp : Trailing T c G n p p') (hn : n ≤ n') :
    Trailing T c G n' p p' := by
  refine ⟨hp.stays, fun hS h => (hp.agrees hS h).imp_right ?_⟩
  rintro ⟨hq, k, hk, hall⟩
  exact ⟨hq, k, Nat.le_trans hk hn, hall⟩

theorem stays_bind (hp : ∀ {q x}, p (.finish q) = .ok x → x.2 = .finish q)
    (hf : ∀ a {q x}, f a (.finish q) = .ok x → x.2 = .finish q) {q : Position} {x : β × Stream}
    (h : (p >>= f) (.finish q) = .ok x) : x.2 = .finish q := by
  obtain ⟨a, s, ha, hb⟩ := bind_eq_ok h
  cases hp ha
  exact hf a hb

theorem Inside.bind (hp : Inside T p p') (hf : ∀ a, Inside T (f a) fun i => f' i a) :
    Inside T (p >>= f) fun i => p' i >>= f' i := by
  refine ⟨stays_bind hp.stays fun a => (hf a).stays, ?_⟩
  intro S S' b R hS h
  obtain ⟨a, R₁, ha, hb⟩ := bind_eq_ok h
  rcases hp.agrees hS ha with ⟨q, rfl⟩ | hag
  · exact .inl ⟨q, (hf a).stays hb⟩
  · choose R' hR' hp' using hag
    exact ((hf a).agrees hR' hb).imp_right (Agrees.bind hp')

theorem Inside.demands (hp : Inside T p p') (hf : ∀ a, Demands (f a)) : Demands (p >>= f) := by
  intro q x h
  obtain ⟨a, R, ha, hb⟩ := bind_eq_ok h
  cases hp.stays ha
  exact hf a q x hb

theorem Demands.bind (hp : Demands p) : Demands (p >>= f) := by
  intro q x h
  obtain ⟨a, R, ha, -⟩ := bind_eq_ok h
  exact hp q _ ha

theorem Closed.bind_trailing (hp : Closed T p p')
    (hf : ∀ a, Trailing T c G' n (f a) fun i => f' i a) :
    Trailing T c G' n (p >>= f) fun i => p' i >>= f' i := by
  refine ⟨stays_bind hp.stays fun a => (hf a).stays, ?_⟩
  intro S S' b R hS h
  obtain ⟨a, R₁, ha, hb⟩ := bind_eq_ok h
  choose R' hR' hp' using hp.agrees hS ha
  exact ((hf a).agrees hR' hb).imp (Agrees.bind hp') (And.imp_right (Overruns.bind hp'))

/-- The rest of a parser that needs another token brings the first part to stop before one. -/
theorem Inside.bind_trailing (hp : Inside T p p')
    (hf : ∀ a, Trailing T c G' n (f a) fun i => f' i a)
    (hfail : ∀ a, Demands (f a)) :
    Trailing T c G' n (p >>= f) fun i => p' i >>= f' i := by
  refine ⟨stays_bind hp.stays fun a => (hf a).stays, ?_⟩
  intro S S' b R hS h
  obtain ⟨a, R₁, ha, hb⟩ := bind_eq_ok h
  rcases hp.agrees hS ha with ⟨q, rfl⟩ | hag
  · exact absurd hb (hfail a q _)
  · choose R' hR' hp' using hag
    exact ((hf a).agrees hR' hb).imp (Agrees.bind hp') (And.imp_right (Overruns.bind hp'))

theorem Trailing.closed (hT : ∀ i, (T i).Seam) (hp : Trailing T c G 0 p p') : Closed T p p' := by
  refine ⟨hp.stays, fun {S S' a R} hS h => ?_⟩
  rcases hp.agrees hS h with hag | ⟨⟨q, rfl⟩, k, hk, hall⟩
  · exact hag
  · intro i
    have hi := (hall i).1
    rw [Nat.le_zero.mp hk, Stream.dropSemicolons_zero] at hi
    exact ⟨T i, .finish q, hi ((hT i).not_absorbs_zero c)⟩

theorem Closed.bind (hT : ∀ i, (T i).Seam) (hp : Closed T p p')
    (hf : ∀ a, Closed T (f a) fun i => f' i a) : Closed T (p >>= f) fun i => p' i >>= f' i :=
  Trailing.closed (c := fun _ => false) (G := fun _ _ => True) hT
    (hp.bind_trailing fun a => (hf a).trailing)

theorem Inside.bind_closed (hT : ∀ i, (T i).Seam) (hp : Inside T p p')
    (hf : ∀ a, Closed T (f a) fun i => f' i a) (hfail : ∀ a, Demands (f a)) :
    Closed T (p >>= f) fun i => p' i >>= f' i :=
  Trailing.closed (c := fun _ => false) (G := fun _ _ => True) hT
    (hp.bind_trailing (fun a => (hf a).trailing) hfail)

theorem Closed.pure (b : β) : Closed T (Pure.pure b) fun _ => Pure.pure b := by
  constructor
  · intro q x h
    cases h
    rfl
  · intro S S' a R hS h i
    cases h
    exact ⟨S' i, hS i, rfl⟩

theorem Trailing.map (hp : Trailing T c G n p p') {h : α → β}
    (hG : ∀ {a a'}, G a a' → G' (h a) (h a')) :
    Trailing T c G' n (p >>= fun a => Pure.pure (h a))
      fun i => p' i >>= fun a => Pure.pure (h a) := by
  refine ⟨stays_bind hp.stays fun a => (Closed.pure (T := T) (h a)).stays, ?_⟩
  intro S S' b R hS hb
  obtain ⟨a, R₁, ha, hpure⟩ := bind_eq_ok hb
  cases hpure
  rcases hp.agrees hS ha with hag | ⟨hq, k, hk, hall⟩
  · choose R' hR' hp' using hag
    exact .inl (Agrees.bind hp' ((Closed.pure (h a)).agrees hR' rfl))
  · refine .inr ⟨hq, k, hk, fun i => ⟨fun hn => ?_, fun hy x hx => ?_⟩⟩
    · exact bind_of_ok ((hall i).1 hn)
    · obtain ⟨a', R', ha', hpure⟩ := bind_eq_ok hx
      cases hpure
      exact hG ((hall i).2 hy _ ha')

/-- A first part that may grow at its end and a tail that may go on behind it make a parser that does
either. -/
theorem Trailing.bind_tail (hT : ∀ i, (T i).Seam) {c₀ c' : Token.Kind → Bool} {g : α → β}
    (hc : ∀ k, c' k = (c₀ k || c k)) (hext : ∀ k, c k = true → k.extends_ = true)
    (hp : Trailing T c₀ G n p p') (ht : Tail c G G' g f f')
    (hf : ∀ a, Trailing T c' G' n (f a) fun i => f' i a) :
    Trailing T c' G' n (p >>= f) fun i => p' i >>= f' i := by
  refine ⟨stays_bind hp.stays fun a => (hf a).stays, ?_⟩
  intro S S' b R hS h
  obtain ⟨a, R₁, ha, hb⟩ := bind_eq_ok h
  rcases hp.agrees hS ha with hag | ⟨⟨q, rfl⟩, k, hk, hall⟩
  · choose R' hR' hp' using hag
    exact ((hf a).agrees hR' hb).imp (Agrees.bind hp') (And.imp_right (Overruns.bind hp'))
  · cases (ht.idle a q).symm.trans hb
    refine .inr ⟨⟨q, rfl⟩, k, hk, fun i => ⟨fun hn => ?_, fun hy x hx => ?_⟩⟩
    · -- nothing is absorbed: neither by the first part nor by the tail
      have hn₀ : ¬ (T i).Absorbs c₀ k := by
        refine fun h₀ => hn (h₀.imp_right (And.imp_right fun hany => ?_))
        cases hfr : (T i).core.front? with
        | none => simp [hfr] at hany
        | some d => simp_all
      refine (bind_of_ok ((hall i).1 hn₀)).trans (ht.stop i a _ ?_)
      exact (hT i).stops (fun d hd => ⟨by rw [hc, hd, Bool.or_true], hext d hd⟩) hn
    · obtain ⟨a', R', ha', hx'⟩ := bind_eq_ok hx
      by_cases h₀ : (T i).Absorbs c₀ k
      · exact ht.grow i a a' R' x ((hall i).2 h₀ _ ha') hx'
      · cases ((hall i).1 h₀).symm.trans ha'
        rcases hy with hy | ⟨hkey, hany⟩
        · exact absurd (.inl hy) h₀
        · rw [Stream.dropSemicolons_of_le (Nat.le_of_eq hkey)] at hx'
          cases hfr : (T i).core with
          | finish q' => simp [hfr, Stream.front?] at hany
          | invalid e => simp [hfr, Stream.front?] at hany
          | token t S₁ =>
            obtain ⟨d, q'⟩ := t
            rw [hfr] at hx'
            refine ht.take i a d q' S₁ x ?_ hx'
            have hd₀ : c₀ d = false := by
              refine Bool.eq_false_iff.mpr fun hd => h₀ (.inr ⟨hkey, ?_⟩)
              rw [hfr]
              exact hd
            have hd : c' d = true := by simpa [hfr, Stream.front?] using hany
            simpa [hc, hd₀] using hd

theorem Trailing.of_ne_ok (h : ∀ S x, p S ≠ .ok x) : Trailing T c G n p p' :=
  ⟨fun hx => absurd hx (h _ _), fun _ hx => absurd hx (h _ _)⟩

/-- The rule for a tail that is a loop with a bound. -/
theorem Trailing.bind_loop (hT : ∀ i, (T i).Seam) {c₀ c' : Token.Kind → Bool} {g : α → β}
    (f : Nat → α → Parser β) (f' : ι → Nat → α → Parser β) {b : Nat} {b' : ι → Nat}
    (hc : ∀ k, c' k = (c₀ k || c k)) (hext : ∀ k, c k = true → k.extends_ = true)
    (hp : Trailing T c₀ G n p p') (hzero : ∀ a S x, f 0 a S ≠ .ok x)
    (ht : ∀ b (d : ι → Nat), Tail c G G' g (f (b + 1)) fun i => f' i (d i + 1))
    (hb : ∀ i, b ≤ b' i) (hf : ∀ a, Trailing T c' G' n (f b a) fun i => f' i (b' i) a) :
    Trailing T c' G' n (p >>= f b) fun i => p' i >>= f' i (b' i) := by
  cases b with
  | zero =>
    refine Trailing.of_ne_ok fun S x h => ?_
    obtain ⟨a, S₁, -, h⟩ := bind_eq_ok h
    exact hzero a S₁ x h
  | succ b =>
    have hd : ∀ i, b' i = b' i - 1 + 1 := fun i => (Nat.sub_add_cancel (by have := hb i; omega)).symm
    have htail := ht b fun i => b' i - 1
    simp only [← hd] at htail
    exact hp.bind_tail hT hc hext htail hf

theorem endStatement_dropSemicolons {U : Stream} (hU : U.Seam) (k : Nat) :
    endStatement (U.dropSemicolons k) = .ok ((), U.dropSemicolons (k + 1)) := by
  rcases Nat.lt_or_ge k U.semicolons with hlt | hge
  · obtain ⟨p, hp⟩ := Stream.dropSemicolons_of_lt hlt
    rw [hp, endStatement_token]
    rfl
  · rw [Stream.dropSemicolons_of_le hge, Stream.dropSemicolons_of_le (Nat.le_succ_of_le hge)]
    rcases hU.core with ⟨p, hp⟩ | ⟨d, p, S, hd, -, hne⟩
    · rw [hp, endStatement_finish]
    · rw [hd, endStatement_token, if_neg]
      exact fun hm => hne (Token.Kind.isMark_iff.mp hm)

theorem agrees_endStatement {t : Token} {S : Stream} {S' : ι → Stream} {u : Unit} {R : Stream}
    (hS : ∀ i, (T i).Continues (.token t S) (S' i)) (h : endStatement (.token t S) = .ok (u, R)) :
    Agrees T u R fun i => endStatement (S' i) := by
  obtain ⟨p', R', rfl, hR'⟩ := continues_token hS
  cases (endStatement_token _ _ S).symm.trans h
  refine fun i => ⟨_, ?_, endStatement_token _ _ (R' i)⟩
  split
  · exact hR' i
  · exact .token (hR' i)

theorem Inside.endStatement : Inside T endStatement fun _ => Parser.endStatement := by
  constructor
  · intro q x h
    cases h
    rfl
  · intro S S' a R hS h
    cases S with
    | invalid e => cases h
    | finish q =>
      cases h
      exact .inl ⟨q, rfl⟩
    | token t S => exact .inr (agrees_endStatement hS h)

/-- The semicolon that may end a statement is one more of those that are taken. -/
theorem Trailing.ended (hT : ∀ i, (T i).Seam) (hp : Trailing T Token.Kind.extends_ G n p p')
    {h : α → β} (hG : ∀ {a a'}, G a a' → G' (h a) (h a')) :
    Trailing T (fun _ => false) G' (n + 1)
      (p >>= fun a => endStatement >>= fun _ => Pure.pure (h a))
      fun i => p' i >>= fun a => endStatement >>= fun _ => Pure.pure (h a) := by
  have hstays : ∀ (a : α) {q : Position} {x : β × Stream},
      (endStatement >>= fun _ => Pure.pure (h a) : Parser β) (.finish q) = .ok x →
        x.2 = .finish q := by
    intro a q x hx
    cases hx
    rfl
  refine ⟨stays_bind hp.stays fun a => hstays a, ?_⟩
  intro S S' b R hS hb
  obtain ⟨a, R₁, ha, hend⟩ := bind_eq_ok hb
  cases R₁ with
  | invalid e => cases hend
  | token t R₁ =>
    rcases hp.agrees hS ha with hag | ⟨⟨q, hq⟩, -⟩
    · choose R' hR' hp' using hag
      obtain ⟨u, R₂, hu, hpure⟩ := bind_eq_ok hend
      choose R₂' hR₂' hu' using agrees_endStatement hR' hu
      exact .inl (Agrees.bind hp' (Agrees.bind hu' ((Closed.pure (h a)).agrees hR₂' hpure)))
    · cases hq
  | finish q =>
    cases hend
    have hov : Overruns T Token.Kind.extends_ G n a fun i => p' i (S' i) :=
      (hp.agrees hS ha).elim (Agrees.overruns hT) And.right
    obtain ⟨k, hk, hall⟩ := hov
    refine .inr ⟨⟨q, rfl⟩, k + 1, Nat.succ_le_succ hk, fun i => ⟨fun hn => ?_, fun hy x hx => ?_⟩⟩
    · rw [Stream.absorbs_succ_iff] at hn
      refine (bind_of_ok ((hall i).1 hn)).trans ?_
      rw [bind_of_ok (endStatement_dropSemicolons (hT i) k)]
      rfl
    · rw [Stream.absorbs_succ_iff] at hy
      obtain ⟨a', R', ha', hx'⟩ := bind_eq_ok hx
      obtain ⟨u, R₂, -, hpure⟩ := bind_eq_ok hx'
      cases hpure
      exact hG ((hall i).2 hy _ ha')

end Rules

end Parser

end Scripting
