import Scripting.Proofs.Lexer.Spelling
import Scripting.Proofs.Parser.Endings
import Scripting.Proofs.Parser.Suffix

/-!
Two programs with a semicolon between them. The last statement of the first program takes a number
of semicolons from a row behind it, one for itself and one for every function literal without braces
that is open at its end. With fewer semicolons before the second program, such a statement goes on
with a second program that starts with a call, an index or a minus.
-/

namespace Scripting

namespace Stream

def row (p : Position) : (n : Nat) → Stream
  | 0 => .finish p
  | n + 1 => .token ⟨.mark .semicolon, p⟩ (row p n)

/-- The stream with a row of semicolons in the place of its end. -/
def withRow (n : Nat) : Stream → Stream
  | token t rest => token t (rest.withRow n)
  | finish p => row p n
  | invalid e => invalid e

theorem semicolons_row (p : Position) (n : Nat) : (row p n).semicolons = n := by
  induction n with
  | zero => rfl
  | succ n ih => exact congrArg Nat.succ ih

theorem core_row (p : Position) (n : Nat) : (row p n).core = .finish p := by
  induction n with
  | zero => rfl
  | succ n ih => exact ih

theorem Seam.row (p : Position) (n : Nat) : Seam (row p n) where
  front := by
    cases n with
    | zero => exact .inl ⟨p, rfl⟩
    | succ n => exact .inr (by rw [semicolons_row]; exact Nat.succ_pos n)
  core := .inl ⟨p, core_row p n⟩

inductive Ends (p : Position) : Stream → Prop
  | finish : Ends p (.finish p)
  | token {t : Token} {S : Stream} (rest : Ends p S) : Ends p (.token t S)

theorem Ends.withRow {p : Position} {S : Stream} (h : Ends p S) (n : Nat) :
    Continues (row p n) S (S.withRow n) := by
  induction h with
  | finish => exact .finish p
  | token _ ih => exact .token ih

theorem Suffix.ends {p : Position} {S : Stream} (h : (finish p).Suffix S) : Ends p S := by
  induction h with
  | refl => exact .finish
  | token _ ih => exact .token ih

end Stream

namespace Parser

/-- The stream behind the last statement of a program, where only semicolons are left. -/
def afterLast (r : Sorts) : (bound : Nat) → Stream → Stream
  | 0, s => s
  | bound + 1, s =>
    match s.core with
    | .token t rest =>
      match r.statement (.token t rest) with
      | .ok (_, rest) => afterLast r bound rest
      | .error _ => .token t rest
    | _ => s

/-- The number of semicolons that the last statement of a program takes from a row behind it. -/
def ownSemicolons (s : Stream) : Nat :=
  let n := enough s
  n - (afterLast (unlimited n) n (s.withRow n)).semicolons

variable {ι : Type} {T : ι → Stream}

/-- What a program becomes on longer streams. -/
structure Continuation (T : ι → Stream) (n b : Nat) (r' : ι → Sorts) (ps : Program)
    (S' : ι → Stream) (u k : Nat) : Prop where
  rounds : u ≤ b
  taken : k ≤ n
  separate : ∀ i, ¬ (T i).Absorbs (fun _ => false) k → ∀ b',
    program (r' i) (b' + u) (S' i) =
      (program (r' i) b' ((T i).dropSemicolons k)).map fun x => (ps ++ x.1, x.2)
  absorbed : ∀ i, (T i).Absorbs (fun _ => false) k → ∀ b' x,
    program (r' i) b' (S' i) = .ok x →
      ∃ first s s' rest, ps = first ++ [s] ∧ x.1 = first ++ s' :: rest ∧ Stmt.Grown s s'
  after : ∀ i p, (T i).core = .finish p → k ≤ (T i).semicolons → ∀ b', b ≤ b' →
    (T i).semicolons - (afterLast (r' i) b' (S' i)).semicolons = k

section

variable {n b u k : Nat} {r' : ι → Sorts} {ps : Program}

theorem Continuation.finish (hT : ∀ i, (T i).Seam) : Continuation T n b r' [] T 0 0 where
  rounds := Nat.zero_le b
  taken := Nat.zero_le n
  separate i _ b' := by
    rw [Stream.dropSemicolons_zero]
    cases program (r' i) b' (T i) <;> rfl
  absorbed i h := absurd h ((hT i).not_absorbs_zero _)
  after i p hp _ b' _ := by
    have hself : afterLast (r' i) b' (T i) = T i := by
      cases b' with
      | zero => rfl
      | succ b' => simp only [afterLast, hp]
    rw [hself, Nat.sub_self]

theorem Continuation.semicolon {S : Stream} {R' : ι → Stream} {q' : ι → Position}
    (hR' : ∀ i, (T i).Continues S (R' i)) (h : Continuation T n b r' ps R' u k) :
    Continuation T n (b + 1) r' ps (fun i => .token ⟨.mark .semicolon, q' i⟩ (R' i)) (u + 1) k where
  rounds := Nat.succ_le_succ h.rounds
  taken := h.taken
  separate i hn b' := h.separate i hn b'
  absorbed i hy b' x hx := by
    cases b' with
    | zero => exact absurd hx exhausted_ne_ok
    | succ b' => exact h.absorbed i hy b' x hx
  after i p hp hk b' hb := by
    have hafter := h.after i p hp hk b' (Nat.le_of_succ_le hb)
    obtain ⟨c, rfl⟩ : ∃ c, b' = c + 1 := ⟨b' - 1, by omega⟩
    simp only [afterLast, Stream.core] at hafter ⊢
    cases hc : (R' i).core with
    | token t rest => simpa only [hc] using hafter
    | finish q =>
      have hle := (hR' i).semicolons_le (by rw [hc]; rfl)
      simp only [hc, Stream.semicolons] at hafter ⊢
      omega
    | invalid e =>
      have hle := (hR' i).semicolons_le (by rw [hc]; rfl)
      simp only [hc, Stream.semicolons] at hafter ⊢
      omega

/-- A program with one more statement at its front becomes the same on longer streams, with that
statement at its front. -/
theorem Continuation.statement {s : Stmt} {d : Token.Kind} {q' : ι → Position}
    {U R' : ι → Stream} (hd : d ≠ .mark .semicolon)
    (hs : ∀ i, (r' i).statement (.token ⟨d, q' i⟩ (U i)) = .ok (s, R' i))
    (h : Continuation T n b r' ps R' u k) :
    Continuation T n (b + 1) r' (s :: ps) (fun i => .token ⟨d, q' i⟩ (U i)) (u + 1) k where
  rounds := Nat.succ_le_succ h.rounds
  taken := h.taken
  separate i hn b' := by
    rw [← Nat.add_assoc, program_statement _ _ _ _ hd, bind_of_ok (hs i)]
    cases hp : program (r' i) b' ((T i).dropSemicolons k) with
    | error e =>
      have := h.separate i hn b'
      rw [hp] at this
      exact bind_of_error this
    | ok x =>
      have := h.separate i hn b'
      rw [hp] at this
      exact bind_of_ok this
  absorbed i hy b' x hx := by
    cases b' with
    | zero => exact absurd hx exhausted_ne_ok
    | succ b' =>
      rw [program_statement _ _ _ _ hd, bind_of_ok (hs i)] at hx
      obtain ⟨rest, R₂, hrest, hx⟩ := bind_eq_ok hx
      cases hx
      obtain ⟨first, t, t', more, hps, hmore, hg⟩ := h.absorbed i hy b' _ hrest
      exact ⟨s :: first, t, t', more, by rw [hps]; rfl, congrArg (s :: ·) hmore, hg⟩
  after i p hp hk b' hb := by
    obtain ⟨c, rfl⟩ : ∃ c, b' = c + 1 := ⟨b' - 1, by omega⟩
    simp only [afterLast, Stream.core_token_of_ne hd, hs]
    exact h.after i p hp hk c (Nat.le_of_succ_le_succ hb)

/-- The last statement of a program decides what becomes of the program on longer streams. -/
theorem Continuation.last {s : Stmt} {d : Token.Kind} {q' : ι → Position} {U : ι → Stream}
    (hd : d ≠ .mark .semicolon)
    (hs : Overruns T (fun _ => false) Stmt.Grown n s
      fun i => (r' i).statement (.token ⟨d, q' i⟩ (U i))) :
    ∃ k, Continuation T n (b + 1) r' [s] (fun i => .token ⟨d, q' i⟩ (U i)) 1 k := by
  obtain ⟨k, hk, hall⟩ := hs
  refine ⟨k, Nat.succ_le_succ (Nat.zero_le b), hk, ?_, ?_, ?_⟩
  · intro i hn b'
    rw [program_statement _ _ _ _ hd, bind_of_ok ((hall i).1 hn)]
    cases hp : program (r' i) b' ((T i).dropSemicolons k) with
    | error e => exact bind_of_error hp
    | ok x => exact bind_of_ok hp
  · intro i hy b' x hx
    cases b' with
    | zero => exact absurd hx exhausted_ne_ok
    | succ b' =>
      rw [program_statement _ _ _ _ hd] at hx
      obtain ⟨s', R₁, hs', hx⟩ := bind_eq_ok hx
      obtain ⟨rest, R₂, -, hx⟩ := bind_eq_ok hx
      cases hx
      exact ⟨[], s, s', rest, rfl, rfl, (hall i).2 hy _ hs'⟩
  · intro i p hp hk' b' hb
    obtain ⟨c, rfl⟩ : ∃ c, b' = c + 1 := ⟨b' - 1, by omega⟩
    have hn : ¬ (T i).Absorbs (fun _ => false) k := by
      simp [Stream.Absorbs, hp, Stream.front?]
    have hself : afterLast (r' i) c ((T i).dropSemicolons k) = (T i).dropSemicolons k := by
      cases c with
      | zero => rfl
      | succ c => simp only [afterLast, Stream.core_dropSemicolons, hp]
    simp only [afterLast, Stream.core_token_of_ne hd, (hall i).1 hn, hself,
      Stream.semicolons_dropSemicolons]
    omega

/-- Behind a token another round follows. -/
theorem program_one_ne_ok (r : Sorts) (t : Token) (S : Stream) (x : Program × Stream) :
    program r 1 (.token t S) ≠ .ok x := by
  intro h
  obtain ⟨d, q⟩ := t
  by_cases hd : d = .mark .semicolon
  · subst hd
    exact exhausted_ne_ok (s := S) h
  · rw [program_statement _ _ _ _ hd] at h
    obtain ⟨s, R₁, -, h⟩ := bind_eq_ok h
    obtain ⟨rest, R₂, h, -⟩ := bind_eq_ok h
    exact exhausted_ne_ok h

/-- A program becomes on longer streams what its last statement makes of it. -/
theorem program_continues (hT : ∀ i, (T i).Seam) {r : Sorts} (hr : Extends T n r r') {S : Stream}
    {S' : ι → Stream} {R : Stream} (hS : ∀ i, (T i).Continues S (S' i))
    (h : program r b S = .ok (ps, R)) : ∃ u k, Continuation T n (b - 1) r' ps S' u k := by
  induction b generalizing S S' ps with
  | zero => exact absurd h exhausted_ne_ok
  | succ b ih =>
    cases S with
    | invalid e => cases h
    | finish q =>
      cases continues_finish hS
      cases h
      exact ⟨0, 0, Continuation.finish hT⟩
    | token t S =>
      obtain ⟨q', U, rfl, hU⟩ := continues_token hS
      obtain ⟨d, q⟩ := t
      obtain ⟨c, rfl⟩ : ∃ c, b = c + 1 := by
        cases b with
        | succ c => exact ⟨c, rfl⟩
        | zero => exact absurd h (program_one_ne_ok r ⟨d, q⟩ S _)
      by_cases hd : d = .mark .semicolon
      · subst hd
        rw [program_semicolon] at h
        obtain ⟨u, k, hc⟩ := ih hU h
        exact ⟨u + 1, k, hc.semicolon hU⟩
      · rw [program_statement _ _ _ _ hd] at h
        obtain ⟨s, R₁, hs, h⟩ := bind_eq_ok h
        obtain ⟨rest, R₂, hrest, h⟩ := bind_eq_ok h
        cases h
        rcases hr.statement.agrees hS hs with hag | ⟨⟨p, rfl⟩, hov⟩
        · choose R' hR' hs' using hag
          obtain ⟨u, k, hc⟩ := ih hR' hrest
          exact ⟨u + 1, k, hc.statement hd hs'⟩
        · rw [program_finish] at hrest
          cases hrest
          obtain ⟨k, hk⟩ := Continuation.last hd hov
          exact ⟨1, k, hk⟩

end

section Fronts

variable {α β : Type}

/-- Parsers that accept a mark in front only if a statement can start with it. -/
def Opening (p : Parser α) : Prop :=
  ∀ m q S x, p (.token ⟨.mark m, q⟩ S) = .ok x → (Token.Kind.mark m).opens = true

theorem Opening.bind {p : Parser α} {f : α → Parser β} (hp : Opening p) : Opening (p >>= f) := by
  intro m q S x h
  obtain ⟨a, S₁, ha, -⟩ := bind_eq_ok h
  exact hp m q S _ ha

theorem Opening.primary (r : Sorts) (records : Bool) : Opening (primary r records) := by
  intro m q S x h
  cases m with
  | lparen => rfl
  | lbracket => rfl
  | lbrace => rfl
  | _ => cases h

theorem Opening.signed (r : Sorts) (records : Bool) (b : Nat) : Opening (signed r records b) := by
  intro m q S x h
  cases b with
  | zero => exact absurd h exhausted_ne_ok
  | succ b =>
    rw [Parser.signed, bind_of_ok (accept_token _ q S _)] at h
    by_cases hm : m = .minus
    · rw [hm]
      rfl
    by_cases hb : m = .bang
    · rw [hb]
      rfl
    have hminus : (Token.Kind.mark m).isMark .minus = false := beq_eq_false_iff_ne.mpr hm
    have hbang : (Token.Kind.mark m).isMark .bang = false := beq_eq_false_iff_ne.mpr hb
    simp only [hminus, Bool.false_eq_true, if_false] at h
    rw [bind_of_ok (accept_token _ q S _)] at h
    simp only [hbang, Bool.false_eq_true, if_false] at h
    exact (Opening.primary r records).bind m q S x h

theorem Opening.power (r : Sorts) (records : Bool) (b : Nat) : Opening (power r records b) := by
  intro m q S x h
  cases b with
  | zero => exact absurd h exhausted_ne_ok
  | succ b => exact (Opening.signed r records _).bind m q S x h

theorem Opening.assignment (r : Sorts) (records : Bool) : Opening (assignment r records) :=
  -- each level starts with its first operand
  (Opening.power r records _).bind.bind.bind.bind.bind.bind.bind

/-- A statement accepts a mark in front only if it can start with it. -/
theorem Opening.statement (b : Nat) : Opening (statement none b) := by
  intro m q S x h
  cases b with
  | zero =>
    rw [statement_zero] at h
    exact absurd h exhausted_ne_ok
  | succ b =>
    rw [statement_succ] at h
    by_cases hb : m = .lbrace
    · rw [hb]
      rfl
    rw [statementOf_expression _ _ _ (fun w => Token.Kind.noConfusion)
      fun hk => hb (Token.Kind.mark.inj hk)] at h
    obtain ⟨e, S₁, he, -⟩ := bind_eq_ok h
    rw [unlimited_expression] at he
    cases b with
    | zero =>
      rw [expression_zero] at he
      exact absurd he exhausted_ne_ok
    | succ b =>
      rw [expression_succ] at he
      exact Opening.assignment _ true m q S _ he

theorem program_core {n b : Nat} {S : Stream} {x : Program × Stream}
    (h : program (unlimited n) b S = .ok x) :
    (∃ p, S.core = .finish p) ∨
      ∃ k p R, S.core = .token ⟨k, p⟩ R ∧ k.opens = true ∧ k ≠ .mark .semicolon := by
  induction b generalizing S with
  | zero => exact absurd h exhausted_ne_ok
  | succ b ih =>
    cases S with
    | invalid e => cases h
    | finish p => exact .inl ⟨p, rfl⟩
    | token t S =>
      obtain ⟨k, p⟩ := t
      by_cases hk : k = .mark .semicolon
      · subst hk
        exact ih (S := S) h
      · refine .inr ⟨k, p, S, Stream.core_token_of_ne hk, ?_, hk⟩
        rw [program_statement _ _ _ _ hk] at h
        obtain ⟨s, S₁, hs, -⟩ := bind_eq_ok h
        cases k with
        | mark m => exact Opening.statement n m p S _ hs
        | _ => rfl

end Fronts

theorem program_dropSemicolons {r : Sorts} {b : Nat} {S : Stream} {x : Program × Stream}
    (h : program r b S = .ok x) (n : Nat) : program r b (S.dropSemicolons n) = .ok x := by
  fun_induction Stream.dropSemicolons n S generalizing b with
  | case1 n p rest ih =>
    cases b with
    | zero => exact absurd h exhausted_ne_ok
    | succ b => exact program_succ r (ih h)
  | case2 => exact h

theorem parseStream_eq_ok {S : Stream} {ps : Program} :
    parseStream none S = .ok ps ↔
      ∃ p, program (unlimited (enough S)) (enough S) S = .ok (ps, .finish p) := by
  constructor
  · intro h
    obtain ⟨R, hR⟩ := program_of_parseStream h
    obtain ⟨p, rfl⟩ := program_rest hR
    exact ⟨p, hR⟩
  · rintro ⟨p, h⟩
    change (program (unlimited (enough S)) (enough S) S).map Prod.fst = .ok ps
    rw [h]
    rfl

/-- A program that is accepted ends with the input. -/
theorem program_ends {n b : Nat} {S : Stream} {ps : Program} {p : Position}
    (h : program (unlimited n) b S = .ok (ps, .finish p)) : S.Ends p :=
  ((Takes.program (taking_sorts none n n) b).suffix h).ends

/-- Positions and larger bounds do not change a program. -/
theorem program_alike {n n' b : Nat} (hn : n ≤ n') {S S' : Stream} {p q : Position} {ps : Program}
    (hS : Stream.Continues (.finish q) S S')
    (h : program (unlimited n) b S = .ok (ps, .finish p)) :
    program (unlimited n') b S' = .ok (ps, .finish q) := by
  have hT : ∀ _ : Unit, (Stream.finish q).Seam := fun _ => Stream.Seam.row q 0
  obtain ⟨u, k, hc⟩ := program_continues hT (Extends.unlimited hT fun _ => hn) (fun _ => hS) h
  have hn : ¬ (Stream.finish q).Absorbs (fun _ => false) k := by
    simp [Stream.Absorbs, Stream.core, Stream.front?]
  have hsep := hc.separate () hn 1
  have hfin : (Stream.finish q).dropSemicolons k = .finish q := by
    cases k <;> rfl
  rw [hfin, program_finish] at hsep
  have hu := hc.rounds
  cases b with
  | zero => exact absurd h exhausted_ne_ok
  | succ b =>
    refine program_mono _ (by omega) (hsep.trans ?_)
    simp [Except.map]

/-- What is put behind a program: a semicolon in front of a second program, or a row of semicolons,
of which the program takes its own. -/
def behindProgram (p : Position) (S₂ : Stream) (e : Position) (n : Nat) : Bool → Stream
  | true => .token ⟨.mark .semicolon, p⟩ S₂
  | false => .row e n

section

variable {S₁ S₂ S : Stream} {p₁ : Program} {p e : Position} {n : Nat}

/-- Two programs behind each other are parsed as one program in one of the ways that a continuation
allows. -/
theorem exists_continuation {b : Nat} {x : Program × Stream}
    (h₁ : program (unlimited (enough S₁)) (enough S₁) S₁ = .ok (p₁, .finish e))
    (h₂ : program (unlimited n) b S₂ = .ok x) (hn : enough S₁ ≤ n)
    (hS : Stream.Continues (.token ⟨.mark .semicolon, p⟩ S₂) S₁ S) :
    ∃ u, Continuation (behindProgram p S₂ e (enough S₁)) (enough S₁) (enough S₁ - 1)
      (fun i => unlimited (if i then n else enough S₁)) p₁
      (fun i => if i then S else S₁.withRow (enough S₁)) u (ownSemicolons S₁) := by
  have hT : ∀ i, (behindProgram p S₂ e (enough S₁) i).Seam := by
    intro i
    cases i with
    | false => exact Stream.Seam.row e _
    | true => exact ⟨.inr (Nat.succ_pos _), program_core (S := S₂) h₂⟩
  have hS' : ∀ i, (behindProgram p S₂ e (enough S₁) i).Continues S₁
      (if i then S else S₁.withRow (enough S₁)) := by
    intro i
    cases i with
    | false => exact (program_ends h₁).withRow _
    | true => exact hS
  have hr : Extends (behindProgram p S₂ e (enough S₁)) (enough S₁) (unlimited (enough S₁))
      fun i => unlimited (if i then n else enough S₁) := by
    refine Extends.unlimited hT fun i => ?_
    cases i with
    | false => exact Nat.le_refl _
    | true => exact hn
  obtain ⟨u, k, hc⟩ := program_continues hT hr hS' h₁
  -- the row of semicolons shows what the program takes
  have hrow : (Stream.row e (enough S₁)).semicolons = enough S₁ := Stream.semicolons_row e _
  have hafter := hc.after false e (Stream.core_row e _) (hrow.symm ▸ hc.taken) (enough S₁)
    (Nat.sub_le _ _)
  have hk : ownSemicolons S₁ = k := by
    rw [← hafter]
    change _ = (Stream.row e (enough S₁)).semicolons - _
    rw [hrow]
    rfl
  exact ⟨u, hk ▸ hc⟩

/-- A program that takes more semicolons than there are goes on with a second program that extends
it. -/
theorem absorbs_behindProgram {m k : Nat} :
    (behindProgram p S₂ e m true).Absorbs (fun _ => false) k ↔
      S₂.core.front?.any Token.Kind.extends_ = true ∧ S₂.semicolons + 1 < k := by
  have hfalse : (behindProgram p S₂ e m true).core.front?.any (fun _ => false) = false := by
    cases (behindProgram p S₂ e m true).core.front? <;> rfl
  have hsemi : (behindProgram p S₂ e m true).semicolons = S₂.semicolons + 1 := rfl
  have hfront : (behindProgram p S₂ e m true).core = S₂.core := rfl
  unfold Stream.Absorbs
  rw [hfalse, hsemi, hfront]
  simp [and_comm]

end

/-- Two programs with a semicolon between them are read one after the other, unless the last
statement of the first takes more semicolons than there are and goes on with the second. -/
theorem parseStream_separated {S₁ S₂ S₂' S : Stream} {p₁ p₂ : Program} {p q : Position}
    (h₁ : parseStream none S₁ = .ok p₁) (h₂ : parseStream none S₂ = .ok p₂)
    (hS₂ : Stream.Continues (.finish q) S₂ S₂')
    (hS : Stream.Continues (.token ⟨.mark .semicolon, p⟩ S₂') S₁ S) :
    parseStream none S = .ok (p₁ ++ p₂) ↔
      (S₂.core.front?.any Token.Kind.extends_ = true → ownSemicolons S₁ ≤ S₂.semicolons + 1) := by
  obtain ⟨e₁, h₁⟩ := parseStream_eq_ok.mp h₁
  obtain ⟨e₂, h₂⟩ := parseStream_eq_ok.mp h₂
  have hn : enough S = enough S₁ + enough S₂ := by
    have hlen := hS.length
    have hlen₂ := hS₂.length
    simp only [Stream.length] at hlen hlen₂
    simp only [enough]
    omega
  have h₂' : program (unlimited (enough S)) (enough S₂) S₂' = .ok (p₂, .finish q) :=
    program_alike (by omega) hS₂ h₂
  obtain ⟨u, hc⟩ := exists_continuation h₁ h₂' (by omega) hS
  have habs : (behindProgram p S₂' e₁ (enough S₁) true).Absorbs (fun _ => false)
      (ownSemicolons S₁) ↔
        S₂.core.front?.any Token.Kind.extends_ = true ∧ S₂.semicolons + 1 < ownSemicolons S₁ := by
    rw [absorbs_behindProgram, hS₂.front_core, hS₂.semicolons]
  rw [parseStream_eq_ok]
  constructor
  · rintro ⟨e, h⟩ hext
    by_contra hlt
    obtain ⟨first, s, s', rest, hp₁, hx, hg⟩ :=
      hc.absorbed true (habs.mpr ⟨hext, by omega⟩) (enough S) _ h
    rw [hp₁, List.append_assoc] at hx
    cases List.append_cancel_left hx
    exact Nat.lt_irrefl _ hg
  · intro hcond
    have hnot : ¬ (behindProgram p S₂' e₁ (enough S₁) true).Absorbs (fun _ => false)
        (ownSemicolons S₁) := by
      rw [habs]
      rintro ⟨hext, hlt⟩
      have := hcond hext
      omega
    have hu := hc.rounds
    have hrest : program (unlimited (enough S)) (enough S - u)
        ((behindProgram p S₂' e₁ (enough S₁) true).dropSemicolons (ownSemicolons S₁)) =
          .ok (p₂, .finish q) := by
      have hT₂ : program (unlimited (enough S)) (enough S₂ + 1)
          (behindProgram p S₂' e₁ (enough S₁) true) = .ok (p₂, .finish q) := h₂'
      have hpos : 0 < enough S₁ := Nat.succ_pos _
      exact program_mono _ (by omega) (program_dropSemicolons hT₂ _)
    have hsep := hc.separate true hnot (enough S - u)
    rw [Nat.sub_add_cancel (by omega)] at hsep
    refine ⟨q, hsep.trans ?_⟩
    simp only [if_true, hrest]
    rfl

end Parser

namespace Stream

theorem Ends.spells {p : Position} {S : Stream} (h : Ends p S) : ∃ ks, Spells ks S := by
  induction h with
  | finish => exact ⟨[], .finish p⟩
  | @token t S _ ih =>
    obtain ⟨ks, hks⟩ := ih
    exact ⟨t.kind :: ks, .token t.kind t.position hks⟩

theorem Spells.continues {ks ls : List Token.Kind} {S S' : Stream} (h : Spells ks S)
    (h' : Spells (ks ++ ls) S') : ∃ T, Spells ls T ∧ Continues T S S' := by
  induction h generalizing S' with
  | finish p => exact ⟨S', h', .finish p⟩
  | token k p _ ih =>
    cases h' with
    | token _ _ rest =>
      obtain ⟨T, hT, hc⟩ := ih rest
      exact ⟨T, hT, .token hc⟩

theorem Spells.alike {ks : List Token.Kind} {S S' : Stream} (h : Spells ks S) (h' : Spells ks S') :
    ∃ q, Continues (.finish q) S S' := by
  have hnil : Spells (ks ++ []) S' := by rwa [List.append_nil]
  obtain ⟨T, hT, hc⟩ := h.continues hnil
  cases hT with
  | finish q => exact ⟨q, hc⟩

end Stream

/-- Whether a semicolon keeps two programs apart: the second one does not start with a call, an
index or a minus, or the semicolons between suffice for the last statement of the first. -/
def Separate (s₁ s₂ : String) : Prop :=
  (Stream.ofText s₂).core.front?.any Token.Kind.extends_ = true →
    Parser.ownSemicolons (Stream.ofText s₁) ≤ (Stream.ofText s₂).semicolons + 1

instance (s₁ s₂ : String) : Decidable (Separate s₁ s₂) :=
  inferInstanceAs (Decidable (_ → _))

/-- Two texts with a semicolon between them are read as one program after the other exactly when
the semicolon keeps them apart. -/
theorem parse_append_iff {s₁ s₂ : String} {p₁ p₂ : Program} (h₁ : parse none s₁ = .ok p₁)
    (h₂ : parse none s₂ = .ok p₂) :
    parse none (s₁ ++ "\n;\n" ++ s₂) = .ok (p₁ ++ p₂) ↔ Separate s₁ s₂ := by
  obtain ⟨e₁, hp₁⟩ := Parser.parseStream_eq_ok.mp h₁
  obtain ⟨e₂, hp₂⟩ := Parser.parseStream_eq_ok.mp h₂
  obtain ⟨ks, hks⟩ := (Parser.program_ends hp₁).spells
  obtain ⟨ls, hls⟩ := (Parser.program_ends hp₂).spells
  have hlexes : Lexer.Lexes (s₁ ++ "\n;\n" ++ s₂).toList (ks ++ .mark .semicolon :: ls) := by
    have hsecond := Lexer.lexes_semicolon.append_newline (Stream.spells_ofText_iff.mp hls)
    simpa using (Stream.spells_ofText_iff.mp hks).append_newline hsecond
  obtain ⟨T, hT, hS⟩ := hks.continues (Stream.spells_ofText_iff.mpr hlexes)
  cases hT with
  | token _ p rest =>
    obtain ⟨q, hq⟩ := hls.alike rest
    exact Parser.parseStream_separated h₁ h₂ hq hS

theorem eq_ok_of_isOk {ε : Type} {x : Except ε Program} (h : x.isOk = true) :
    x = .ok (x.toOption.getD []) := by
  cases x with
  | error e => cases h
  | ok ps => rfl

/-- A function literal without braces takes the semicolon, and what follows becomes its index. -/
theorem parse_append_literal_index :
    parse none ("fn() break" ++ "\n;\n" ++ "[true]") ≠
      .ok ((parse none "fn() break").toOption.getD [] ++ (parse none "[true]").toOption.getD []) := by
  have h₁ : (parse none "fn() break").isOk = true := by decide +kernel
  have h₂ : (parse none "[true]").isOk = true := by decide +kernel
  rw [Ne, parse_append_iff (eq_ok_of_isOk h₁) (eq_ok_of_isOk h₂)]
  decide +kernel

end Scripting
