import Scripting.Proofs.Parser.Reading

/-!
The levels of expressions by number: 0 is assignment, 1 to 6 are the levels that group to the left,
7 are powers, 8 signs, 9 trailers and 10 primaries. What one level reads, every lower level reads as
well, if none of its own operators follows.
-/

namespace Scripting

/-- The level on which a mark goes on with an expression. -/
def Mark.level? : Mark → Option Nat
  | assign => some 0
  | or => some 1
  | and => some 2
  | eq | neq => some 3
  | lt | le | gt | ge => some 4
  | plus | minus | plusPlus => some 5
  | star | slash | percent => some 6
  | caret => some 7
  | lparen | dot | lbracket => some 9
  | _ => none

/-- Whether a token goes on with an expression that is read on a level. A brace goes on with the name
of a record where record literals may stand. -/
def Token.Kind.continues (records : Bool) (level : Nat) : Token.Kind → Bool
  | mark m => m.level?.any (level ≤ ·) || m == .lbrace && records
  | _ => false

namespace Parser

def goesOn (records : Bool) (level : Nat) (k : Option Token.Kind) : Bool :=
  k.any (Token.Kind.continues records level)

/-- What goes on with a level goes on with every lower one. -/
theorem goesOn_mono {records : Bool} {m n : Nat} (h : m ≤ n) (k : Option Token.Kind)
    (hk : goesOn records n k = true) : goesOn records m k = true := by
  cases k with
  | none => exact hk
  | some k =>
    cases k with
    | mark k =>
      simp only [goesOn, Option.any_some, Token.Kind.continues, Bool.or_eq_true] at hk ⊢
      refine hk.imp_left fun hk => ?_
      cases hl : k.level? with
      | none => simp [hl] at hk
      | some l =>
        simp only [hl, Option.any_some, decide_eq_true_eq] at hk ⊢
        omega
    | _ => exact hk

def levelOp? : Nat → Mark → Option BinaryOp
  | 1 => disjunctionOp?
  | 2 => conjunctionOp?
  | 3 => equalityOp?
  | 4 => comparisonOp?
  | 5 => sumOp?
  | 6 => productOp?
  | _ => fun _ => none

/-- The operators of a level go on with its expressions. -/
theorem level?_of_levelOp? {n : Nat} {m : Mark} {op : BinaryOp} (h : levelOp? n m = some op) :
    m.level? = some n := by
  unfold levelOp? at h
  split at h
  case h_7 => cases h
  all_goals cases m <;> first | rfl | cases h

variable (r : Sorts) (records : Bool)

/-- The parser of a level; powers and signs nest at most `bound` deep. -/
def onLevel (bound : Nat) : Nat → Parser Expr
  | 0 => assignment r records
  | 1 => disjunction r records
  | 2 => conjunction r records
  | 3 => equality r records
  | 4 => comparison r records
  | 5 => sum r records
  | 6 => product r records
  | 7 => power r records bound
  | 8 => signed r records bound
  | 9 => trailed r records
  | _ => primary r records

/-- Whether a level reads a loop behind its first operand. -/
def IsLoop (n : Nat) : Prop := 1 ≤ n ∧ n ≤ 6 ∨ n = 9

def loop (n bound : Nat) : Expr → Parser Expr :=
  if n = 9 then trailers r bound else chain (levelOp? n) (onLevel r records r.bound (n + 1)) bound

theorem onLevel_loop {n : Nat} (hn : IsLoop n) (b : Nat) :
    onLevel r records b n = onLevel r records r.bound (n + 1) >>= loop r records n r.bound := by
  have hcases : n = 1 ∨ n = 2 ∨ n = 3 ∨ n = 4 ∨ n = 5 ∨ n = 6 ∨ n = 9 := by
    unfold IsLoop at hn
    omega
  rcases hcases with rfl | rfl | rfl | rfl | rfl | rfl | rfl <;> rfl

variable {r records}

theorem op?_of_halts {n : Nat} {k : Token.Kind} (hk : k.continues records n = false) :
    k.op? (levelOp? n) = none := by
  cases k with
  | mark m =>
    cases hop : levelOp? n m with
    | none => exact hop
    | some op =>
      have hl := level?_of_levelOp? hop
      simp [Token.Kind.continues, hl] at hk
  | _ => rfl

theorem isTrailer_of_halts {k : Token.Kind} (hk : k.continues records 9 = false) :
    k.isTrailer = false := by
  cases k with
  | mark m => cases m <;> first | rfl | simp [Token.Kind.continues, Mark.level?] at hk
  | _ => rfl

/-- A loop ends in front of what does not go on with it. -/
theorem loop_stop {n : Nat} (b : Nat) (e : Expr) {S : Stream} (hS : S.Halts (goesOn records n)) :
    loop r records n (b + 1) e S = .ok (e, S) := by
  unfold loop
  cases S with
  | invalid _ => exact hS.elim
  | finish p => split <;> rfl
  | token t S =>
    obtain ⟨k, p⟩ := t
    split
    · rename_i hn
      subst hn
      exact trailers_stop r b e p S (isTrailer_of_halts hS)
    · exact chain_none b e p S _ _ (op?_of_halts hS)

theorem trailed_ne_ok {m : Mark} (hm : m = .minus ∨ m = .bang) (p : Position) (S : Stream)
    (x : Expr × Stream) : trailed r records (.token ⟨.mark m, p⟩ S) ≠ .ok x := by
  intro h
  obtain ⟨e, S', hprimary, -⟩ := bind_eq_ok h
  rcases hm with rfl | rfl <;> cases hprimary

/-- Where no sign stands, signs are read as trailers. -/
theorem signed_of_trailed {b : Nat} {S : Stream} {x : Expr × Stream}
    (h : trailed r records S = .ok x) : signed r records (b + 1) S = .ok x := by
  rw [signed]
  cases S with
  | invalid _ => cases h
  | finish p => exact h
  | token t S =>
    obtain ⟨k, p⟩ := t
    have hminus : k.isMark .minus = false := by
      cases hk : k.isMark .minus with
      | false => rfl
      | true =>
        rw [Token.Kind.isMark_iff] at hk
        subst hk
        exact absurd h (trailed_ne_ok (.inl rfl) p S x)
    have hbang : k.isMark .bang = false := by
      cases hk : k.isMark .bang with
      | false => rfl
      | true =>
        rw [Token.Kind.isMark_iff] at hk
        subst hk
        exact absurd h (trailed_ne_ok (.inr rfl) p S x)
    rw [bind_of_ok (accept_token k p S .minus)]
    simp only [hminus, Bool.false_eq_true, if_false]
    rw [bind_of_ok (accept_token k p S .bang)]
    simp only [hbang, Bool.false_eq_true, if_false]
    exact h

theorem assigned_of_halts {e : Expr} {S : Stream} (hS : S.Halts (goesOn records 0)) :
    assigned r records e S = .ok (e, S) := by
  cases S with
  | invalid _ => exact hS.elim
  | finish p => rfl
  | token t S =>
    obtain ⟨k, p⟩ := t
    refine assigned_stop r records e p S fun hk => ?_
    subst hk
    exact Bool.noConfusion (show true = false from hS)

variable {place : Position → Prop} {ks : List Token.Kind} {e : Expr}

/-- A level reads the tokens `ks` as `e`. -/
def ReadsOn (place : Position → Prop) (r : Sorts) (records : Bool) (n : Nat)
    (ks : List Token.Kind) (e : Expr) : Prop :=
  ∀ b, ks.length < b → Reads place (goesOn records n) (onLevel r records b n) ks e

/-- What a level reads, the level below it reads. -/
theorem ReadsOn.of_succ {n : Nat} (hn : n ≤ 9) (hbound : ks.length < r.bound)
    (h : ReadsOn place r records (n + 1) ks e) : ReadsOn place r records n ks e := by
  intro b hb S R hS hR
  have hnil : Stream.Begins place R [] R := .nil
  have hok := h r.bound hbound S R hS (hnil.halts hR (goesOn_mono (Nat.le_succ n)))
  obtain ⟨c, hc⟩ : ∃ c, r.bound = c + 1 := ⟨r.bound - 1, by omega⟩
  obtain ⟨b, rfl⟩ : ∃ c, b = c + 1 := ⟨b - 1, by omega⟩
  by_cases hloop : IsLoop n
  · rw [onLevel_loop r records hloop, bind_of_ok hok, hc]
    exact loop_stop c e hR
  · have hcases : n = 0 ∨ n = 7 ∨ n = 8 := by
      unfold IsLoop at hloop
      omega
    rcases hcases with rfl | rfl | rfl
    · change assignment r records S = _
      rw [assignment_eq, bind_of_ok (show disjunction r records S = _ from hok)]
      exact assigned_of_halts hR
    · change power r records (b + 1) S = _
      rw [power, bind_of_ok (show signed r records r.bound S = _ from hok)]
      have hstop : Reads place (goesOn records 7) (pure e) [] e := Reads.pure e
      exact (Reads.accept_nil rfl hstop) R R .nil hR
    · exact signed_of_trailed hok

theorem ReadsOn.of_le {m n : Nat} (hmn : m ≤ n) (hn : n ≤ 10) (hbound : ks.length < r.bound)
    (h : ReadsOn place r records n ks e) : ReadsOn place r records m ks e := by
  induction n with
  | zero =>
    obtain rfl : m = 0 := by omega
    exact h
  | succ n ih =>
    by_cases hm : m = n + 1
    · subst hm
      exact h
    · exact ih (by omega) (by omega) (.of_succ (by omega) hbound h)

/-- A level reads the tokens `ks` as `e` and is then in its loop behind them, with at most one step
less for each token. -/
def Leads (place : Position → Prop) (r : Sorts) (records : Bool) (n : Nat) (ks : List Token.Kind)
    (e : Expr) : Prop :=
  ∀ b S M, ks.length < b → Stream.Begins place M ks S → M.Halts (goesOn records (n + 1)) →
    ∃ b', b ≤ b' + ks.length ∧
      (onLevel r records r.bound (n + 1) >>= loop r records n b) S = loop r records n b' e M

theorem Leads.readsOn {n : Nat} (hn : IsLoop n) (hbound : ks.length < r.bound)
    (h : Leads place r records n ks e) : ReadsOn place r records n ks e := by
  intro b _ S R hS hR
  have hnil : Stream.Begins place R [] R := .nil
  have hnext := hnil.halts hR (goesOn_mono (Nat.le_succ n))
  obtain ⟨b', hb', heq⟩ := h r.bound S R hbound hS hnext
  obtain ⟨c, rfl⟩ : ∃ c, b' = c + 1 := ⟨b' - 1, by omega⟩
  rw [onLevel_loop r records hn, heq]
  exact loop_stop c e hR

theorem ReadsOn.leads {n : Nat} (hbound : ks.length < r.bound)
    (h : ReadsOn place r records (n + 1) ks e) : Leads place r records n ks e := by
  intro b S M hb hS hM
  refine ⟨b, by omega, ?_⟩
  rw [bind_of_ok (h r.bound hbound S M hS hM)]

/-- One more round of the loop. -/
theorem Leads.step {n : Nat} {ls : List Token.Kind} {e' : Expr}
    (h : Leads place r records n ks e) (hls : ls ≠ [])
    (hfollow : Follow (goesOn records (n + 1)) (goesOn records (n + 1)) ls)
    (hstep : ∀ b S M, Stream.Begins place M ls S → M.Halts (goesOn records (n + 1)) →
      loop r records n (b + 1) e S = loop r records n b e' M) :
    Leads place r records n (ks ++ ls) e' := by
  intro b S M hb hS hM
  obtain ⟨M', hks, hM'⟩ := hS.append
  have hpos : 0 < ls.length := List.length_pos_iff.mpr hls
  rw [List.length_append] at hb ⊢
  obtain ⟨b', hb', heq⟩ := h b S M' (by omega) hks (hM'.halts hM hfollow)
  obtain ⟨c, rfl⟩ : ∃ c, b' = c + 1 := ⟨b' - 1, by omega⟩
  refine ⟨c, by omega, ?_⟩
  rw [heq, hstep c M' M hM' hM]

end Parser

end Scripting
