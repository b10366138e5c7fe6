import Scripting.Proofs.Parser.Errors
import Scripting.Proofs.Parser.Headers
import Scripting.Proofs.Parser.Levels
import Scripting.Proofs.Parser.Separation
import Scripting.Proofs.Printer.Tokens

/-!
The parser hands every token on. The literals, names and operators of a text are, each as often as
it stands there, those of its program and the types that are noted without a meaning.

Each parser gives the pieces that it takes to what it makes. The types of notes are not made into
anything, so they are taken away from the worth of a stream as soon as their `let`, `const` or `fn`
comes up.
-/

namespace Scripting

/-- What programs are made of: literals, names and operators. -/
inductive Piece where
  | number (value : Float)
  | text (value : String)
  | bool (value : Bool)
  | name (name : Name)
  | operator (mark : Mark)

def Mark.isOperator : Mark → Bool
  | assign | plus | plusPlus | minus | star | slash | percent | caret | bang | eq | neq | lt | le
  | gt | ge | and | or => true
  | _ => false

def Token.Kind.piece? : Token.Kind → Option Piece
  | number x => some (.number x)
  | text s => some (.text s)
  | keyword .true_ => some (.bool true)
  | keyword .false_ => some (.bool false)
  | name n => some (.name (.text n))
  | mark m => if m.isOperator then some (.operator m) else none
  | _ => none

namespace Material

def ofTokens (ts : List Token) : List Piece := ts.filterMap fun t => t.kind.piece?

/-- The type that is noted for what a token declares, where `ts` are the tokens behind it. -/
def noted? (k : Token.Kind) (ts : List Token) : Option String :=
  match k, ts with
  | .keyword .let_, ⟨.name _, _⟩ :: rest | .keyword .const, ⟨.name _, _⟩ :: rest =>
    Header.note? rest
  | .keyword .fn, ts => (Header.split? ts).bind fun (_, rest) => Header.note? rest
  | _, _ => none

def ofNote (n : Option String) : List Piece := (n.map fun n => Piece.name (.text n)).toList

def notes : List Token → List Piece
  | [] => []
  | t :: ts => ofNote (noted? t.kind ts) ++ notes ts

def ofPath : Name → Piece
  | .text s => .text s
  | n => .name n

mutual

@[simp] def ofExpr : Expr → List Piece
  | .number x => [.number x]
  | .bool b => [.bool b]
  | .text s => [.text s]
  | .name n => [.name n]
  | .binary l op r => ofExpr l ++ .operator op.mark :: ofExpr r
  | .unary op e => .operator op.mark :: ofExpr e
  | .call f args => ofExpr f ++ ofExprs args
  | .assign n e => .name n :: .operator .assign :: ofExpr e
  | .block ss => ofStmts ss
  | .lambda ps body => ps.map .name ++ ofStmts body
  | .list es | .tuple es => ofExprs es
  | .dict ps => ofPairs ps
  | .field e n => ofExpr e ++ [.name n]
  | .index e i => ofExpr e ++ ofExpr i
  | .record n fs => .name n :: ofFields fs
  | .datum _ | .invalid _ | .stray _ => []

@[simp] def ofExprs : List Expr → List Piece
  | [] => []
  | e :: es => ofExpr e ++ ofExprs es

@[simp] def ofPairs : List (Expr × Expr) → List Piece
  | [] => []
  | (k, v) :: ps => ofExpr k ++ ofExpr v ++ ofPairs ps

@[simp] def ofFields : List (Name × Expr) → List Piece
  | [] => []
  | (n, e) :: fs => .name n :: ofExpr e ++ ofFields fs

@[simp] def ofStmt : Stmt → List Piece
  | .expr e => ofExpr e
  | .let_ n e | .const n e => .name n :: .operator .assign :: ofExpr e
  | .function n ps body => .name n :: ps.map .name ++ ofStmts body
  | .return_ none => []
  | .return_ (some e) => ofExpr e
  | .if_ c t e => ofExpr c ++ ofStmts t ++ ofOtherwise e
  | .while_ c body => ofExpr c ++ ofStmts body
  | .for_ n a b body => .name n :: ofExpr a ++ ofExpr b ++ ofStmts body
  | .import_ path => [ofPath path]
  | .block ss => ofStmts ss
  | .break_ | .continue_ => []
  | .print e => ofExpr e
  | .printAll es => ofExprs es
  | .type n fs ms => .name n :: ofFields fs ++ ofStmts ms
  | .invalid _ | .stray _ => []

@[simp] def ofOtherwise : Option (List Stmt) → List Piece
  | none => []
  | some ss => ofStmts ss

@[simp] def ofStmts : List Stmt → List Piece
  | [] => []
  | s :: ss => ofStmt s ++ ofStmts ss

end

theorem piece?_mark (op : BinaryOp) :
    (Token.Kind.mark op.mark).piece? = some (.operator op.mark) := by
  cases op <;> rfl

/-- Every piece is worth something; rows of pieces are worth the sum. -/
def worth (v : Piece → Int) : List Piece → Int
  | [] => 0
  | p :: ps => v p + worth v ps

section Worth

variable {v : Piece → Int}

@[simp] theorem worth_nil : worth v [] = 0 := rfl

@[simp] theorem worth_cons (p : Piece) (ps : List Piece) :
    worth v (p :: ps) = v p + worth v ps := rfl

@[simp] theorem worth_append (ps qs : List Piece) :
    worth v (ps ++ qs) = worth v ps + worth v qs := by
  induction ps with
  | nil => exact (Int.zero_add _).symm
  | cons p ps ih => rw [List.cons_append, worth_cons, worth_cons, ih, Int.add_assoc]

end Worth

/-- Rows of pieces with the same worth, whatever the pieces are worth, have the same pieces. -/
theorem perm_of_worth {ps qs : List Piece} (h : ∀ v, worth v ps = worth v qs) : ps.Perm qs := by
  classical
  have hcount : ∀ (x : Piece) (rs : List Piece),
      worth (fun y => if y = x then 1 else 0) rs = rs.count x := by
    intro x rs
    induction rs with
    | nil => rfl
    | cons y rs ih =>
      rw [worth_cons, ih, List.count_cons]
      by_cases hy : y = x
      · simp [hy, Int.add_comm]
      · simp [hy]
  rw [List.perm_iff_count]
  intro x
  have hx := h fun y => if y = x then 1 else 0
  rw [hcount, hcount] at hx
  exact Int.ofNat_inj.mp hx

end Material

/-- What is left of a stream is worth its pieces without the notes that are still to come. -/
def Stream.worth (v : Piece → Int) (S : Stream) : Int :=
  Material.worth v (Material.ofTokens S.lexed) - Material.worth v (Material.notes S.lexed)

/-- Whether a token declares something for which a type may be noted. -/
def Token.Kind.declares : Token.Kind → Bool
  | keyword .let_ | keyword .const | keyword .fn => true
  | _ => false

namespace Parser

open Material

variable {α β : Type} {v : Piece → Int}

def tokenWorth (v : Piece → Int) (k : Token.Kind) : Int := worth v k.piece?.toList

theorem tokenWorth_some {k : Token.Kind} {x : Piece} (h : k.piece? = some x) :
    tokenWorth v k = v x := by
  rw [tokenWorth, h, Option.toList_some, worth_cons, worth_nil, Int.add_zero]

theorem tokenWorth_none {k : Token.Kind} (h : k.piece? = none) : tokenWorth v k = 0 := by
  rw [tokenWorth, h, Option.toList_none, worth_nil]

theorem worth_token (k : Token.Kind) (p : Position) (S : Stream) :
    (Stream.token ⟨k, p⟩ S).worth v =
      tokenWorth v k - worth v (ofNote (noted? k S.lexed)) + S.worth v := by
  have hpieces : ofTokens (Stream.token ⟨k, p⟩ S).lexed = k.piece?.toList ++ ofTokens S.lexed := by
    simp only [Stream.lexed, ofTokens, List.filterMap_cons]
    cases k.piece? <;> rfl
  have hnotes : notes (Stream.token ⟨k, p⟩ S).lexed =
      ofNote (noted? k S.lexed) ++ notes S.lexed := rfl
  rw [Stream.worth, hpieces, hnotes, worth_append, worth_append, Stream.worth, tokenWorth]
  omega

theorem noted?_of_not_declares {k : Token.Kind} (h : k.declares = false) (ts : List Token) :
    noted? k ts = none := by
  unfold noted?
  split
  · cases h
  · cases h
  · cases h
  · rfl

theorem worth_token_plain {k : Token.Kind} (h : k.declares = false) (p : Position) (S : Stream) :
    (Stream.token ⟨k, p⟩ S).worth v = tokenWorth v k + S.worth v := by
  rw [worth_token, noted?_of_not_declares h]
  simp [ofNote]

/-- What a parser takes is worth `m` of what it makes. -/
def Conserves (v : Piece → Int) (m : α → Int) (p : Parser α) : Prop :=
  ∀ S a R, p S = .ok (a, R) → S.worth v = m a + R.worth v

/-- The same for a parser that stands in front of a given token, or of none. -/
def ConservesAt (v : Piece → Int) (k : Option Token.Kind) (m : α → Int) (p : Parser α) : Prop :=
  ∀ S a R, S.front? = k → p S = .ok (a, R) → S.worth v = m a + R.worth v

theorem Conserves.front {m : α → Int} {p : Parser α} (h : Conserves v m p)
    (k : Option Token.Kind) : ConservesAt v k m p := fun S a R _ => h S a R

theorem Conserves.pure {m : α → Int} {a : α} (h : m a = 0) : Conserves v m (pure a) := by
  intro S b R hb
  cases hb
  omega

theorem Conserves.congr {m n : α → Int} {p : Parser α} (h : Conserves v m p)
    (hm : ∀ a, m a = n a) : Conserves v n p := funext hm ▸ h

/-- Nothing is owed for a token that is worth nothing. -/
theorem Conserves.less {m : α → Int} {p : Parser α} (h : Conserves v m p) {k : Token.Kind}
    (hk : k.piece? = none) : Conserves v (fun a => m a - tokenWorth v k) p := by
  simpa [tokenWorth_none hk] using h

theorem Conserves.pure_zero {a : α} : Conserves v (fun _ => 0) (Pure.pure a) := .pure rfl

theorem Conserves.exhausted {m : α → Int} : Conserves v m exhausted :=
  fun _ _ _ h => absurd h exhausted_ne_ok

theorem Conserves.refuse {m : α → Int} (w : Wanted) : Conserves v m (refuse w) :=
  fun _ _ _ h => absurd h refuse_ne_ok

theorem Conserves.fault {m : α → Int} (f : SyntaxFault) (p : Position) :
    Conserves v m (fault f p) := fun _ _ _ h => by cases h

theorem ConservesAt.bind {k : Option Token.Kind} {m : α → Int} {n : β → Int} {p : Parser α}
    {f : α → Parser β} (hp : ConservesAt v k m p)
    (hf : ∀ a, Conserves v (fun b => n b - m a) (f a)) : ConservesAt v k n (p >>= f) := by
  intro S b R hk h
  obtain ⟨a, S₁, ha, hb⟩ := bind_eq_ok h
  have hfirst : S.worth v = m a + S₁.worth v := hp S a S₁ hk ha
  have hrest : S₁.worth v = n b - m a + R.worth v := hf a S₁ b R hb
  omega

theorem Conserves.bind {m : α → Int} {n : β → Int} {p : Parser α} {f : α → Parser β}
    (hp : Conserves v m p) (hf : ∀ a, Conserves v (fun b => n b - m a) (f a)) :
    Conserves v n (p >>= f) := fun S b R h => (hp.front S.front?).bind hf S b R rfl h

/-- A parser that only looks, or that takes what is worth nothing. -/
theorem Conserves.bind_zero {n : β → Int} {p : Parser α} {f : α → Parser β}
    (hp : Conserves v (fun _ => 0) p) (hf : ∀ a, Conserves v n (f a)) : Conserves v n (p >>= f) :=
  hp.bind fun a S b R h => by
    have hrest := hf a S b R h
    simpa using hrest

theorem Conserves.ite {m : α → Int} {c : Bool} {p q : Parser α} (hp : Conserves v m p)
    (hq : Conserves v m q) : Conserves v m (if c then p else q) := by
  cases c
  · exact hq
  · exact hp

/-- Behind a look, the front is known. -/
theorem Conserves.look_bind {m : α → Int} {f : Option Token → Parser α}
    (h : ∀ t, ConservesAt v (t.map Token.kind) m (f t)) : Conserves v m (look >>= f) := by
  intro S a R ha
  cases S with
  | token t rest => exact h (some t) _ a R rfl ha
  | finish p => exact h none _ a R rfl ha
  | invalid e => cases ha

theorem Conserves.lookKind_bind {m : α → Int} {f : Option Token.Kind → Parser α}
    (h : ∀ k, ConservesAt v k m (f k)) : Conserves v m (lookKind >>= f) := by
  intro S a R ha
  cases S with
  | token t rest => exact h (some t.kind) _ a R rfl ha
  | finish p => exact h none _ a R rfl ha
  | invalid e => cases ha

theorem ConservesAt.advance_bind {k : Token.Kind} {m : α → Int} {f : Unit → Parser α}
    (hk : k.declares = false) (h : Conserves v (fun a => m a - tokenWorth v k) (f ())) :
    ConservesAt v (some k) m (advance >>= f) := by
  intro S a R hS ha
  cases S with
  | token t rest =>
    obtain ⟨k', p⟩ := t
    obtain rfl : k' = k := Option.some.inj hS
    have hrest : rest.worth v = m a - tokenWorth v k' + R.worth v := h rest a R ha
    rw [worth_token_plain hk]
    omega
  | finish p => cases hS
  | invalid e => cases hS

theorem Conserves.atMark (m : Mark) : Conserves v (fun _ => 0) (atMark m) := by
  intro S b R h
  obtain ⟨rfl, -⟩ := atMark_eq_ok h
  exact (Int.zero_add _).symm

theorem Conserves.atKeyword (w : Keyword) : Conserves v (fun _ => 0) (atKeyword w) := by
  refine Conserves.lookKind_bind fun k => ?_
  split <;> exact Conserves.pure_zero.front _

theorem Conserves.atFunction : Conserves v (fun _ => 0) atFunction := by
  intro S b R h
  unfold Parser.atFunction at h
  split at h <;> cases h <;> exact (Int.zero_add _).symm

theorem Conserves.atStatement : Conserves v (fun _ => 0) atStatement := by
  refine Conserves.lookKind_bind fun k => ?_
  split
  · exact (Conserves.pure_zero.ite Conserves.atFunction).front _
  · exact Conserves.pure_zero.front _

theorem Conserves.accept_bind {m : Mark} {n : β → Int} {f : Bool → Parser β}
    (ht : Conserves v (fun b => n b - tokenWorth v (.mark m)) (f true))
    (hf : Conserves v n (f false)) : Conserves v n (accept m >>= f) := by
  intro S b R h
  obtain ⟨c, S₁, hc, hb⟩ := bind_eq_ok h
  rcases accept_eq_ok hc with ⟨rfl, p, rfl⟩ | ⟨rfl, rfl⟩
  · have hrest : S₁.worth v = n b - tokenWorth v (.mark m) + R.worth v := ht _ _ _ hb
    rw [worth_token_plain rfl]
    omega
  · exact hf _ _ _ hb

theorem Conserves.acceptKeyword_bind {n : β → Int} {f : Bool → Parser β}
    (ht : Conserves v n (f true)) (hf : Conserves v n (f false)) :
    Conserves v n (acceptKeyword .else_ >>= f) := by
  intro S b R h
  obtain ⟨c, S₁, hc, hb⟩ := bind_eq_ok h
  rcases acceptKeyword_eq_ok hc with ⟨rfl, p, rfl⟩ | ⟨rfl, rfl⟩
  · have hrest := ht _ _ _ hb
    have hworth : tokenWorth v (.keyword .else_) = 0 := rfl
    rw [worth_token_plain rfl]
    omega
  · exact hf _ _ _ hb

theorem Conserves.expect (m : Mark) : Conserves v (fun _ => tokenWorth v (.mark m)) (expect m) := by
  intro S p R h
  rw [expect_eq_ok h, worth_token_plain rfl]

/-- A mark that is no operator is worth nothing. -/
theorem Conserves.expect_bind {m : Mark} (hm : m.isOperator = false) {n : β → Int}
    {f : Position → Parser β} (hf : ∀ p, Conserves v n (f p)) :
    Conserves v n (Parser.expect m >>= f) := by
  refine Conserves.bind_zero (fun S p R h => ?_) hf
  have hworth : tokenWorth v (.mark m) = 0 := tokenWorth_none (by simp [Token.Kind.piece?, hm])
  rw [expect_eq_ok h, worth_token_plain rfl, hworth]

theorem Conserves.expectName (w : Wanted) :
    Conserves v (fun n => v (.name (.text n))) (expectName w) := by
  intro S n R h
  obtain ⟨p, rfl⟩ := expectName_eq_ok h
  rw [worth_token_plain rfl, tokenWorth_some rfl]

theorem Conserves.expectText : Conserves v (fun s => v (.text s)) expectText := by
  intro S n R h
  obtain ⟨p, rfl⟩ := expectText_eq_ok h
  rw [worth_token_plain rfl, tokenWorth_some rfl]

theorem Conserves.endStatement : Conserves v (fun _ => 0) endStatement :=
  Conserves.accept_bind (.pure rfl) (.pure rfl)

/-- A type note is worth the type. -/
theorem worth_typeNote {S R : Stream} (h : typeNote S = .ok ((), R)) :
    S.worth v = worth v (ofNote (Header.note? S.lexed)) + R.worth v := by
  obtain ⟨colon, S₁, hcolon, h⟩ := bind_eq_ok h
  cases S with
  | invalid e => cases hcolon
  | finish p =>
    cases hcolon
    cases h
    exact (Int.zero_add _).symm
  | token t rest =>
    obtain ⟨k, p⟩ := t
    by_cases hk : k = .mark .colon
    · subst hk
      have hworth : tokenWorth v (.mark .colon) = 0 := rfl
      rw [worth_token_plain rfl, hworth]
      cases hcolon
      cases S₁ with
      | invalid e => cases h
      | finish q =>
        cases h
        rfl
      | token t S₂ =>
        obtain ⟨k, q⟩ := t
        cases k with
        | name n =>
          cases h
          rw [worth_token_plain rfl]
          simp [tokenWorth, Token.Kind.piece?, Stream.lexed, Header.note?, ofNote]
        | _ =>
          cases h
          simp [Stream.lexed, Header.note?, ofNote]
    · have hnote : Header.note? (Stream.token ⟨k, p⟩ rest).lexed = none := by
        simp only [Stream.lexed]
        unfold Header.note?
        split
        · rename_i heq
          exact absurd (congrArg Token.kind (List.cons.inj heq).1) hk
        · rfl
      have hmark : k.isMark .colon = false :=
        Bool.eq_false_iff.mpr fun h => hk (Token.Kind.isMark_iff.mp h)
      rw [accept_token, hmark] at hcolon
      cases hcolon
      cases h
      rw [hnote]
      exact (Int.zero_add _).symm

theorem Conserves.paramsRest (b : Nat) :
    Conserves v (fun ps => worth v (ps.map .name)) (paramsRest b) := by
  induction b with
  | zero => exact .exhausted
  | succ b ih =>
    refine (Conserves.atMark _).bind_zero fun _ => .ite (.pure rfl) ?_
    refine (Conserves.expectName _).bind fun p => Conserves.accept_bind ?_ ?_
    · exact ih.bind fun ps => .pure (by
        rw [List.map_cons, worth_cons, tokenWorth_none rfl]
        omega)
    · exact (Conserves.atMark _).bind_zero fun _ => .ite (.pure (by simp)) (.refuse _)

theorem Conserves.params (b : Nat) :
    Conserves v (fun ps => worth v (ps.map .name)) (params b) :=
  Conserves.expect_bind rfl fun _ => (Conserves.paramsRest b).bind fun _ =>
    Conserves.expect_bind rfl fun _ => .pure (by omega)

/-- The header behind `fn` is worth what it names. -/
theorem worth_fn {p : Position} {S S₁ S₂ : Stream} {n : Option String}
    (hsplit : Header.split? S.lexed = some (n, S₁.lexed)) (hnote : typeNote S₁ = .ok ((), S₂)) :
    (Stream.token ⟨.keyword .fn, p⟩ S).worth v = S.worth v - S₁.worth v + S₂.worth v := by
  have hworth : tokenWorth v (.keyword .fn) = 0 := rfl
  have hnoted : noted? (.keyword .fn) S.lexed = Header.note? S₁.lexed := by
    simp [noted?, hsplit]
  rw [worth_token, hworth, hnoted, worth_typeNote hnote]
  omega

theorem Conserves.signature (b : Nat) :
    Conserves v (fun x => v (.name (.text x.1)) + worth v (x.2.map .name)) (signature b) := by
  intro S x R h
  obtain ⟨q, p, S₁, S₂, rfl, hps, hnote⟩ := signature_eq_ok h
  have hsplit : Header.split? (Stream.token ⟨.name x.1, p⟩ S₁).lexed =
      some (some x.1, S₂.lexed) := by
    simp [Stream.lexed, Header.split?, params_lexed hps]
  have hworth : S₁.worth v = worth v (x.2.map .name) + S₂.worth v :=
    Conserves.params b S₁ x.2 S₂ hps
  rw [worth_fn hsplit hnote, worth_token_plain rfl, tokenWorth_some rfl]
  simp only
  omega

theorem Conserves.literalHead (b : Nat) :
    Conserves v (fun ps => worth v (ps.map .name)) (literalHead b) := by
  intro S ps R h
  obtain ⟨q, S₁, S₂, rfl, hps, hnote⟩ := literalHead_eq_ok h
  have hworth : S₁.worth v = worth v (ps.map .name) + S₂.worth v := Conserves.params b S₁ ps S₂ hps
  rw [worth_fn (Header.split?_of_pastParams? (params_lexed hps)) hnote]
  simp only
  omega

/-- Each level takes its operators from their marks. -/
theorem mark_of_levelOp? {l : Nat} {m : Mark} {op : BinaryOp} (h : levelOp? l m = some op) :
    op.mark = m := by
  unfold levelOp? at h
  split at h
  case h_7 => cases h
  all_goals cases m <;> cases h <;> rfl

structure Conserving (v : Piece → Int) (r : Sorts) : Prop where
  expression : ∀ records, Conserves v (fun e => worth v (ofExpr e)) (r.expression records)
  statement : Conserves v (fun s => worth v (ofStmt s)) r.statement

section Sorts

variable {r : Sorts} (hr : Conserving v r)
include hr

theorem Conserves.statements (b : Nat) :
    Conserves v (fun ss => worth v (ofStmts ss)) (statements r b) := by
  induction b with
  | zero => exact .exhausted
  | succ b ih =>
    refine Conserves.lookKind_bind fun k => ?_
    split
    · exact Conserves.front (.pure (by rfl)) _
    · exact Conserves.front (.pure (by rfl)) _
    · exact .advance_bind rfl (ih.less rfl)
    · exact Conserves.front (hr.statement.bind fun s => ih.bind fun ss => .pure (by
        simp only [ofStmts, worth_append]
        omega)) _

theorem Conserves.braced : Conserves v (fun x => worth v (ofStmts x.1)) (braced r) :=
  Conserves.expect_bind rfl fun _ => (Conserves.statements hr _).bind fun _ =>
    Conserves.expect_bind rfl fun _ => .pure (by simp)

theorem Conserves.block : Conserves v (fun ss => worth v (ofStmts ss)) (block r) :=
  (Conserves.braced hr).bind fun _ => .pure (by omega)

theorem Conserves.functionBody (name : String) :
    Conserves v (fun ss => worth v (ofStmts ss)) (functionBody r name) := by
  refine (Conserves.braced hr).bind fun x => Conserves.bind_zero ?_ fun _ => .pure (by omega)
  unfold checkLength
  split
  · exact .pure_zero
  · dsimp only
    split
    · exact .fault _ _
    · exact .pure_zero

theorem Conserves.expressions (c : Mark) (b : Nat) :
    Conserves v (fun es => worth v (ofExprs es)) (expressions r c b) := by
  induction b with
  | zero => exact .exhausted
  | succ b ih =>
    refine (Conserves.atMark _).bind_zero fun _ => .ite (.pure rfl) ?_
    refine (hr.expression _).bind fun e => Conserves.accept_bind ?_ ?_
    · exact Conserves.less (ih.bind fun es => .pure (by
        simp only [ofExprs, worth_append]
        omega)) rfl
    · exact .pure (by simp [ofExprs])

theorem Conserves.recordFields (b : Nat) :
    Conserves v (fun fs => worth v (ofFields fs)) (recordFields r b) := by
  induction b with
  | zero => exact .exhausted
  | succ b ih =>
    refine (Conserves.atMark _).bind_zero fun _ => .ite (.pure rfl) ?_
    refine (Conserves.expectName _).bind fun n => Conserves.expect_bind rfl fun _ => ?_
    refine (hr.expression _).bind fun e => Conserves.accept_bind ?_ ?_
    · exact Conserves.less (ih.bind fun fs => .pure (by
        simp only [ofFields, worth_cons, worth_append]
        omega)) rfl
    · exact .pure (by simp only [ofFields, worth_cons, worth_append, worth_nil]; omega)

theorem Conserves.commaExpressions (b : Nat) :
    Conserves v (fun es => worth v (ofExprs es)) (commaExpressions r b) := by
  induction b with
  | zero => exact .exhausted
  | succ b ih =>
    refine Conserves.accept_bind (.less ?_ rfl) (.pure rfl)
    exact (hr.expression _).bind fun e => ih.bind fun es => .pure (by
      simp only [ofExprs, worth_append]
      omega)

theorem Conserves.commaPairs (b : Nat) :
    Conserves v (fun ps => worth v (ofPairs ps)) (commaPairs r b) := by
  induction b with
  | zero => exact .exhausted
  | succ b ih =>
    refine Conserves.accept_bind (.less ?_ rfl) (.pure rfl)
    refine (Conserves.atMark _).bind_zero fun _ => .ite (.pure rfl) ?_
    exact (hr.expression _).bind fun k => Conserves.expect_bind rfl fun _ =>
      (hr.expression _).bind fun e => ih.bind fun ps => .pure (by
        simp only [ofPairs, worth_append]
        omega)

theorem Conserves.group : Conserves v (fun e => worth v (ofExpr e)) (group r) := by
  refine Conserves.expect_bind rfl fun _ => (hr.expression _).bind fun e => ?_
  refine (Conserves.commaExpressions hr _).bind fun es => ?_
  split
  · exact Conserves.expect_bind rfl fun _ => .pure (by simp [ofExprs])
  · exact Conserves.expect_bind rfl fun _ => .pure (by
      simp only [ofExpr, ofExprs, worth_append]
      omega)

theorem Conserves.list : Conserves v (fun e => worth v (ofExpr e)) (list r) :=
  Conserves.expect_bind rfl fun _ => (Conserves.expressions hr _ _).bind fun es =>
    Conserves.expect_bind rfl fun _ => .pure (by simp [ofExpr])

theorem Conserves.record (type : String) :
    Conserves v (fun e => worth v (ofExpr e) - v (.name (.text type))) (record r type) :=
  Conserves.expect_bind rfl fun _ => (Conserves.recordFields hr _).bind fun fs =>
    Conserves.expect_bind rfl fun _ => .pure (by simp only [ofExpr, worth_cons]; omega)

theorem Conserves.brace : Conserves v (fun e => worth v (ofExpr e)) (brace r) := by
  refine Conserves.expect_bind rfl fun _ => Conserves.accept_bind (.less (.pure (by rfl)) rfl) ?_
  refine Conserves.atStatement.bind_zero fun _ => .ite ?_ ?_
  · exact (Conserves.statements hr _).bind fun ss => Conserves.expect_bind rfl fun _ =>
      .pure (by simp [ofExpr])
  · refine (hr.expression _).bind fun e => Conserves.accept_bind (.less ?_ rfl) ?_
    · exact (hr.expression _).bind fun e' => (Conserves.commaPairs hr _).bind fun ps =>
        Conserves.expect_bind rfl fun _ => .pure (by
          simp only [ofExpr, ofPairs, worth_append]
          omega)
    · exact Conserves.endStatement.bind_zero fun _ => (Conserves.statements hr _).bind fun ss =>
        Conserves.expect_bind rfl fun _ => .pure (by
          simp only [ofExpr, ofStmts, ofStmt, worth_append]
          omega)

theorem Conserves.function : Conserves v (fun s => worth v (ofStmt s)) (function r) := by
  rw [function_eq]
  exact (Conserves.signature _).bind fun x => (Conserves.functionBody hr _).bind fun body =>
    .pure (by simp only [ofStmt, worth_cons, worth_append]; omega)

theorem Conserves.lambda : Conserves v (fun e => worth v (ofExpr e)) (lambda r) := by
  rw [lambda_eq]
  refine (Conserves.literalHead _).bind fun ps => (Conserves.atMark _).bind_zero fun _ => .ite ?_ ?_
  · exact (Conserves.functionBody hr _).bind fun body => .pure (by
      simp only [ofExpr, worth_append]
      omega)
  · exact hr.statement.bind fun s => .pure (by
      simp only [ofExpr, ofStmts, worth_append, worth_nil]
      omega)

omit hr in
theorem ConservesAt.literal {k : Token.Kind} {x : Piece} {e : Expr} (hk : k.declares = false)
    (hx : k.piece? = some x) (he : ofExpr e = [x]) :
    ConservesAt v (some k) (fun e => worth v (ofExpr e)) (advance >>= fun _ => Pure.pure e) :=
  .advance_bind hk (.pure (by rw [he, tokenWorth_some hx, worth_cons, worth_nil]; omega))

/-- A primary is made of all that it takes. -/
theorem Conserves.primary (records : Bool) :
    Conserves v (fun e => worth v (ofExpr e)) (primary r records) := by
  refine Conserves.lookKind_bind fun k => ?_
  split
  · exact .literal rfl rfl (by rw [ofExpr])
  · exact .literal rfl rfl (by rw [ofExpr])
  · exact .literal rfl rfl (by rw [ofExpr])
  · exact .literal rfl rfl (by rw [ofExpr])
  · rename_i n
    have hname : tokenWorth v (.name n) = v (.name (.text n)) := tokenWorth_some rfl
    refine .advance_bind rfl ?_
    simp only [hname]
    refine .ite ((Conserves.atMark _).bind_zero fun _ => .ite ?_ ?_) ?_
    · exact Conserves.record hr n
    · exact .pure (by simp [ofExpr])
    · exact .pure (by simp [ofExpr])
  · exact (Conserves.group hr).front _
  · exact (Conserves.list hr).front _
  · exact (Conserves.brace hr).front _
  · exact (Conserves.lambda hr).front _
  · exact (Conserves.refuse _).front _

theorem Conserves.trailers (b : Nat) (e : Expr) :
    Conserves v (fun e' => worth v (ofExpr e') - worth v (ofExpr e)) (trailers r b e) := by
  induction b generalizing e with
  | zero => exact .exhausted
  | succ b ih =>
    refine Conserves.lookKind_bind fun k => ?_
    split
    · refine .advance_bind rfl (.less ?_ rfl)
      refine (Conserves.expressions hr _ _).bind fun args => Conserves.expect_bind rfl fun _ => ?_
      exact (ih (.call e args)).congr fun _ => by simp only [ofExpr, worth_append]; omega
    · refine .advance_bind rfl (.less ?_ rfl)
      refine (Conserves.expectName _).bind fun n => ?_
      exact (ih (.field e (.text n))).congr fun _ => by
        simp only [ofExpr, worth_cons, worth_append, worth_nil]
        omega
    · refine .advance_bind rfl (.less ?_ rfl)
      refine (hr.expression _).bind fun i => Conserves.expect_bind rfl fun _ => ?_
      exact (ih (.index e i)).congr fun _ => by simp only [ofExpr, worth_append]; omega
    · exact Conserves.front (.pure (by simp)) _

theorem Conserves.signed (records : Bool) (b : Nat) :
    Conserves v (fun e => worth v (ofExpr e)) (signed r records b) := by
  induction b with
  | zero => exact .exhausted
  | succ b ih =>
    have hminus : tokenWorth v (.mark .minus) = v (.operator .minus) := tokenWorth_some rfl
    have hbang : tokenWorth v (.mark .bang) = v (.operator .bang) := tokenWorth_some rfl
    refine Conserves.accept_bind ?_ (Conserves.accept_bind ?_ ?_)
    · exact ih.bind fun e => .pure (by simp only [ofExpr, hminus, UnaryOp.mark, worth_cons]; omega)
    · exact ih.bind fun e => .pure (by simp only [ofExpr, hbang, UnaryOp.mark, worth_cons]; omega)
    · exact (Conserves.primary hr records).bind fun e => Conserves.trailers hr _ e

theorem Conserves.power (records : Bool) (b : Nat) :
    Conserves v (fun e => worth v (ofExpr e)) (power r records b) := by
  induction b with
  | zero => exact .exhausted
  | succ b ih =>
    have hcaret : tokenWorth v (.mark .caret) = v (.operator .caret) := tokenWorth_some rfl
    refine (Conserves.signed hr records _).bind fun e => Conserves.accept_bind ?_ ?_
    · exact ih.bind fun e' => .pure (by
        simp only [ofExpr, hcaret, BinaryOp.mark, worth_cons, worth_append]
        omega)
    · exact .pure (by simp)

omit hr in
/-- The operators of a level and its operands are all that it takes. -/
theorem Conserves.level (l : Nat) {operand : Parser Expr}
    (ho : Conserves v (fun e => worth v (ofExpr e)) operand) :
    Conserves v (fun e => worth v (ofExpr e)) (level r (levelOp? l) operand) := by
  refine ho.bind fun e => ?_
  generalize r.bound = b
  induction b generalizing e with
  | zero => exact .exhausted
  | succ b ih =>
    refine Conserves.lookKind_bind fun k => ?_
    split
    · rename_i m
      split
      · rename_i op hm
        obtain rfl := mark_of_levelOp? hm
        have hmark : tokenWorth v (.mark op.mark) = v (.operator op.mark) :=
          tokenWorth_some (piece?_mark op)
        refine .advance_bind rfl (ho.bind fun e' => (ih (.binary e op e')).congr fun _ => ?_)
        simp only [ofExpr, hmark, worth_append, worth_cons]
        omega
      · exact Conserves.front (.pure (by simp)) _
    · exact Conserves.front (.pure (by simp)) _

theorem Conserves.disjunction (records : Bool) :
    Conserves v (fun e => worth v (ofExpr e)) (disjunction r records) := by
  have hproduct : Conserves v (fun e => worth v (ofExpr e)) (product r records) :=
    .level 6 (Conserves.power hr records _)
  have hequality : Conserves v (fun e => worth v (ofExpr e)) (equality r records) :=
    .level 3 (.level 4 (.level 5 hproduct))
  exact .level 1 (.level 2 hequality)

theorem Conserves.assignment (records : Bool) :
    Conserves v (fun e => worth v (ofExpr e)) (assignment r records) := by
  have hassign : tokenWorth v (.mark .assign) = v (.operator .assign) := tokenWorth_some rfl
  refine (Conserves.disjunction hr records).bind fun target => Conserves.look_bind fun t => ?_
  split
  · refine .advance_bind rfl ((hr.expression _).bind fun value => ?_)
    split
    · exact .pure (by simp only [ofExpr, hassign, worth_cons, worth_nil]; omega)
    · exact .fault _ _
  · exact Conserves.front (.pure (by simp)) _

/-- A binding hands on its name, its value and the type that is noted. -/
theorem ConservesAt.binding {w : Keyword} (hw : w = .let_ ∨ w = .const) (x : Wanted) :
    ConservesAt v (some (.keyword w))
      (fun b => v (.name b.1) + v (.operator .assign) + worth v (ofExpr b.2))
      (advance >>= fun _ => binding r x) := by
  intro S b R hS h
  cases S with
  | finish p => cases hS
  | invalid e => cases hS
  | token t S =>
    obtain ⟨k, p⟩ := t
    obtain rfl : k = .keyword w := Option.some.inj hS
    rw [advance_bind_token] at h
    obtain ⟨n, S₁, hname, h⟩ := bind_eq_ok h
    obtain ⟨_, S₂, hnote, hrest⟩ := bind_eq_ok h
    have hassign : tokenWorth v (.mark .assign) = v (.operator .assign) := tokenWorth_some rfl
    have htail : Conserves v (fun b : Name × Expr => v (.operator .assign) + worth v (ofExpr b.2)
        + v (.name b.1) - v (.name (.text n))) (do
        let _ ← Parser.expect .assign
        let e ← r.expression true
        Parser.endStatement
        return (.text n, e)) := by
      refine (Conserves.expect _).bind fun _ => (hr.expression _).bind fun e => ?_
      refine Conserves.endStatement.bind_zero fun _ => .pure ?_
      simp only [hassign]
      omega
    have hrest := htail _ _ _ hrest
    have hn := Conserves.expectName (v := v) _ _ _ _ hname
    obtain ⟨q, rfl⟩ := expectName_eq_ok hname
    have hworth : tokenWorth v (.keyword w) = 0 := by
      rcases hw with rfl | rfl <;> rfl
    have hnoted : noted? (.keyword w) (Stream.token ⟨.name n, q⟩ S₁).lexed =
        Header.note? S₁.lexed := by
      rcases hw with rfl | rfl <;> rfl
    have hnote := worth_typeNote (v := v) hnote
    simp only at hrest hn ⊢
    rw [worth_token, hworth, hnoted]
    omega

theorem Conserves.returned : Conserves v (fun s => worth v (ofStmt s)) (returned r) := by
  have hend : ∀ o, Conserves v (fun s => worth v (ofStmt s) - worth v (ofStmt (.return_ o)))
      (Parser.endStatement >>= fun _ => Pure.pure (.return_ o)) :=
    fun o => Conserves.endStatement.bind_zero fun _ => .pure (Int.sub_self _)
  have hnone : Conserves v (fun s => worth v (ofStmt s))
      (Parser.endStatement >>= fun _ => Pure.pure (.return_ none)) :=
    (hend none).congr fun s => by simp [ofStmt]
  refine Conserves.lookKind_bind fun k => ?_
  split
  · exact hnone.front _
  · exact hnone.front _
  · exact hnone.front _
  · rw [map_eq_pure_bind]
    have hvalue : Conserves v (fun o => worth v (ofStmt (.return_ o)))
        (r.expression true >>= fun e => Pure.pure (some e)) :=
      (hr.expression _).bind fun e => .pure (by simp [ofStmt])
    exact (hvalue.bind hend).front _

theorem Conserves.conditional : Conserves v (fun s => worth v (ofStmt s)) (conditional r) := by
  refine (hr.expression _).bind fun c => (Conserves.block hr).bind fun t => ?_
  refine Conserves.acceptKeyword_bind ?_ (.pure (by
    simp only [ofStmt, ofOtherwise, worth_append, worth_nil]
    omega))
  refine (Conserves.atKeyword _).bind_zero fun _ => .ite ?_ ?_
  · exact hr.statement.bind fun s => .pure (by
      simp only [ofStmt, ofStmts, ofOtherwise, worth_append, worth_nil]
      omega)
  · exact (Conserves.block hr).bind fun e => .pure (by
      simp only [ofStmt, ofOtherwise, worth_append]
      omega)

theorem Conserves.whileLoop : Conserves v (fun s => worth v (ofStmt s)) (whileLoop r) :=
  (hr.expression _).bind fun c => (Conserves.block hr).bind fun body =>
    .pure (by simp only [ofStmt, worth_append]; omega)

theorem Conserves.forLoop : Conserves v (fun s => worth v (ofStmt s)) (forLoop r) := by
  refine (Conserves.expectName _).bind fun n => Conserves.bind_zero ?_ fun _ => ?_
  · intro S u R h
    obtain ⟨p, rfl⟩ := expectKeyword_eq_ok h
    exact worth_token_plain rfl p R
  · exact (hr.expression _).bind fun a => Conserves.expect_bind rfl fun _ =>
      (hr.expression _).bind fun b => (Conserves.block hr).bind fun body =>
        .pure (by simp only [ofStmt, worth_cons, worth_append]; omega)

omit hr in
theorem worth_printing (e : Expr) (es : List Expr) :
    worth v (ofStmt (printing (e :: es))) = worth v (ofExpr e) + worth v (ofExprs es) := by
  cases es with
  | nil =>
    cases e with
    | tuple elements => simp [printing, ofStmt, ofExpr, ofExprs]
    | _ => simp [printing, ofStmt, ofExprs]
  | cons e' es => simp [printing_cons_cons, ofStmt, ofExprs]

theorem Conserves.printed : Conserves v (fun s => worth v (ofStmt s)) (printed r) :=
  (hr.expression _).bind fun e => (Conserves.commaExpressions hr _).bind fun es =>
    Conserves.endStatement.bind_zero fun _ => .pure (by simp only [worth_printing]; omega)

theorem Conserves.typeMembers (type : String) (b : Nat) :
    Conserves v (fun x => worth v (ofFields x.1) + worth v (ofStmts x.2))
      (typeMembers r type b) := by
  induction b with
  | zero => exact .exhausted
  | succ b ih =>
    refine Conserves.lookKind_bind fun k => ?_
    split
    · exact Conserves.front (.pure (by rfl)) _
    · exact .advance_bind rfl (ih.less rfl)
    · exact .advance_bind rfl (ih.less rfl)
    · refine Conserves.front ((Conserves.function hr).bind fun m => ih.bind fun x => ?_) _
      exact .pure (by simp only [ofStmts, worth_append]; omega)
    · rename_i n
      have hname : tokenWorth v (.name n) = v (.name (.text n)) := tokenWorth_some rfl
      refine .advance_bind rfl (Conserves.expect_bind rfl fun _ => ?_)
      exact (hr.expression _).bind fun e => ih.bind fun x =>
        .pure (by simp only [ofFields, hname, worth_cons, worth_append]; omega)
    · exact (Conserves.refuse _).front _

theorem Conserves.typeDeclaration :
    Conserves v (fun s => worth v (ofStmt s)) (typeDeclaration r) :=
  (Conserves.expectName _).bind fun n => Conserves.expect_bind rfl fun _ =>
    (Conserves.typeMembers hr _ _).bind fun x => Conserves.expect_bind rfl fun _ =>
      .pure (by simp only [ofStmt, worth_cons, worth_append]; omega)

theorem ConservesAt.keywordStatement {w : Keyword} {p : Parser Stmt}
    (h : keywordStatement? r w = some p) :
    ConservesAt v (some (.keyword w)) (fun s => worth v (ofStmt s)) (advance >>= fun _ => p) := by
  have hplain : ∀ {q : Parser Stmt} (w : Keyword), (Token.Kind.keyword w).declares = false →
      (Token.Kind.keyword w).piece? = none → Conserves v (fun s => worth v (ofStmt s)) q →
      ConservesAt v (some (.keyword w)) (fun s => worth v (ofStmt s)) (advance >>= fun _ => q) :=
    fun w hw hpiece hq => .advance_bind hw (hq.less hpiece)
  have hend : ∀ s, worth v (ofStmt s) = 0 → Conserves v (fun s => worth v (ofStmt s))
      (Parser.endStatement >>= fun _ => Pure.pure s) :=
    fun s hs => Conserves.endStatement.bind_zero fun _ => .pure hs
  cases w with
  | let_ =>
    cases h
    rw [← bind_assoc]
    refine (ConservesAt.binding hr (.inl rfl) .variableName).bind fun b => ?_
    obtain ⟨n, e⟩ := b
    exact .pure (by simp only [ofStmt, worth_cons]; omega)
  | const =>
    cases h
    rw [← bind_assoc]
    refine (ConservesAt.binding hr (.inr rfl) .constantName).bind fun b => ?_
    obtain ⟨n, e⟩ := b
    exact .pure (by simp only [ofStmt, worth_cons]; omega)
  | return_ => cases h; exact hplain .return_ rfl rfl (Conserves.returned hr)
  | if_ => cases h; exact hplain .if_ rfl rfl (Conserves.conditional hr)
  | while_ => cases h; exact hplain .while_ rfl rfl (Conserves.whileLoop hr)
  | for_ => cases h; exact hplain .for_ rfl rfl (Conserves.forLoop hr)
  | import_ =>
    cases h
    refine hplain .import_ rfl rfl (Conserves.expectText.bind fun path => ?_)
    exact Conserves.endStatement.bind_zero fun _ => .pure (by simp [ofStmt, ofPath])
  | break_ => cases h; exact hplain .break_ rfl rfl (hend _ rfl)
  | continue_ => cases h; exact hplain .continue_ rfl rfl (hend _ rfl)
  | print => cases h; exact hplain .print rfl rfl (Conserves.printed hr)
  | type => cases h; exact hplain .type rfl rfl (Conserves.typeDeclaration hr)
  | _ => cases h

theorem Conserves.statementOf : Conserves v (fun s => worth v (ofStmt s)) (statementOf r) := by
  have hexpr : Conserves v (fun s => worth v (ofStmt s)) (expressionStatement r) :=
    (hr.expression _).bind fun e => Conserves.endStatement.bind_zero fun _ =>
      .pure (by simp [ofStmt])
  refine Conserves.look_bind fun t => ?_
  split
  · split
    · rename_i hk
      exact ConservesAt.keywordStatement hr hk
    · refine Conserves.front (.ite (.fault _ _) (Conserves.atFunction.bind_zero fun _ => ?_)) _
      exact .ite (Conserves.function hr) hexpr
  · exact Conserves.front ((Conserves.block hr).bind fun ss => .pure (by simp [ofStmt])) _
  · exact hexpr.front _

theorem Conserves.program (b : Nat) :
    Conserves v (fun p => worth v (ofStmts p)) (program r b) := by
  induction b with
  | zero => exact .exhausted
  | succ b ih =>
    refine Conserves.lookKind_bind fun k => ?_
    split
    · exact Conserves.front (.pure (by rfl)) _
    · exact .advance_bind rfl (ih.less rfl)
    · exact Conserves.front (hr.statement.bind fun s => ih.bind fun p => .pure (by
        simp only [ofStmts, worth_append]
        omega)) _

end Sorts

theorem conserving_sorts (limit : Option Int) (b n : Nat) :
    Conserving v ⟨expression limit b, statement limit b, limit, n⟩ :=
  sorts_induction (fun _ => ⟨fun _ => .exhausted, .exhausted⟩)
    (fun _ _ hr => ⟨Conserves.assignment hr, Conserves.statementOf hr⟩) b n

/-- The whole of a stream is in its program. -/
theorem worth_of_parseStream {limit : Option Int} {S : Stream} {p : Program}
    (h : parseStream limit S = .ok p) : S.worth v = worth v (ofStmts p) := by
  obtain ⟨R, hR⟩ := program_of_parseStream h
  obtain ⟨q, rfl⟩ := program_rest hR
  have hworth := Conserves.program (conserving_sorts (v := v) limit _ _) _ _ _ _ hR
  have hfinish : (Stream.finish q).worth v = 0 := rfl
  rw [hworth, hfinish, Int.add_zero]

end Parser

/-- The literals, names and operators of a text that is parsed are those of its program and the
types that are noted, each as often. Signs and differences both stand in the text as a minus, and
variables, constants and assignments as an equals sign. -/
theorem parse_material {limit : Option Int} {source : String} {p : Program}
    (h : parse limit source = .ok p) : ∃ ts q, (Stream.ofText source).tokens = .ok (ts, q) ∧
      (Material.ofTokens ts).Perm (Material.ofStmts p ++ Material.notes ts) := by
  obtain ⟨q, hq⟩ := Parser.parseStream_stop h
  refine ⟨_, q, Stream.tokens_eq_ok_iff.mpr ⟨rfl, hq⟩, Material.perm_of_worth fun v => ?_⟩
  have hworth := Parser.worth_of_parseStream (v := v) h
  rw [Stream.worth] at hworth
  rw [Material.worth_append]
  omega

theorem parse_material_noted :
    ∃ p ts q, parse none "let a: T = -1 - f({g(b): fn (c): U c})" = .ok p ∧
      (Stream.ofText "let a: T = -1 - f({g(b): fn (c): U c})").tokens = .ok (ts, q) ∧
      (Material.ofTokens ts).Perm (Material.ofStmts p ++ Material.notes ts) := by
  have h : (parse none "let a: T = -1 - f({g(b): fn (c): U c})").isOk = true := by
    decide +kernel
  obtain ⟨ts, q, hts, hperm⟩ := parse_material (eq_ok_of_isOk h)
  exact ⟨_, ts, q, eq_ok_of_isOk h, hts, hperm⟩

/-- The colon behind a key of a dictionary notes no type. -/
example : Material.notes (Stream.ofText "let a: T = f({g(b): fn (c): U c})").lexed =
    [.name (.text "T"), .name (.text "U")] := rfl

end Scripting
