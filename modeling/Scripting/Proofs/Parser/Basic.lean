import Scripting.Parser.Statement

/-!
How parsers compose, and what the smallest of them do in front of a token and at the end of the
input.
-/

namespace Scripting.Parser

variable {α β : Type}

theorem pure_apply (a : α) (s : Stream) : (pure a : Parser α) s = .ok (a, s) := rfl

theorem bind_of_ok {p : Parser α} {f : α → Parser β} {s s₁ : Stream} {a : α}
    (h : p s = .ok (a, s₁)) : (p >>= f) s = f a s₁ := by
  change (p s >>= fun x => f x.1 x.2) = f a s₁
  rw [h]
  rfl

theorem bind_of_error {p : Parser α} {f : α → Parser β} {s : Stream} {e : SyntaxError}
    (h : p s = .error e) : (p >>= f) s = .error e := by
  change (p s >>= fun x => f x.1 x.2) = .error e
  rw [h]
  rfl

/-- A sequence succeeds only through a success of its first part. -/
theorem bind_eq_ok {p : Parser α} {f : α → Parser β} {s : Stream} {x : β × Stream}
    (h : (p >>= f) s = .ok x) : ∃ a s₁, p s = .ok (a, s₁) ∧ f a s₁ = .ok x := by
  cases hp : p s with
  | error e =>
    rw [bind_of_error hp] at h
    cases h
  | ok y =>
    rw [bind_of_ok hp] at h
    exact ⟨y.1, y.2, rfl, h⟩

theorem exhausted_ne_ok {s : Stream} {x : α × Stream} : exhausted s ≠ .ok x := by
  intro h
  cases h

theorem refuse_ne_ok {w : Wanted} {s : Stream} {x : α × Stream} : refuse w s ≠ .ok x := by
  intro h
  cases s <;> cases h

end Scripting.Parser

namespace Scripting.Token.Kind

def isMark (m : Mark) : Token.Kind → Bool
  | mark k => k == m
  | _ => false

def isKeyword (w : Keyword) : Token.Kind → Bool
  | keyword k => k == w
  | _ => false

def isName : Token.Kind → Bool
  | name _ => true
  | _ => false

/-- Whether a token goes on with the expression in front of it as a call, a field or an index. -/
def isTrailer : Token.Kind → Bool
  | mark .lparen | mark .dot | mark .lbracket => true
  | _ => false

/-- The operator that a token stands for on a level. -/
def op? (f : Mark → Option BinaryOp) : Token.Kind → Option BinaryOp
  | mark m => f m
  | _ => none

theorem isTrailer_cases (k : Token.Kind) :
    k = mark .lparen ∨ k = mark .dot ∨ k = mark .lbracket ∨ k.isTrailer = false := by
  cases k with
  | mark m => cases m <;> simp [isTrailer]
  | _ => simp [isTrailer]

theorem isMark_iff {m : Mark} {k : Token.Kind} : k.isMark m = true ↔ k = .mark m := by
  cases k <;> simp [isMark]

theorem isKeyword_iff {w : Keyword} {k : Token.Kind} : k.isKeyword w = true ↔ k = .keyword w := by
  cases k <;> simp [isKeyword]

end Scripting.Token.Kind

def Scripting.Stream.front? : Stream → Option Token.Kind
  | token t _ => some t.kind
  | _ => none

namespace Scripting.Parser

section Primitives

variable {α : Type} (k : Token.Kind) (p : Position) (s : Stream) (m : Mark) (w : Keyword)

@[simp] theorem look_token : look (.token ⟨k, p⟩ s) = .ok (some ⟨k, p⟩, .token ⟨k, p⟩ s) := rfl

@[simp] theorem look_finish : look (.finish p) = .ok (none, .finish p) := rfl

@[simp] theorem lookKind_token : lookKind (.token ⟨k, p⟩ s) = .ok (some k, .token ⟨k, p⟩ s) := rfl

@[simp] theorem lookKind_finish : lookKind (.finish p) = .ok (none, .finish p) := rfl

@[simp] theorem advance_token : advance (.token ⟨k, p⟩ s) = .ok ((), s) := rfl

@[simp] theorem advance_finish : advance (.finish p) = .ok ((), .finish p) := rfl

@[simp] theorem atMark_token :
    atMark m (.token ⟨k, p⟩ s) = .ok (k.isMark m, .token ⟨k, p⟩ s) := by
  cases k <;> rfl

@[simp] theorem atMark_finish : atMark m (.finish p) = .ok (false, .finish p) := rfl

@[simp] theorem atKeyword_token :
    atKeyword w (.token ⟨k, p⟩ s) = .ok (k.isKeyword w, .token ⟨k, p⟩ s) := by
  cases k <;> rfl

@[simp] theorem atKeyword_finish : atKeyword w (.finish p) = .ok (false, .finish p) := rfl

@[simp] theorem accept_token :
    accept m (.token ⟨k, p⟩ s) =
      .ok (k.isMark m, if k.isMark m then s else .token ⟨k, p⟩ s) := by
  unfold accept
  rw [bind_of_ok (atMark_token k p s m)]
  cases k.isMark m <;> rfl

@[simp] theorem accept_finish : accept m (.finish p) = .ok (false, .finish p) := rfl

@[simp] theorem acceptKeyword_token :
    acceptKeyword w (.token ⟨k, p⟩ s) =
      .ok (k.isKeyword w, if k.isKeyword w then s else .token ⟨k, p⟩ s) := by
  unfold acceptKeyword
  rw [bind_of_ok (atKeyword_token k p s w)]
  cases k.isKeyword w <;> rfl

@[simp] theorem acceptKeyword_finish : acceptKeyword w (.finish p) = .ok (false, .finish p) := rfl

@[simp] theorem expect_mark : expect m (.token ⟨.mark m, p⟩ s) = .ok (p, s) := by
  unfold expect
  rw [bind_of_ok (look_token (.mark m) p s)]
  simp only [beq_self_eq_true, if_true]
  rfl

@[simp] theorem expectKeyword_keyword :
    expectKeyword w (.token ⟨.keyword w, p⟩ s) = .ok ((), s) := by
  unfold expectKeyword
  rw [bind_of_ok (atKeyword_token (.keyword w) p s w)]
  simp [Token.Kind.isKeyword]

@[simp] theorem expectName_name (x : Wanted) (n : String) :
    expectName x (.token ⟨.name n, p⟩ s) = .ok (n, s) := rfl

@[simp] theorem expectText_text (v : String) :
    expectText (.token ⟨.text v, p⟩ s) = .ok (v, s) := rfl

@[simp] theorem endStatement_token :
    endStatement (.token ⟨k, p⟩ s) =
      .ok ((), if k.isMark .semicolon then s else .token ⟨k, p⟩ s) := by
  unfold endStatement
  rw [bind_of_ok (accept_token k p s .semicolon)]
  rfl

@[simp] theorem endStatement_finish : endStatement (.finish p) = .ok ((), .finish p) := rfl

@[simp] theorem atFunction_token :
    atFunction (.token ⟨k, p⟩ s) =
      .ok (k.isKeyword .fn && s.front?.any Token.Kind.isName, .token ⟨k, p⟩ s) := by
  cases k with
  | keyword w =>
    cases s with
    | token t rest =>
      obtain ⟨k, q⟩ := t
      cases w <;> cases k <;> rfl
    | _ => cases w <;> rfl
  | _ => rfl

@[simp] theorem atStatement_token :
    atStatement (.token ⟨k, p⟩ s) =
      .ok (startsStatement k || (k.isKeyword .fn && s.front?.any Token.Kind.isName),
        .token ⟨k, p⟩ s) := by
  unfold atStatement
  rw [bind_of_ok (lookKind_token k p s)]
  cases hk : startsStatement k with
  | true =>
    simp only [hk, if_true]
    rfl
  | false => simp [hk]

variable {f : Option Token.Kind → Parser α} {g : Unit → Parser α}

@[simp] theorem look_bind_token {f : Option Token → Parser α} :
    (look >>= f) (.token ⟨k, p⟩ s) = f (some ⟨k, p⟩) (.token ⟨k, p⟩ s) := rfl

@[simp] theorem look_bind_finish {f : Option Token → Parser α} :
    (look >>= f) (.finish p) = f none (.finish p) := rfl

@[simp] theorem lookKind_bind_token :
    (lookKind >>= f) (.token ⟨k, p⟩ s) = f (some k) (.token ⟨k, p⟩ s) := rfl

@[simp] theorem lookKind_bind_finish : (lookKind >>= f) (.finish p) = f none (.finish p) := rfl

@[simp] theorem advance_bind_token : (advance >>= g) (.token ⟨k, p⟩ s) = g () s := rfl

end Primitives

/-- What `expect` accepts. -/
theorem expect_eq_ok {m : Mark} {s s₁ : Stream} {p : Position} (h : expect m s = .ok (p, s₁)) :
    s = .token ⟨.mark m, p⟩ s₁ := by
  unfold expect at h
  cases s with
  | finish q => cases h
  | invalid e => cases h
  | token t rest =>
    obtain ⟨k, q⟩ := t
    rw [bind_of_ok (look_token k q rest)] at h
    cases k with
    | mark m' =>
      by_cases hm : m' = m
      · subst hm
        simp only [beq_self_eq_true, if_true] at h
        rw [bind_of_ok (advance_token _ q rest)] at h
        cases h
        rfl
      · simp only [beq_eq_false_iff_ne.mpr hm, Bool.false_eq_true, if_false] at h
        cases h
    | _ => cases h

theorem block_eq (r : Sorts) :
    block r = do
      let _ ← expect .lbrace
      let body ← statements r r.bound
      let _ ← expect .rbrace
      return body := by
  simp [block, braced]

/-- Without a limit the braces of a function are those of any block. -/
theorem functionBody_eq_block {r : Sorts} (h : r.limit = none) (name : String) :
    functionBody r name = block r := by
  simp [functionBody, block, checkLength, h]

section Loops

variable (r : Sorts) (b : Nat) (e : Expr) (p : Position) (s : Stream)

@[simp] theorem trailers_finish : trailers r (b + 1) e (.finish p) = .ok (e, .finish p) := rfl

theorem trailers_call :
    trailers r (b + 1) e (.token ⟨.mark .lparen, p⟩ s) = (do
      let args ← expressions r .rparen r.bound
      let _ ← expect .rparen
      trailers r b (.call e args)) s := rfl

theorem trailers_field :
    trailers r (b + 1) e (.token ⟨.mark .dot, p⟩ s) = (do
      let n ← expectName .memberName
      trailers r b (.field e (.text n))) s := rfl

theorem trailers_index :
    trailers r (b + 1) e (.token ⟨.mark .lbracket, p⟩ s) = (do
      let i ← r.expression true
      let _ ← expect .rbracket
      trailers r b (.index e i)) s := rfl

theorem trailers_stop {k : Token.Kind} (hk : k.isTrailer = false) :
    trailers r (b + 1) e (.token ⟨k, p⟩ s) = .ok (e, .token ⟨k, p⟩ s) := by
  cases k with
  | mark m =>
    cases m with
    | lparen => cases hk
    | dot => cases hk
    | lbracket => cases hk
    | _ => rfl
  | _ => rfl

variable (f : Mark → Option BinaryOp) (operand : Parser Expr)

@[simp] theorem chain_finish : chain f operand (b + 1) e (.finish p) = .ok (e, .finish p) := rfl

theorem chain_some {k : Token.Kind} {op : BinaryOp} (hk : k.op? f = some op) :
    chain f operand (b + 1) e (.token ⟨k, p⟩ s) = (do
      let e' ← operand
      chain f operand b (.binary e op e')) s := by
  cases k with
  | mark m =>
    rw [chain, lookKind_bind_token]
    simp only [show f m = some op from hk]
    rw [advance_bind_token]
  | _ => cases hk

theorem chain_none {k : Token.Kind} (hk : k.op? f = none) :
    chain f operand (b + 1) e (.token ⟨k, p⟩ s) = .ok (e, .token ⟨k, p⟩ s) := by
  cases k with
  | mark m =>
    rw [chain, lookKind_bind_token]
    simp only [show f m = none from hk]
    rfl
  | _ => rfl

end Loops

section Assignment

variable (r : Sorts) (records : Bool) (target : Expr) (p : Position) (s : Stream)

/-- What may follow the target of an assignment. -/
def assigned : Parser Expr := do
  match ← look with
  | some ⟨.mark .assign, p⟩ =>
    advance
    let value ← r.expression records
    match target with
    | .name n => return .assign n value
    | _ => fault .assignTarget p
  | _ => return target

theorem assignment_eq :
    assignment r records = disjunction r records >>= assigned r records := rfl

theorem assigned_name (n : Name) :
    assigned r records (.name n) (.token ⟨.mark .assign, p⟩ s) =
      (r.expression records >>= fun value => pure (.assign n value)) s := rfl

theorem assigned_stop {k : Token.Kind} (hk : k ≠ .mark .assign) :
    assigned r records target (.token ⟨k, p⟩ s) = .ok (target, .token ⟨k, p⟩ s) := by
  cases k with
  | mark m =>
    cases m with
    | assign => exact absurd rfl hk
    | _ => rfl
  | _ => rfl

theorem assigned_ne_ok (ht : ∀ n, target ≠ .name n) {x : Expr × Stream} :
    assigned r records target (.token ⟨.mark .assign, p⟩ s) ≠ .ok x := by
  intro h
  have hfault : assigned r records target (.token ⟨.mark .assign, p⟩ s) =
      (r.expression records >>= fun _ => fault .assignTarget p) s := by
    cases target with
    | name n => exact absurd rfl (ht n)
    | _ => rfl
  rw [hfault] at h
  obtain ⟨value, s₁, -, h⟩ := bind_eq_ok h
  cases h

end Assignment

theorem printing_single {e : Expr} (h : ∀ es, e ≠ .tuple es) : printing [e] = .print e := by
  cases e with
  | tuple es => exact absurd rfl (h es)
  | _ => rfl

theorem printing_cons_cons (e d : Expr) (es : List Expr) :
    printing (e :: d :: es) = .printAll (e :: d :: es) := by
  cases e <;> rfl

section Statements

variable (r : Sorts) (p : Position) (s : Stream)

theorem returned_finish :
    returned r (.finish p) = (endStatement >>= fun _ => pure (.return_ none)) (.finish p) := rfl

theorem returned_none {m : Mark} (hm : m = .semicolon ∨ m = .rbrace) :
    returned r (.token ⟨.mark m, p⟩ s) =
      (endStatement >>= fun _ => pure (.return_ none)) (.token ⟨.mark m, p⟩ s) := by
  rcases hm with rfl | rfl <;> rfl

theorem returned_some {k : Token.Kind} (hs : k ≠ .mark .semicolon) (hb : k ≠ .mark .rbrace) :
    returned r (.token ⟨k, p⟩ s) =
      (r.expression true >>= fun e => endStatement >>= fun _ => pure (.return_ (some e)))
        (.token ⟨k, p⟩ s) := by
  have h : returned r (.token ⟨k, p⟩ s) =
      ((some <$> r.expression true) >>= fun e => endStatement >>= fun _ => pure (.return_ e))
        (.token ⟨k, p⟩ s) := by
    cases k with
    | mark m =>
      cases m with
      | semicolon => exact absurd rfl hs
      | rbrace => exact absurd rfl hb
      | _ => rfl
    | _ => rfl
  rw [h, map_eq_pure_bind]
  simp only [bind_assoc, pure_bind]

theorem statementOf_keyword {w : Keyword} {rest : Parser Stmt}
    (h : keywordStatement? r w = some rest) :
    statementOf r (.token ⟨.keyword w, p⟩ s) = rest s := by
  unfold statementOf
  rw [look_bind_token]
  simp only [h]
  rw [advance_bind_token]

theorem statementOf_word {w : Keyword} (h : keywordStatement? r w = none) :
    statementOf r (.token ⟨.keyword w, p⟩ s) =
      if w.isReserved then .error ⟨.reserved w, p⟩
      else (atFunction >>= fun named => if named then function r else expressionStatement r)
        (.token ⟨.keyword w, p⟩ s) := by
  unfold statementOf
  rw [look_bind_token]
  simp only [h]
  split <;> rfl

theorem statementOf_brace :
    statementOf r (.token ⟨.mark .lbrace, p⟩ s) =
      (block r >>= fun body => pure (.block body)) (.token ⟨.mark .lbrace, p⟩ s) := rfl

theorem statementOf_expression {k : Token.Kind} (hk : ∀ w, k ≠ .keyword w)
    (hb : k ≠ .mark .lbrace) :
    statementOf r (.token ⟨k, p⟩ s) = expressionStatement r (.token ⟨k, p⟩ s) := by
  cases k with
  | keyword w => exact absurd rfl (hk w)
  | mark m =>
    cases m with
    | lbrace => exact absurd rfl hb
    | _ => rfl
  | _ => rfl

variable (b : Nat)

theorem statements_statement {k : Token.Kind} (hs : k ≠ .mark .semicolon)
    (hb : k ≠ .mark .rbrace) :
    statements r (b + 1) (.token ⟨k, p⟩ s) =
      (r.statement >>= fun first => statements r b >>= fun rest => pure (first :: rest))
        (.token ⟨k, p⟩ s) := by
  cases k with
  | mark m =>
    cases m with
    | semicolon => exact absurd rfl hs
    | rbrace => exact absurd rfl hb
    | _ => rfl
  | _ => rfl

theorem program_finish : program r (b + 1) (.finish p) = .ok ([], .finish p) := rfl

theorem program_semicolon :
    program r (b + 1) (.token ⟨.mark .semicolon, p⟩ s) = program r b s := rfl

theorem program_statement {k : Token.Kind} (hk : k ≠ .mark .semicolon) :
    program r (b + 1) (.token ⟨k, p⟩ s) =
      (r.statement >>= fun first => program r b >>= fun rest => pure (first :: rest))
        (.token ⟨k, p⟩ s) := by
  cases k with
  | mark m =>
    cases m with
    | semicolon => exact absurd rfl hk
    | _ => rfl
  | _ => rfl

/-- A larger bound does not change the program. -/
theorem program_succ {b : Nat} {s : Stream} {x : Program × Stream} (h : program r b s = .ok x) :
    program r (b + 1) s = .ok x := by
  induction b generalizing s x with
  | zero => exact absurd h exhausted_ne_ok
  | succ b ih =>
    cases s with
    | invalid e => cases h
    | finish p => exact h
    | token t s =>
      obtain ⟨k, p⟩ := t
      by_cases hk : k = .mark .semicolon
      · subst hk
        rw [program_semicolon] at h ⊢
        exact ih h
      · rw [program_statement r p s _ hk] at h ⊢
        obtain ⟨first, s₁, hfirst, h⟩ := bind_eq_ok h
        obtain ⟨rest, s₂, hrest, h⟩ := bind_eq_ok h
        rw [bind_of_ok hfirst, bind_of_ok (ih hrest)]
        exact h

theorem program_mono {b b' : Nat} (hb : b ≤ b') {s : Stream} {x : Program × Stream}
    (h : program r b s = .ok x) : program r b' s = .ok x := by
  induction hb with
  | refl => exact h
  | step _ ih => exact program_succ r ih

end Statements

/-- What holds of sorts without steps, and of those that are made of sorts of which it holds, holds of
the sorts of every depth. -/
theorem sorts_induction {P : Sorts → Prop} {limit : Option Int}
    (zero : ∀ n, P ⟨fun _ => exhausted, exhausted, limit, n⟩)
    (succ : ∀ r n, P r → P ⟨assignment r, statementOf r, limit, n⟩) (b n : Nat) :
    P ⟨expression limit b, statement limit b, limit, n⟩ := by
  induction b generalizing n with
  | zero =>
    have hexpression : expression limit 0 = fun _ => exhausted := funext fun _ => by rw [expression]
    rw [hexpression, statement]
    exact zero n
  | succ b ih =>
    have hexpression : expression limit (b + 1) =
        assignment ⟨expression limit b, statement limit b, limit, b⟩ :=
      funext fun _ => by rw [expression]
    rw [hexpression, statement]
    exact succ _ n (ih b)

section Whole

variable {limit : Option Int} {S : Stream}

theorem program_of_parseStream {p : Program} (h : parseStream limit S = .ok p) :
    ∃ R, program ⟨expression limit (enough S), statement limit (enough S), limit, enough S⟩
      (enough S) S = .ok (p, R) := by
  change (program _ (enough S) S).map Prod.fst = .ok p at h
  generalize program _ (enough S) S = result at h ⊢
  cases result with
  | error e => cases h
  | ok x =>
    cases h
    exact ⟨x.2, rfl⟩

theorem program_of_parseStream_error {e : SyntaxError} (h : parseStream limit S = .error e) :
    program ⟨expression limit (enough S), statement limit (enough S), limit, enough S⟩
      (enough S) S = .error e := by
  change (program _ (enough S) S).map Prod.fst = .error e at h
  generalize program _ (enough S) S = result at h ⊢
  cases result with
  | error e' =>
    cases h
    rfl
  | ok x => cases h

end Whole

end Scripting.Parser
