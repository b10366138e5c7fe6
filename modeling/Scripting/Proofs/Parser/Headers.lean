import Scripting.Proofs.Lexer.Partition
import Scripting.Proofs.Parser.Basic

/-!
The headers of functions as rows of tokens. A header is a name, which function literals lack, and
names with commas in parentheses; a colon behind it or behind the name of a variable notes a type.
What the parser leaves behind parameters and notes can be told from the tokens alone.
-/

namespace Scripting

namespace Header

def isParam (t : Token) : Bool := t.kind.isName || t.kind.isMark .comma

def pastParams? : List Token → Option (List Token)
  | ⟨.mark .lparen, _⟩ :: ts =>
    match ts.dropWhile isParam with
    | ⟨.mark .rparen, _⟩ :: rest => some rest
    | _ => none
  | _ => none

def note? : List Token → Option String
  | ⟨.mark .colon, _⟩ :: ⟨.name n, _⟩ :: _ => some n
  | _ => none

/-- The tokens behind the note at the front, or all of them. A colon may stand without a type. -/
def pastNote : List Token → List Token
  | ⟨.mark .colon, _⟩ :: ⟨.name _, _⟩ :: ts => ts
  | ⟨.mark .colon, _⟩ :: ts => ts
  | ts => ts

/-- The name of a function and the tokens behind its parameters, from behind its keyword on. -/
def split? : List Token → Option (Option String × List Token)
  | ⟨.name n, _⟩ :: ts => (pastParams? ts).map fun rest => (some n, rest)
  | ts => (pastParams? ts).map fun rest => (none, rest)

theorem suffix_of_pastParams? {ts rest : List Token} (h : pastParams? ts = some rest) :
    rest <:+ ts := by
  unfold pastParams? at h
  split at h
  · rename_i p ts
    split at h
    · rename_i q rest hdrop
      cases h
      have hafter : ⟨.mark .rparen, q⟩ :: rest <:+ ts := hdrop ▸ List.dropWhile_suffix _
      exact ((List.suffix_cons _ _).trans hafter).trans (List.suffix_cons _ _)
    · cases h
  · cases h

theorem suffix_of_split? {ts rest : List Token} {n : Option String}
    (h : split? ts = some (n, rest)) : rest <:+ ts := by
  unfold split? at h
  split at h
  · obtain ⟨rest', hrest, heq⟩ := Option.map_eq_some_iff.mp h
    cases heq
    exact (suffix_of_pastParams? hrest).trans (List.suffix_cons _ _)
  · obtain ⟨rest', hrest, heq⟩ := Option.map_eq_some_iff.mp h
    cases heq
    exact suffix_of_pastParams? hrest

theorem pastNote_suffix (ts : List Token) : pastNote ts <:+ ts := by
  unfold pastNote
  split
  · exact (List.suffix_cons _ _).trans (List.suffix_cons _ _)
  · exact List.suffix_cons _ _
  · exact List.suffix_refl _

theorem split?_of_pastParams? {ts rest : List Token} (h : pastParams? ts = some rest) :
    split? ts = some (none, rest) := by
  unfold split?
  split
  · cases h
  · rw [h]
    rfl

end Header

namespace Parser

def signature (bound : Nat) : Parser (String × List Name) := do
  expectKeyword .fn
  let n ← expectName .functionName
  let ps ← params bound
  typeNote
  return (n, ps)

theorem function_eq (r : Sorts) :
    function r = do
      let x ← signature r.bound
      let body ← functionBody r x.1
      return .function (.text x.1) x.2 body := by
  simp [function, signature]

def literalHead (bound : Nat) : Parser (List Name) := do
  expectKeyword .fn
  let ps ← params bound
  typeNote
  return ps

def literalBody (r : Sorts) (ps : List Name) : Parser Expr := do
  if ← atMark .lbrace then
    return .lambda ps (← functionBody r "<lambda>")
  return .lambda ps [← r.statement]

theorem lambda_eq (r : Sorts) : lambda r = literalHead r.bound >>= literalBody r := by
  simp [lambda, literalHead, literalBody]

open Header

theorem atMark_eq_ok {m : Mark} {b : Bool} {S R : Stream} (h : atMark m S = .ok (b, R)) :
    R = S ∧ S.front?.any (Token.Kind.isMark m) = b := by
  cases S with
  | invalid e => cases h
  | finish p =>
    cases h
    exact ⟨rfl, rfl⟩
  | token t rest =>
    cases (atMark_token t.kind t.position rest m).symm.trans h
    exact ⟨rfl, rfl⟩

theorem accept_eq_ok {m : Mark} {b : Bool} {S R : Stream} (h : accept m S = .ok (b, R)) :
    (b = true ∧ ∃ p, S = .token ⟨.mark m, p⟩ R) ∨ b = false ∧ R = S := by
  cases S with
  | invalid e => cases h
  | finish p =>
    cases h
    exact .inr ⟨rfl, rfl⟩
  | token t rest =>
    obtain ⟨k, p⟩ := t
    rw [accept_token] at h
    cases hk : k.isMark m with
    | false =>
      rw [hk] at h
      cases h
      exact .inr ⟨rfl, rfl⟩
    | true =>
      rw [hk] at h
      obtain ⟨rfl, rfl⟩ := Prod.mk.inj (Except.ok.inj h)
      rw [Token.Kind.isMark_iff] at hk
      exact .inl ⟨rfl, p, by rw [hk, if_pos rfl]⟩

theorem acceptKeyword_eq_ok {w : Keyword} {b : Bool} {S R : Stream}
    (h : acceptKeyword w S = .ok (b, R)) :
    (b = true ∧ ∃ p, S = .token ⟨.keyword w, p⟩ R) ∨ b = false ∧ R = S := by
  cases S with
  | invalid e => cases h
  | finish p =>
    cases h
    exact .inr ⟨rfl, rfl⟩
  | token t rest =>
    obtain ⟨k, p⟩ := t
    rw [acceptKeyword_token] at h
    cases hk : k.isKeyword w with
    | false =>
      rw [hk] at h
      cases h
      exact .inr ⟨rfl, rfl⟩
    | true =>
      rw [hk] at h
      obtain ⟨rfl, rfl⟩ := Prod.mk.inj (Except.ok.inj h)
      rw [Token.Kind.isKeyword_iff] at hk
      exact .inl ⟨rfl, p, by rw [hk, if_pos rfl]⟩

theorem expectKeyword_eq_ok {w : Keyword} {S R : Stream} (h : expectKeyword w S = .ok ((), R)) :
    ∃ p, S = .token ⟨.keyword w, p⟩ R := by
  cases S with
  | finish p => cases h
  | invalid e => cases h
  | token t rest =>
    obtain ⟨k, p⟩ := t
    unfold expectKeyword at h
    rw [bind_of_ok (atKeyword_token k p rest w)] at h
    cases hk : k.isKeyword w with
    | false =>
      rw [hk] at h
      cases h
    | true =>
      rw [hk] at h
      cases h
      rw [Token.Kind.isKeyword_iff] at hk
      exact ⟨p, by rw [hk]⟩

theorem expectName_eq_ok {w : Wanted} {n : String} {S R : Stream}
    (h : expectName w S = .ok (n, R)) : ∃ p, S = .token ⟨.name n, p⟩ R := by
  cases S with
  | finish p => cases h
  | invalid e => cases h
  | token t rest =>
    obtain ⟨k, p⟩ := t
    cases k with
    | name m =>
      cases h
      exact ⟨p, rfl⟩
    | _ => cases h

theorem expectText_eq_ok {v : String} {S R : Stream} (h : expectText S = .ok (v, R)) :
    ∃ p, S = .token ⟨.text v, p⟩ R := by
  cases S with
  | finish p => cases h
  | invalid e => cases h
  | token t rest =>
    obtain ⟨k, p⟩ := t
    cases k with
    | text u =>
      cases h
      exact ⟨p, rfl⟩
    | _ => cases h

/-- Parameters end in front of a closing parenthesis. -/
theorem paramsRest_lexed {b : Nat} {S R : Stream} {ps : List Name}
    (h : paramsRest b S = .ok (ps, R)) (hR : R.front? = some (.mark .rparen)) :
    S.lexed.dropWhile isParam = R.lexed := by
  have hstop : R.lexed.dropWhile isParam = R.lexed := by
    cases R with
    | token t rest =>
      obtain ⟨k, p⟩ := t
      cases hR
      rfl
    | _ => rfl
  induction b generalizing S ps with
  | zero => exact absurd h exhausted_ne_ok
  | succ b ih =>
    obtain ⟨closes, S₁, hcloses, h⟩ := bind_eq_ok h
    obtain ⟨rfl, -⟩ := atMark_eq_ok hcloses
    cases closes with
    | true =>
      cases h
      exact hstop
    | false =>
      obtain ⟨n, S₂, hname, hrest⟩ := bind_eq_ok h
      obtain ⟨p, rfl⟩ := expectName_eq_ok hname
      obtain ⟨comma, S₃, hcomma, hmore⟩ := bind_eq_ok hrest
      rcases accept_eq_ok hcomma with ⟨rfl, q, rfl⟩ | ⟨rfl, rfl⟩
      · obtain ⟨ps', S₄, hps, hlast⟩ := bind_eq_ok hmore
        cases hlast
        have hskip := ih hps
        exact hskip
      · obtain ⟨closes, S₄, hcloses, hlast⟩ := bind_eq_ok hmore
        obtain ⟨rfl, -⟩ := atMark_eq_ok hcloses
        cases closes with
        | true =>
          cases hlast
          exact hstop
        | false => exact absurd hlast refuse_ne_ok

/-- What parameters leave is told from the tokens. -/
theorem params_lexed {b : Nat} {S R : Stream} {ps : List Name} (h : params b S = .ok (ps, R)) :
    pastParams? S.lexed = some R.lexed := by
  obtain ⟨p, S₁, hopen, h⟩ := bind_eq_ok h
  obtain ⟨ps', S₂, hrest, h⟩ := bind_eq_ok h
  obtain ⟨q, S₃, hclose, h⟩ := bind_eq_ok h
  cases h
  have hS := expect_eq_ok hopen
  have hS₂ := expect_eq_ok hclose
  subst hS hS₂
  have hdrop := paramsRest_lexed hrest rfl
  simp only [Stream.lexed, pastParams?] at hdrop ⊢
  rw [hdrop]

/-- What a type note leaves is told from the tokens. -/
theorem typeNote_lexed {S R : Stream} (h : typeNote S = .ok ((), R)) :
    pastNote S.lexed = R.lexed := by
  obtain ⟨colon, S₁, hcolon, h⟩ := bind_eq_ok h
  cases S with
  | invalid e => cases hcolon
  | finish p =>
    cases hcolon
    cases h
    rfl
  | token t S₂ =>
    obtain ⟨k, p⟩ := t
    rw [accept_token] at hcolon
    cases k with
    | mark m =>
      by_cases hm : m = .colon
      · subst hm
        cases hcolon
        cases S₂ with
        | invalid e => cases h
        | finish q =>
          cases h
          rfl
        | token t S₃ =>
          obtain ⟨k, q⟩ := t
          cases k <;> cases h <;> rfl
      · cases m with
        | colon => exact absurd rfl hm
        | _ =>
          cases hcolon
          cases h
          rfl
    | _ =>
      cases hcolon
      cases h
      rfl

/-- The tokens of a signature. -/
theorem signature_eq_ok {b : Nat} {x : String × List Name} {S R : Stream}
    (h : signature b S = .ok (x, R)) : ∃ q p S₁ S₂,
      S = .token ⟨.keyword .fn, q⟩ (.token ⟨.name x.1, p⟩ S₁) ∧
        params b S₁ = .ok (x.2, S₂) ∧ typeNote S₂ = .ok ((), R) := by
  obtain ⟨_, S₁, hfn, h⟩ := bind_eq_ok h
  obtain ⟨n, S₂, hname, h⟩ := bind_eq_ok h
  obtain ⟨ps, S₃, hps, h⟩ := bind_eq_ok h
  obtain ⟨_, S₄, hnote, h⟩ := bind_eq_ok h
  cases h
  obtain ⟨q, rfl⟩ := expectKeyword_eq_ok hfn
  obtain ⟨p, rfl⟩ := expectName_eq_ok hname
  exact ⟨q, p, S₂, S₃, rfl, hps, hnote⟩

/-- The tokens of the head of a function literal. -/
theorem literalHead_eq_ok {b : Nat} {ps : List Name} {S R : Stream}
    (h : literalHead b S = .ok (ps, R)) : ∃ q S₁ S₂, S = .token ⟨.keyword .fn, q⟩ S₁ ∧
      params b S₁ = .ok (ps, S₂) ∧ typeNote S₂ = .ok ((), R) := by
  obtain ⟨_, S₁, hfn, h⟩ := bind_eq_ok h
  obtain ⟨ps', S₂, hps, h⟩ := bind_eq_ok h
  obtain ⟨_, S₃, hnote, h⟩ := bind_eq_ok h
  cases h
  obtain ⟨q, rfl⟩ := expectKeyword_eq_ok hfn
  exact ⟨q, S₁, S₂, rfl, hps, hnote⟩

end Parser

end Scripting
