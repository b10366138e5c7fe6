import Scripting.Proofs.Parser.Levels
import Scripting.Proofs.Parser.Separation
import Scripting.Proofs.Parser.Spans

/-!
The limit on the length of functions is a check apart. With a limit the parser does what it does
without one, until the first function that is closed with too many lines between its braces; that
one is reported, and without one the program is the same.

`LintsAt` relates a parser without a limit to the one with it. The functions that are closed in the
tokens that are taken decide, in the order of their closing braces.
-/

namespace Scripting

namespace Parser

open Scripting.Span

variable {α β : Type} {n : Int} {i j k : Nat}

/-- Which of some functions that are closed is reported, if any. -/
def verdict (n : Int) (fs : List Span) (x : α) : Except SyntaxError α :=
  match fs.find? fun f => n < f.lines with
  | some f => .error ⟨.tooLong f.name n f.lines, f.first⟩
  | none => .ok x

theorem verdict_bind {p : Parser α} {f : α → Parser β} {fs gs : List Span} {S T : Stream} {a : α}
    {x : β × Stream} (hp : p S = verdict n fs (a, T)) (hf : f a T = verdict n gs x) :
    (p >>= f) S = verdict n (fs ++ gs) x := by
  unfold verdict at hp ⊢
  rw [List.find?_append]
  cases hfs : fs.find? fun f => decide (n < f.lines) with
  | some g =>
    simp only [hfs] at hp
    rw [bind_of_error hp]
    rfl
  | none =>
    simp only [hfs] at hp
    rw [bind_of_ok hp, hf]
    rfl

theorem verdict_eq_ok_iff {fs : List Span} {x y : α} :
    verdict n fs x = .ok y ↔ x = y ∧ ∀ f ∈ fs, (f.lines : Int) ≤ n := by
  unfold verdict
  cases hfs : fs.find? fun f => decide (n < f.lines) with
  | some g =>
    have hlong : n < (g.lines : Int) := by simpa using List.find?_some hfs
    refine ⟨fun h => (nomatch h), fun h => ?_⟩
    exact absurd (h.2 g (List.mem_of_find?_eq_some hfs)) (Int.not_le.mpr hlong)
  | none => simpa using fun _ => List.find?_eq_none.mp hfs

/-- Of functions in the order of their closing braces, the first that is too long is reported. -/
theorem verdict_eq_error {fs : List Span} (hfs : (fs.map Span.last).Pairwise (· < ·)) {g : Span}
    (hg : g ∈ fs) (hlong : n < (g.lines : Int)) (x : α) :
    ∃ f ∈ fs, n < (f.lines : Int) ∧ (∀ h ∈ fs, n < (h.lines : Int) → h = f ∨ f.last < h.last) ∧
      verdict n fs x = .error ⟨.tooLong f.name n f.lines, f.first⟩ := by
  cases hfind : fs.find? fun f => decide (n < f.lines) with
  | none =>
    have hnone := List.find?_eq_none.mp hfind g hg
    exact absurd hlong (by simpa using hnone)
  | some f =>
    obtain ⟨hf, before, after, rfl, hbefore⟩ := List.find?_eq_some_iff_append.mp hfind
    refine ⟨f, List.mem_of_find?_eq_some hfind, by simpa using hf, fun h hh hlong' => ?_, ?_⟩
    · rcases List.mem_append.mp hh with hh | hh
      · exact absurd hlong' (by simpa using hbefore h hh)
      rw [List.map_append, List.map_cons, List.pairwise_append, List.pairwise_cons] at hfs
      rcases List.mem_cons.mp hh with rfl | hh
      · exact .inl rfl
      · exact .inr (hfs.2.1.1 h.last (List.mem_map_of_mem hh))
    · unfold verdict
      rw [hfind]

/-- A parser that takes neither a brace nor the start of a function. -/
def Plain (p : Parser α) : Prop :=
  ∀ S a R, p S = .ok (a, R) →
    ∃ ts, S.lexed = ts ++ R.lexed ∧ ∀ t ∈ ts, t.kind.isPlain = true

theorem Plain.of_same {p : Parser α} (h : ∀ S a R, p S = .ok (a, R) → R = S) : Plain p := by
  intro S a R hp
  obtain rfl := h S a R hp
  exact ⟨[], rfl, nofun⟩

theorem Plain.pure (a : α) : Plain (pure a) := by
  refine .of_same fun S b R h => ?_
  cases h
  rfl

theorem Plain.bind {p : Parser α} {f : α → Parser β} (hp : Plain p) (hf : ∀ a, Plain (f a)) :
    Plain (p >>= f) := by
  intro S b R h
  obtain ⟨a, T, ha, hb⟩ := bind_eq_ok h
  obtain ⟨ts, hts, hplain⟩ := hp S a T ha
  obtain ⟨us, hus, hplain'⟩ := hf a T b R hb
  refine ⟨ts ++ us, by rw [hts, hus, List.append_assoc], fun t ht => ?_⟩
  exact (List.mem_append.mp ht).elim (hplain t) (hplain' t)

theorem Plain.ite {c : Bool} {p q : Parser α} (hp : Plain p) (hq : Plain q) :
    Plain (if c then p else q) := by
  cases c
  · exact hq
  · exact hp

theorem Plain.refuse (w : Wanted) : Plain (refuse w : Parser α) :=
  fun _ _ _ h => absurd h refuse_ne_ok

theorem Plain.exhausted : Plain (exhausted : Parser α) :=
  fun _ _ _ h => absurd h exhausted_ne_ok

theorem Plain.atMark (m : Mark) : Plain (atMark m) := .of_same fun _ _ _ h => (atMark_eq_ok h).1

theorem Plain.lookKind : Plain lookKind := by
  refine .of_same fun S a R h => ?_
  cases S <;> cases h <;> rfl

theorem Plain.atKeyword (w : Keyword) : Plain (atKeyword w) := by
  refine Plain.lookKind.bind fun k => ?_
  split <;> exact .pure _

theorem Plain.atFunction : Plain atFunction := by
  refine .of_same fun S a R h => ?_
  unfold Parser.atFunction at h
  split at h <;> cases h <;> rfl

theorem Plain.atStatement : Plain atStatement := by
  refine Plain.lookKind.bind fun k => ?_
  split
  · exact .ite (.pure _) Plain.atFunction
  · exact .pure _

theorem Plain.token {p : Parser α} {k : Token.Kind} (hk : k.isPlain = true)
    (h : ∀ S a R, p S = .ok (a, R) → (∃ q, S = .token ⟨k, q⟩ R) ∨ R = S) : Plain p := by
  intro S a R hp
  rcases h S a R hp with ⟨q, rfl⟩ | rfl
  · exact ⟨[⟨k, q⟩], rfl, by simpa using hk⟩
  · exact ⟨[], rfl, nofun⟩

theorem Plain.accept {m : Mark} (hm : (Token.Kind.mark m).isPlain = true) : Plain (accept m) :=
  .token hm fun _ _ _ h => (accept_eq_ok h).imp And.right And.right

theorem Plain.acceptKeyword {w : Keyword} (hw : (Token.Kind.keyword w).isPlain = true) :
    Plain (acceptKeyword w) :=
  .token hw fun _ _ _ h => (acceptKeyword_eq_ok h).imp And.right And.right

theorem Plain.expect {m : Mark} (hm : (Token.Kind.mark m).isPlain = true) : Plain (expect m) :=
  .token hm fun _ p _ h => .inl ⟨p, expect_eq_ok h⟩

theorem Plain.expectKeyword {w : Keyword} (hw : (Token.Kind.keyword w).isPlain = true) :
    Plain (expectKeyword w) := .token hw fun _ _ _ h => .inl (expectKeyword_eq_ok h)

theorem Plain.expectName (w : Wanted) : Plain (expectName w) := by
  intro S name R h
  obtain ⟨p, rfl⟩ := expectName_eq_ok h
  exact ⟨[⟨.name name, p⟩], rfl, by simp [Token.Kind.isPlain]⟩

theorem Plain.expectText : Plain expectText := by
  intro S text R h
  obtain ⟨p, rfl⟩ := expectText_eq_ok h
  exact ⟨[⟨.text text, p⟩], rfl, by simp [Token.Kind.isPlain]⟩

theorem Plain.endStatement : Plain endStatement := (Plain.accept rfl).bind fun _ => .pure _

theorem Plain.typeNote : Plain typeNote := by
  intro S a R h
  rw [← typeNote_lexed h]
  unfold Header.pastNote
  split
  · rename_i hS
    exact ⟨[_, _], hS, by simp [Token.Kind.isPlain]⟩
  · rename_i hS
    exact ⟨[_], hS, by simp [Token.Kind.isPlain]⟩
  · exact ⟨[], rfl, nofun⟩

theorem Plain.paramsRest (b : Nat) : Plain (paramsRest b) := by
  induction b with
  | zero => exact .exhausted
  | succ b ih =>
    refine (Plain.atMark _).bind fun _ => .ite (.pure _) ?_
    refine (Plain.expectName _).bind fun p => (Plain.accept rfl).bind fun _ => ?_
    refine .ite (ih.bind fun _ => .pure _) ?_
    exact (Plain.atMark _).bind fun _ => .ite (.pure _) (.refuse _)

theorem Plain.params (b : Nat) : Plain (params b) :=
  (Plain.expect rfl).bind fun _ => (Plain.paramsRest b).bind fun _ =>
    (Plain.expect rfl).bind fun _ => .pure _

/-- In front of a stream with `c`, the parser `p'` with a limit takes what `p` takes without one,
or reports the first function that is closed on the way with more than `n` lines; `o` are the
functions that are still to be closed. -/
structure LintsAt (n : Int) (c : Stream → Prop) (o : List Token → List Span) (i j : Nat)
    (p p' : Parser α) : Prop where
  ok : ∀ S a R, c S → p S = .ok (a, R) →
    ∃ fs, Passes (o S.lexed) i j fs S.lexed R.lexed ∧ p' S = verdict n fs (a, R)
  error : ∀ S e, c S → p S = .error e → ∃ e', p' S = .error e'

abbrev Lints (n : Int) (i j : Nat) (p p' : Parser α) : Prop :=
  LintsAt n (fun _ => True) Span.all i j p p'

/-- The functions that are to be closed where the body of one more may open. -/
def pending (name : String) (ts : List Token) : List Span := (ofBody? name ts).toList ++ Span.all ts

theorem ofBody?_lexed {S : Stream} (h : S.front?.any (Token.Kind.isMark .lbrace) = false)
    (name : String) : ofBody? name S.lexed = none := by
  cases S with
  | token t rest =>
    obtain ⟨k, p⟩ := t
    rw [Stream.lexed]
    unfold ofBody?
    split
    · rename_i heq
      cases (List.cons.inj heq).1
      cases h
    · rfl
  | _ => rfl

/-- The first function that two parts close is that of the first part, if it closes one. -/
theorem LintsAt.bind {c : Stream → Prop} {o : List Token → List Span} {p p' : Parser α}
    {f f' : α → Parser β} (hp : LintsAt n c o i k p p') (hf : ∀ a, Lints n k j (f a) (f' a)) :
    LintsAt n c o i j (p >>= f) (p' >>= f') where
  ok S b R hc h := by
    obtain ⟨a, T, ha, hb⟩ := bind_eq_ok h
    obtain ⟨fs, hfs, hp'⟩ := hp.ok S a T hc ha
    obtain ⟨gs, hgs, hf'⟩ := (hf a).ok T b R trivial hb
    exact ⟨fs ++ gs, hfs.trans hgs, verdict_bind hp' hf'⟩
  error S e hc h := by
    cases ha : p S with
    | error e' =>
      obtain ⟨e'', hp'⟩ := hp.error S e' hc ha
      exact ⟨e'', bind_of_error hp'⟩
    | ok x =>
      obtain ⟨a, T⟩ := x
      rw [bind_of_ok ha] at h
      obtain ⟨fs, -, hp'⟩ := hp.ok S a T hc ha
      obtain ⟨e', hf'⟩ := (hf a).error T e trivial h
      unfold verdict at hp'
      split at hp'
      · exact ⟨_, bind_of_error hp'⟩
      · exact ⟨e', (bind_of_ok hp').trans hf'⟩

theorem LintsAt.front {p p' : Parser α} (h : Lints n i j p p') (c : Stream → Prop) :
    LintsAt n c Span.all i j p p' where
  ok S a R _ := h.ok S a R trivial
  error S e _ := h.error S e trivial

theorem Lints.of_plain {p : Parser α} (hp : Plain p) : Lints n i i p p where
  ok S a R _ h := by
    obtain ⟨ts, hts, hplain⟩ := hp S a R h
    exact ⟨[], hts ▸ Passes.plain hplain R.lexed, h⟩
  error S e _ h := ⟨e, h⟩

theorem Lints.plain_bind {p : Parser α} {f f' : α → Parser β} (hp : Plain p)
    (hf : ∀ a, Lints n i j (f a) (f' a)) : Lints n i j (p >>= f) (p >>= f') :=
  (Lints.of_plain hp).bind hf

theorem Lints.pure (a : α) : Lints n i i (pure a) (pure a) := .of_plain (.pure a)

theorem Lints.exhausted : Lints n i i (exhausted : Parser α) exhausted := .of_plain .exhausted

theorem Lints.refuse (w : Wanted) : Lints n i i (refuse w : Parser α) (refuse w) :=
  .of_plain (.refuse w)

theorem Lints.fault (f : SyntaxFault) (p : Position) :
    Lints n i i (fault f p : Parser α) (fault f p) := .of_plain fun _ _ _ h => by cases h

theorem Lints.ite {c : Bool} {p p' q q' : Parser α} (hp : Lints n i j p p')
    (hq : Lints n i j q q') :
    Lints n i j (if c then p else q) (if c then p' else q') := by
  cases c
  · exact hq
  · exact hp

/-- Behind a look, the front is known. -/
theorem Lints.lookKind_bind {f f' : Option Token.Kind → Parser β}
    (h : ∀ k, LintsAt n (fun S => S.front? = k) Span.all i j (f k) (f' k)) :
    Lints n i j (lookKind >>= f) (lookKind >>= f') where
  ok S b R _ hb := by
    cases S with
    | token t rest => exact (h (some t.kind)).ok _ b R rfl hb
    | finish p => exact (h none).ok _ b R rfl hb
    | invalid e => cases hb
  error S e _ he := by
    cases S with
    | token t rest => exact (h (some t.kind)).error _ e rfl he
    | finish p => exact (h none).error _ e rfl he
    | invalid f => exact ⟨e, he⟩

theorem Lints.look_bind {f f' : Option Token → Parser β}
    (h : ∀ t, LintsAt n (fun S => S.front? = t.map Token.kind) Span.all i j (f t) (f' t)) :
    Lints n i j (look >>= f) (look >>= f') where
  ok S b R _ hb := by
    cases S with
    | token t rest => exact (h (some t)).ok _ b R rfl hb
    | finish p => exact (h none).ok _ b R rfl hb
    | invalid e => cases hb
  error S e _ he := by
    cases S with
    | token t rest => exact (h (some t)).error _ e rfl he
    | finish p => exact (h none).error _ e rfl he
    | invalid f => exact ⟨e, he⟩

theorem LintsAt.advance_bind {k : Token.Kind} (hk : k.isPlain = true) {f f' : Unit → Parser β}
    (h : Lints n i j (f ()) (f' ())) :
    LintsAt n (fun S => S.front? = some k) Span.all i j (advance >>= f) (advance >>= f') := by
  refine LintsAt.bind (k := i) ⟨fun S a R hS ha => ?_, fun S e hS he => ?_⟩ fun _ => h
  · cases S with
    | finish p => cases hS
    | invalid e => cases hS
    | token t rest =>
      obtain ⟨k', p⟩ := t
      obtain rfl : k' = k := Option.some.inj hS
      cases ha
      have hplain : ∀ t ∈ [(⟨k', p⟩ : Token)], t.kind.isPlain = true := by simpa using hk
      exact ⟨[], Passes.plain hplain R.lexed, rfl⟩
  · exact ⟨e, he⟩

/-- An opening brace goes one deeper. -/
theorem Lints.open_bind {f f' : Position → Parser β} (h : ∀ p, Lints n (i + 1) j (f p) (f' p)) :
    Lints n i j (expect .lbrace >>= f) (expect .lbrace >>= f') := by
  refine LintsAt.bind ⟨fun S p R _ hp => ⟨[], ?_, hp⟩, fun S e _ he => ⟨e, he⟩⟩ h
  rw [expect_eq_ok hp]
  exact Passes.opening p R.lexed

/-- A closing brace comes back. -/
theorem Lints.close_bind {f f' : Position → Parser β} (h : ∀ p, Lints n i j (f p) (f' p)) :
    Lints n (i + 1) j (expect .rbrace >>= f) (expect .rbrace >>= f') := by
  refine LintsAt.bind ⟨fun S p R _ hp => ⟨[], ?_, hp⟩, fun S e _ he => ⟨e, he⟩⟩ h
  rw [expect_eq_ok hp]
  exact Passes.close p R.lexed

/-- Behind an opening brace, what follows may be a closing one. -/
theorem Lints.accept_close_bind {f f' : Bool → Parser β} (ht : Lints n i j (f true) (f' true))
    (hf : Lints n (i + 1) j (f false) (f' false)) :
    Lints n (i + 1) j (accept .rbrace >>= f) (accept .rbrace >>= f') where
  ok S b R _ h := by
    obtain ⟨c, T, hc, hb⟩ := bind_eq_ok h
    rcases accept_eq_ok hc with ⟨rfl, p, rfl⟩ | ⟨rfl, rfl⟩
    · obtain ⟨fs, hfs, hf'⟩ := ht.ok T b R trivial hb
      exact ⟨fs, (Passes.close p T.lexed).trans hfs, (bind_of_ok hc).trans hf'⟩
    · obtain ⟨fs, hfs, hf'⟩ := hf.ok T b R trivial hb
      exact ⟨fs, hfs, (bind_of_ok hc).trans hf'⟩
  error S e _ h := by
    cases hc : accept .rbrace S with
    | error e' => exact ⟨e', bind_of_error hc⟩
    | ok x =>
      obtain ⟨c, T⟩ := x
      rw [bind_of_ok hc] at h ⊢
      cases c with
      | true => exact ht.error T e trivial h
      | false => exact hf.error T e trivial h

abbrev Sorts.free (e : Bool → Parser Expr) (s : Parser Stmt) (m : Nat) : Sorts := ⟨e, s, none, m⟩

abbrev Sorts.upTo (n : Int) (e : Bool → Parser Expr) (s : Parser Stmt) (m : Nat) : Sorts :=
  ⟨e, s, some n, m⟩

structure Linting (n : Int) (e e' : Bool → Parser Expr) (s s' : Parser Stmt) : Prop where
  expression : ∀ {i} records, Lints n i i (e records) (e' records)
  statement : ∀ {i}, Lints n i i s s'

/-- Operators that group to the left are plain. -/
theorem isPlain_of_levelOp? {l : Nat} {m : Mark} {op : BinaryOp} (h : levelOp? l m = some op) :
    (Token.Kind.mark m).isPlain = true := by
  cases m with
  | lbrace => exact absurd (level?_of_levelOp? h) (by simp [Mark.level?])
  | rbrace => exact absurd (level?_of_levelOp? h) (by simp [Mark.level?])
  | _ => rfl

/-- A parser takes `fn` and a header; a body in braces behind it belongs to the function of the
given name. -/
def Heads (p : Parser α) (name : α → String) : Prop :=
  ∀ S a R, p S = .ok (a, R) → ∃ q ts, S.lexed = ⟨.keyword .fn, q⟩ :: (ts ++ R.lexed) ∧
    (∀ t ∈ ts, t.kind.isPlain = true) ∧ ofHeader? (ts ++ R.lexed) = ofBody? (name a) R.lexed

theorem heads_signature (b : Nat) : Heads (signature b) Prod.fst := by
  intro S x R h
  obtain ⟨q, p, S₁, S₂, rfl, hps, hnote⟩ := signature_eq_ok h
  have hplain : Plain (params b >>= fun _ => typeNote) := (Plain.params b).bind fun _ => .typeNote
  obtain ⟨ts, hts, hplain⟩ := hplain S₁ () R ((bind_of_ok hps).trans hnote)
  refine ⟨q, ⟨.name x.1, p⟩ :: ts, by simp [Stream.lexed, hts], ?_, ?_⟩
  · exact List.forall_mem_cons.mpr ⟨rfl, hplain⟩
  · rw [List.cons_append, ← hts, ofHeader?, Header.split?, params_lexed hps,
      ← typeNote_lexed hnote]
    rfl

theorem heads_literalHead (b : Nat) : Heads (literalHead b) fun _ => "<lambda>" := by
  intro S ps R h
  obtain ⟨q, S₁, S₂, rfl, hps, hnote⟩ := literalHead_eq_ok h
  have hplain : Plain (params b >>= fun _ => typeNote) := (Plain.params b).bind fun _ => .typeNote
  obtain ⟨ts, hts, hplain⟩ := hplain S₁ () R ((bind_of_ok hps).trans hnote)
  refine ⟨q, ts, by rw [Stream.lexed, hts], hplain, ?_⟩
  rw [← hts, ofHeader?, Header.split?_of_pastParams? (params_lexed hps), ← typeNote_lexed hnote]
  rfl

/-- Behind a header stands a body, which closes the function of that header. -/
theorem Lints.fn_bind {p : Parser α} {name : α → String} {f f' : α → Parser β}
    (hp : Heads p name)
    (hf : ∀ a, LintsAt n (fun _ => True) (pending (name a)) i i (f a) (f' a)) :
    Lints n i i (p >>= f) (p >>= f') where
  ok S b R _ h := by
    obtain ⟨a, T, ha, hb⟩ := bind_eq_ok h
    obtain ⟨q, ts, hS, hplain, hspan⟩ := hp S a T ha
    obtain ⟨fs, hfs, hf'⟩ := (hf a).ok T b R trivial hb
    exact ⟨fs, hS ▸ hfs.header hplain hspan, (bind_of_ok ha).trans hf'⟩
  error S x _ h := by
    cases ha : p S with
    | error y => exact ⟨y, bind_of_error ha⟩
    | ok y =>
      rw [bind_of_ok (a := y.1) ha] at h ⊢
      exact (hf y.1).error y.2 x trivial h

section Sorts

variable {e e' : Bool → Parser Expr} {s s' : Parser Stmt} (hr : Linting n e e' s s') (m : Nat)
include hr

theorem Lints.statements (b : Nat) :
    Lints n i i (statements (.free e s m) b) (statements (.upTo n e' s' m) b) := by
  induction b with
  | zero => exact .exhausted
  | succ b ih =>
    refine Lints.lookKind_bind fun k => ?_
    split
    · exact (Lints.pure _).front _
    · exact (Lints.pure _).front _
    · exact .advance_bind rfl ih
    · exact (hr.statement.bind fun _ => ih.bind fun _ => .pure _).front _

theorem Lints.braced : Lints n i i (braced (.free e s m)) (braced (.upTo n e' s' m)) :=
  .open_bind fun _ => (Lints.statements hr m m).bind fun _ => .close_bind fun _ => .pure _

theorem Lints.block : Lints n i i (block (.free e s m)) (block (.upTo n e' s' m)) :=
  (Lints.braced hr m).bind fun _ => .pure _

omit hr in
theorem checkLength_upTo (name : String) (first last : Position) (S : Stream) :
    checkLength (.upTo n e s m) name first last S = verdict n [⟨name, first, last⟩] ((), S) := by
  by_cases h : n < ((last.line - first.line : Nat) : Int)
  · simp [checkLength, verdict, lines, h, fault]
  · simp [checkLength, verdict, lines, h]
    rfl

/-- A function is closed, and checked, with its body. -/
theorem LintsAt.functionBody (name : String) :
    LintsAt n (fun _ => True) (pending name) i i (functionBody (.free e s m) name)
      (functionBody (.upTo n e' s' m) name) where
  ok S ss R _ h := by
    simp only [Parser.functionBody, Parser.braced, bind_assoc, pure_bind] at h ⊢
    obtain ⟨first, T, hopen, h⟩ := bind_eq_ok h
    obtain ⟨ss', U, hss, h⟩ := bind_eq_ok h
    obtain ⟨last, V, hclose, h⟩ := bind_eq_ok h
    cases h
    obtain rfl := expect_eq_ok hopen
    obtain rfl := expect_eq_ok hclose
    obtain ⟨fs, hfs, hss'⟩ := (Lints.statements (i := 0) hr m m).ok _ _ _ trivial hss
    refine ⟨fs ++ [(⟨name, first, last⟩ : Span)], hfs.body, ?_⟩
    rw [bind_of_ok (expect_mark first T .lbrace)]
    refine verdict_bind hss' ?_
    rw [bind_of_ok (expect_mark last R .rbrace), ← List.append_nil [(⟨name, first, last⟩ : Span)]]
    exact verdict_bind (checkLength_upTo m name first last R) rfl
  error S x _ h := by
    cases hb : Parser.braced (.free e s m) S with
    | ok y =>
      rw [Parser.functionBody, bind_of_ok hb] at h
      cases h
    | error y =>
      obtain ⟨y', hy'⟩ := (Lints.braced (i := 0) hr m).error S y trivial hb
      exact ⟨y', bind_of_error hy'⟩

theorem Lints.expressions (c : Mark) (b : Nat) :
    Lints n i i (expressions (.free e s m) c b) (expressions (.upTo n e' s' m) c b) := by
  induction b with
  | zero => exact .exhausted
  | succ b ih =>
    refine .plain_bind (.atMark _) fun _ => .ite (.pure _) ((hr.expression _).bind fun _ => ?_)
    exact .plain_bind (.accept rfl) fun _ => .ite (ih.bind fun _ => .pure _) (.pure _)

theorem Lints.recordFields (b : Nat) :
    Lints n i i (recordFields (.free e s m) b) (recordFields (.upTo n e' s' m) b) := by
  induction b with
  | zero => exact .exhausted
  | succ b ih =>
    refine .plain_bind (.atMark _) fun _ => .ite (.pure _) ?_
    refine .plain_bind (.expectName _) fun _ => .plain_bind (.expect rfl) fun _ => ?_
    refine (hr.expression _).bind fun _ => ?_
    exact .plain_bind (.accept rfl) fun _ => .ite (ih.bind fun _ => .pure _) (.pure _)

theorem Lints.commaExpressions (b : Nat) :
    Lints n i i (commaExpressions (.free e s m) b) (commaExpressions (.upTo n e' s' m) b) := by
  induction b with
  | zero => exact .exhausted
  | succ b ih =>
    refine .plain_bind (.accept rfl) fun _ => .ite ?_ (.pure _)
    exact (hr.expression _).bind fun _ => ih.bind fun _ => .pure _

theorem Lints.commaPairs (b : Nat) :
    Lints n i i (commaPairs (.free e s m) b) (commaPairs (.upTo n e' s' m) b) := by
  induction b with
  | zero => exact .exhausted
  | succ b ih =>
    refine .plain_bind (.accept rfl) fun _ => .ite ?_ (.pure _)
    refine .plain_bind (.atMark _) fun _ => .ite (.pure _) ((hr.expression _).bind fun _ => ?_)
    exact .plain_bind (.expect rfl) fun _ => (hr.expression _).bind fun _ => ih.bind fun _ =>
      .pure _

theorem Lints.group : Lints n i i (group (.free e s m)) (group (.upTo n e' s' m)) := by
  refine .plain_bind (.expect rfl) fun _ => (hr.expression _).bind fun _ => ?_
  refine (Lints.commaExpressions hr m _).bind fun es => ?_
  split <;> exact .plain_bind (.expect rfl) fun _ => .pure _

theorem Lints.list : Lints n i i (list (.free e s m)) (list (.upTo n e' s' m)) :=
  .plain_bind (.expect rfl) fun _ => (Lints.expressions hr m _ _).bind fun _ =>
    .plain_bind (.expect rfl) fun _ => .pure _

theorem Lints.record (type : String) :
    Lints n i i (record (.free e s m) type) (record (.upTo n e' s' m) type) :=
  .open_bind fun _ => (Lints.recordFields hr m _).bind fun _ => .close_bind fun _ => .pure _

theorem Lints.brace : Lints n i i (brace (.free e s m)) (brace (.upTo n e' s' m)) := by
  refine .open_bind fun _ => .accept_close_bind (.pure _) ?_
  refine .plain_bind .atStatement fun _ => .ite ?_ ((hr.expression _).bind fun _ => ?_)
  · exact (Lints.statements hr m _).bind fun _ => .close_bind fun _ => .pure _
  · refine .plain_bind (.accept rfl) fun _ => .ite ?_ ?_
    · exact (hr.expression _).bind fun _ => (Lints.commaPairs hr m _).bind fun _ =>
        .close_bind fun _ => .pure _
    · exact .plain_bind .endStatement fun _ => (Lints.statements hr m _).bind fun _ =>
        .close_bind fun _ => .pure _

/-- The body of a function literal has braces, or it is a statement and closes nothing. -/
theorem LintsAt.literalBody (ps : List Name) :
    LintsAt n (fun _ => True) (pending "<lambda>") i i (literalBody (.free e s m) ps)
      (literalBody (.upTo n e' s' m) ps) where
  ok S x R _ h := by
    obtain ⟨c, T, hc, h⟩ := bind_eq_ok h
    obtain ⟨rfl, hfront⟩ := atMark_eq_ok hc
    cases c with
    | true =>
      have hbody := (LintsAt.functionBody (i := i) hr m "<lambda>").bind fun body =>
        Lints.pure (Expr.lambda ps body)
      obtain ⟨fs, hfs, hx⟩ := hbody.ok T x R trivial h
      exact ⟨fs, hfs, (bind_of_ok hc).trans hx⟩
    | false =>
      have hbody := (hr.statement (i := i)).bind fun body => Lints.pure (Expr.lambda ps [body])
      obtain ⟨fs, hfs, hx⟩ := hbody.ok T x R trivial h
      refine ⟨fs, ?_, (bind_of_ok hc).trans hx⟩
      rwa [pending, ofBody?_lexed hfront]
  error S x _ h := by
    cases hc : Parser.atMark .lbrace S with
    | error y => exact ⟨y, bind_of_error hc⟩
    | ok y =>
      obtain ⟨c, T⟩ := y
      unfold Parser.literalBody at h ⊢
      rw [bind_of_ok hc] at h ⊢
      cases c with
      | true =>
        have hbody := (LintsAt.functionBody (i := i) hr m "<lambda>").bind fun body =>
          Lints.pure (Expr.lambda ps body)
        exact hbody.error T x trivial h
      | false =>
        have hbody := (hr.statement (i := i)).bind fun body => Lints.pure (Expr.lambda ps [body])
        exact hbody.error T x trivial h

theorem Lints.lambda : Lints n i i (lambda (.free e s m)) (lambda (.upTo n e' s' m)) := by
  rw [lambda_eq, lambda_eq]
  exact .fn_bind (heads_literalHead _) fun _ => LintsAt.literalBody hr m _

theorem Lints.function : Lints n i i (function (.free e s m)) (function (.upTo n e' s' m)) := by
  rw [function_eq, function_eq]
  exact .fn_bind (heads_signature _) fun _ => (LintsAt.functionBody hr m _).bind fun _ => .pure _

theorem Lints.primary (records : Bool) :
    Lints n i i (primary (.free e s m) records) (primary (.upTo n e' s' m) records) := by
  refine Lints.lookKind_bind fun k => ?_
  split
  · exact .advance_bind rfl (.pure _)
  · exact .advance_bind rfl (.pure _)
  · exact .advance_bind rfl (.pure _)
  · exact .advance_bind rfl (.pure _)
  · refine .advance_bind rfl (.ite ?_ (.pure _))
    exact .plain_bind (.atMark _) fun _ => .ite (Lints.record hr m _) (.pure _)
  · exact (Lints.group hr m).front _
  · exact (Lints.list hr m).front _
  · exact (Lints.brace hr m).front _
  · exact (Lints.lambda hr m).front _
  · exact (Lints.refuse _).front _

theorem Lints.trailers (b : Nat) (x : Expr) :
    Lints n i i (trailers (.free e s m) b x) (trailers (.upTo n e' s' m) b x) := by
  induction b generalizing x with
  | zero => exact .exhausted
  | succ b ih =>
    refine Lints.lookKind_bind fun k => ?_
    split
    · exact .advance_bind rfl ((Lints.expressions hr m _ _).bind fun _ =>
        .plain_bind (.expect rfl) fun _ => ih _)
    · exact .advance_bind rfl (.plain_bind (.expectName _) fun _ => ih _)
    · exact .advance_bind rfl ((hr.expression _).bind fun _ =>
        .plain_bind (.expect rfl) fun _ => ih _)
    · exact (Lints.pure _).front _

theorem Lints.signed (records : Bool) (b : Nat) :
    Lints n i i (signed (.free e s m) records b) (signed (.upTo n e' s' m) records b) := by
  induction b with
  | zero => exact .exhausted
  | succ b ih =>
    refine .plain_bind (.accept rfl) fun _ => .ite (ih.bind fun _ => .pure _) ?_
    refine .plain_bind (.accept rfl) fun _ => .ite (ih.bind fun _ => .pure _) ?_
    exact (Lints.primary hr m records).bind fun _ => Lints.trailers hr m _ _

theorem Lints.power (records : Bool) (b : Nat) :
    Lints n i i (power (.free e s m) records b) (power (.upTo n e' s' m) records b) := by
  induction b with
  | zero => exact .exhausted
  | succ b ih =>
    refine (Lints.signed hr m records _).bind fun _ => ?_
    exact .plain_bind (.accept rfl) fun _ => .ite (ih.bind fun _ => .pure _) (.pure _)

omit hr in
theorem Lints.level (l : Nat) {p p' : Parser Expr} (hp : Lints n i i p p') :
    Lints n i i (level (.free e s m) (levelOp? l) p) (level (.upTo n e' s' m) (levelOp? l) p') := by
  refine hp.bind fun x => ?_
  change Lints n i i (chain (levelOp? l) p m x) (chain (levelOp? l) p' m x)
  generalize m = b
  induction b generalizing x with
  | zero => exact .exhausted
  | succ b ih =>
    refine Lints.lookKind_bind fun k => ?_
    split
    · split
      · rename_i hop
        exact .advance_bind (isPlain_of_levelOp? hop) (hp.bind fun _ => ih _)
      · exact (Lints.pure _).front _
    · exact (Lints.pure _).front _

theorem Lints.disjunction (records : Bool) :
    Lints n i i (disjunction (.free e s m) records) (disjunction (.upTo n e' s' m) records) := by
  have hproduct : Lints n i i (product (.free e s m) records)
      (product (.upTo n e' s' m) records) := .level m 6 (Lints.power hr m records _)
  have hequality : Lints n i i (equality (.free e s m) records)
      (equality (.upTo n e' s' m) records) := .level m 3 (.level m 4 (.level m 5 hproduct))
  exact .level m 1 (.level m 2 hequality)

theorem Lints.assignment (records : Bool) :
    Lints n i i (assignment (.free e s m) records) (assignment (.upTo n e' s' m) records) := by
  refine (Lints.disjunction hr m records).bind fun target => Lints.look_bind fun t => ?_
  split
  · refine .advance_bind rfl ((hr.expression _).bind fun value => ?_)
    split
    · exact .pure _
    · exact .fault _ _
  · exact (Lints.pure _).front _

theorem Lints.binding (w : Wanted) :
    Lints n i i (binding (.free e s m) w) (binding (.upTo n e' s' m) w) :=
  .plain_bind (.expectName _) fun _ => .plain_bind .typeNote fun _ =>
    .plain_bind (.expect rfl) fun _ => (hr.expression _).bind fun _ =>
      .plain_bind .endStatement fun _ => .pure _

theorem Lints.returned : Lints n i i (returned (.free e s m)) (returned (.upTo n e' s' m)) := by
  have hend : ∀ v, Lints n i i (Parser.endStatement >>= fun _ => Pure.pure (Stmt.return_ v))
      (Parser.endStatement >>= fun _ => Pure.pure (Stmt.return_ v)) :=
    fun v => .plain_bind .endStatement fun _ => .pure _
  refine Lints.lookKind_bind fun k => ?_
  split
  · exact ((Lints.pure _).bind hend).front _
  · exact ((Lints.pure _).bind hend).front _
  · exact ((Lints.pure _).bind hend).front _
  · rw [map_eq_pure_bind, map_eq_pure_bind]
    exact (((hr.expression _).bind fun _ => .pure _).bind hend).front _

theorem Lints.conditional :
    Lints n i i (conditional (.free e s m)) (conditional (.upTo n e' s' m)) := by
  refine (hr.expression _).bind fun _ => (Lints.block hr m).bind fun _ => ?_
  refine .plain_bind (.acceptKeyword rfl) fun _ => .ite ?_ (.pure _)
  refine .plain_bind (.atKeyword _) fun _ => .ite ?_ ?_
  · exact hr.statement.bind fun _ => .pure _
  · exact (Lints.block hr m).bind fun _ => .pure _

theorem Lints.whileLoop : Lints n i i (whileLoop (.free e s m)) (whileLoop (.upTo n e' s' m)) :=
  (hr.expression _).bind fun _ => (Lints.block hr m).bind fun _ => .pure _

theorem Lints.forLoop : Lints n i i (forLoop (.free e s m)) (forLoop (.upTo n e' s' m)) :=
  .plain_bind (.expectName _) fun _ => .plain_bind (.expectKeyword rfl) fun _ =>
    (hr.expression _).bind fun _ => .plain_bind (.expect rfl) fun _ =>
      (hr.expression _).bind fun _ => (Lints.block hr m).bind fun _ => .pure _

theorem Lints.printed : Lints n i i (printed (.free e s m)) (printed (.upTo n e' s' m)) :=
  (hr.expression _).bind fun _ => (Lints.commaExpressions hr m _).bind fun _ =>
    .plain_bind .endStatement fun _ => .pure _

theorem Lints.typeMembers (type : String) (b : Nat) :
    Lints n i i (typeMembers (.free e s m) type b) (typeMembers (.upTo n e' s' m) type b) := by
  induction b with
  | zero => exact .exhausted
  | succ b ih =>
    refine Lints.lookKind_bind fun k => ?_
    split
    · exact (Lints.pure _).front _
    · exact .advance_bind rfl ih
    · exact .advance_bind rfl ih
    · exact ((Lints.function hr m).bind fun _ => ih.bind fun _ => .pure _).front _
    · exact .advance_bind rfl (.plain_bind (.expect rfl) fun _ => (hr.expression _).bind fun _ =>
        ih.bind fun _ => .pure _)
    · exact (Lints.refuse _).front _

theorem Lints.typeDeclaration :
    Lints n i i (typeDeclaration (.free e s m)) (typeDeclaration (.upTo n e' s' m)) :=
  .plain_bind (.expectName _) fun _ => .open_bind fun _ =>
    (Lints.typeMembers hr m _ _).bind fun _ => .close_bind fun _ => .pure _

theorem Lints.keywordStatement {w : Keyword} {p : Parser Stmt}
    (h : keywordStatement? (.free e s m) w = some p) :
    ∃ p', keywordStatement? (.upTo n e' s' m) w = some p' ∧ Lints n i i p p' := by
  have hend : ∀ x, Lints n i i (Parser.endStatement >>= fun _ => Pure.pure x : Parser Stmt)
      (Parser.endStatement >>= fun _ => Pure.pure x) :=
    fun x => .plain_bind .endStatement fun _ => .pure x
  cases w with
  | let_ => cases h; exact ⟨_, rfl, (Lints.binding hr m _).bind fun _ => .pure _⟩
  | const => cases h; exact ⟨_, rfl, (Lints.binding hr m _).bind fun _ => .pure _⟩
  | return_ => cases h; exact ⟨_, rfl, Lints.returned hr m⟩
  | if_ => cases h; exact ⟨_, rfl, Lints.conditional hr m⟩
  | while_ => cases h; exact ⟨_, rfl, Lints.whileLoop hr m⟩
  | for_ => cases h; exact ⟨_, rfl, Lints.forLoop hr m⟩
  | import_ => cases h; exact ⟨_, rfl, .plain_bind .expectText fun _ => hend _⟩
  | break_ => cases h; exact ⟨_, rfl, hend _⟩
  | continue_ => cases h; exact ⟨_, rfl, hend _⟩
  | print => cases h; exact ⟨_, rfl, Lints.printed hr m⟩
  | type => cases h; exact ⟨_, rfl, Lints.typeDeclaration hr m⟩
  | _ => cases h

omit hr in
theorem keywordStatement?_upTo {w : Keyword} (h : keywordStatement? (.free e s m) w = none) :
    keywordStatement? (.upTo n e' s' m) w = none := by
  cases w <;> first | rfl | cases h

/-- A statement reports the first function that is closed in it with too many lines. -/
theorem Lints.statementOf :
    Lints n i i (statementOf (.free e s m)) (statementOf (.upTo n e' s' m)) := by
  have hexpr : Lints n i i (expressionStatement (.free e s m))
      (expressionStatement (.upTo n e' s' m)) :=
    (hr.expression _).bind fun _ => .plain_bind .endStatement fun _ => .pure _
  refine Lints.look_bind fun t => ?_
  cases t with
  | none => exact hexpr.front _
  | some t =>
    obtain ⟨k, p⟩ := t
    cases k with
    | keyword w =>
      cases hw : keywordStatement? (.free e s m) w with
      | some q =>
        obtain ⟨q', hw', hq⟩ := Lints.keywordStatement (i := i) hr m hw
        have hplain : (Token.Kind.keyword w).isPlain = true := by
          cases w <;> first | rfl | cases hw
        simp only [hw, hw']
        exact .advance_bind hplain hq
      | none =>
        simp only [hw, keywordStatement?_upTo m hw]
        refine LintsAt.front (.ite (.fault _ _) (.plain_bind .atFunction fun _ => ?_)) _
        exact .ite (Lints.function hr m) hexpr
    | mark k =>
      cases k with
      | lbrace => exact ((Lints.block hr m).bind fun _ => .pure _).front _
      | _ => exact hexpr.front _
    | _ => exact hexpr.front _

theorem Lints.program (b : Nat) :
    Lints n i i (program (.free e s m) b) (program (.upTo n e' s' m) b) := by
  induction b with
  | zero => exact .exhausted
  | succ b ih =>
    refine Lints.lookKind_bind fun k => ?_
    split
    · exact (Lints.pure _).front _
    · exact .advance_bind rfl ih
    · exact (hr.statement.bind fun _ => ih.bind fun _ => .pure _).front _

end Sorts

/-- Both sorts at once, by induction on the depth. -/
theorem linting_sorts (n : Int) (b : Nat) :
    Linting n (expression none b) (expression (some n) b) (statement none b)
      (statement (some n) b) := by
  induction b with
  | zero =>
    constructor
    · intro i records
      simp only [expression]
      exact .exhausted
    · simp only [statement]
      exact .exhausted
  | succ b ih =>
    constructor
    · intro i records
      simp only [expression]
      exact Lints.assignment ih b records
    · simp only [statement]
      exact Lints.statementOf ih b

/-- With a limit, a stream with a program has that program, or the first of its functions that is
closed too late is reported. -/
theorem parseStream_upTo {S : Stream} {p : Program} (h : parseStream none S = .ok p) (n : Int) :
    ∃ fs : List Span, (fs.map Span.last).Sublist (S.lexed.map Token.position) ∧
      (∀ f, f ∈ Span.all S.lexed ↔ f ∈ fs) ∧ parseStream (some n) S = verdict n fs p := by
  obtain ⟨R, hR⟩ := program_of_parseStream h
  obtain ⟨q, rfl⟩ := program_rest hR
  obtain ⟨fs, hfs, hverdict⟩ :=
    (Lints.program (i := 0) (linting_sorts n _) _ _).ok _ _ _ trivial hR
  refine ⟨fs, ?_, fun f => ?_, ?_⟩
  · obtain ⟨ts, hts, hlast⟩ := hfs.taken
    rw [hts, List.map_append]
    exact hlast.trans (List.sublist_append_left _ _)
  · rw [hfs.spans]
    simp [Stream.lexed, Span.all]
  · change (program _ (enough S) S).map Prod.fst = _
    rw [hverdict]
    unfold verdict
    split <;> rfl

/-- A stream without a program has none with a limit either. -/
theorem parseStream_upTo_error {S : Stream} {x : SyntaxError} (h : parseStream none S = .error x)
    (n : Int) : ∃ y, parseStream (some n) S = .error y := by
  obtain ⟨y, hy⟩ := (Lints.program (i := 0) (linting_sorts n _) _ _).error _ _ trivial
    (program_of_parseStream_error h)
  refine ⟨y, ?_⟩
  change (program _ (enough S) S).map Prod.fst = _
  rw [hy]
  rfl

end Parser

theorem Stream.positions_ofText (s : String) :
    ((ofText s).lexed.map Token.position).Pairwise (· < ·) :=
  (List.pairwise_append.mp (Partition.ofText s).increasing.1).1

/-- A limit is kept or broken by the functions of a text. -/
theorem parse_upTo_iff {s : String} {n : Int} {p : Program} :
    parse (some n) s = .ok p ↔ parse none s = .ok p ∧
      ∀ f ∈ Span.all (Stream.ofText s).lexed, (f.lines : Int) ≤ n := by
  cases hnone : parse none s with
  | error x =>
    obtain ⟨y, hy⟩ := Parser.parseStream_upTo_error hnone n
    refine ⟨fun h => ?_, fun h => nomatch h.1⟩
    cases hy.symm.trans h
  | ok p' =>
    obtain ⟨fs, -, hall, hverdict⟩ := Parser.parseStream_upTo hnone n
    rw [parse, hverdict, Parser.verdict_eq_ok_iff, Except.ok.injEq]
    simp only [hall]

/-- The limit on the length of functions is a check apart: a text has a program under a limit
exactly if it has that program without one and no function has more lines between its braces.
Where only the latter fails, the error is about the function that is closed first among those
that are too long, stands at its opening brace and names it and its lines. A program under one
limit is the same under any higher one. -/
theorem parse_limited (s : String) (n : Int) :
    (∀ p, parse (some n) s = .ok p ↔ parse none s = .ok p ∧
      ∀ f ∈ Span.all (Stream.ofText s).lexed, (f.last.line : Int) - (f.first.line : Int) ≤ n) ∧
    (∀ p, parse none s = .ok p →
      ∀ g ∈ Span.all (Stream.ofText s).lexed, n < (g.last.line : Int) - (g.first.line : Int) →
      ∃ f ∈ Span.all (Stream.ofText s).lexed, n < (f.last.line : Int) - (f.first.line : Int) ∧
        (∀ h ∈ Span.all (Stream.ofText s).lexed, n < (h.last.line : Int) - (h.first.line : Int) →
          h = f ∨ f.last < h.last) ∧
        ∃ e, parse (some n) s = .error e ∧ e.fault.kind = .custom ∧
          e.fault = .tooLong f.name n (f.last.line - f.first.line) ∧ e.position = f.first) ∧
    ∀ p m, n ≤ m → parse (some n) s = .ok p → parse (some m) s = .ok p := by
  have hlines : ∀ f ∈ Span.all (Stream.ofText s).lexed,
      (f.lines : Int) = (f.last.line : Int) - (f.first.line : Int) :=
    fun f hf => Span.lines_eq (Stream.positions_ofText s) hf
  refine ⟨fun p => ?_, fun p hp g hg hlong => ?_, fun p m hm hp => ?_⟩
  · rw [parse_upTo_iff]
    exact and_congr_right fun _ => forall₂_congr fun f hf => by rw [hlines f hf]
  · obtain ⟨fs, hsublist, hall, hverdict⟩ := Parser.parseStream_upTo hp n
    have hsorted := (Stream.positions_ofText s).sublist hsublist
    obtain ⟨f, hf, hflong, hfirst, herror⟩ :=
      Parser.verdict_eq_error hsorted ((hall g).mp hg) (hlines g hg ▸ hlong) p
    have hf' := (hall f).mpr hf
    refine ⟨f, hf', hlines f hf' ▸ hflong, fun h hh hlong' => ?_, _, hverdict.trans herror, rfl,
      rfl, rfl⟩
    exact hfirst h ((hall h).mp hh) (hlines h hh ▸ hlong')
  · rw [parse_upTo_iff] at hp ⊢
    exact ⟨hp.1, fun f hf => Int.le_trans (hp.2 f hf) hm⟩

/-- Two functions have too many lines; the inner one is closed first and is reported. -/
theorem parse_limited_nested :
    let source := "fn f() {
  let g = fn (): T {
  }
}"
    ∃ e, parse (some 0) source = .error e ∧
      e.fault = .tooLong "<lambda>" 0 1 ∧ e.position = ⟨2, 20⟩ := by
  intro source
  have hok : (parse none source).isOk = true := by decide +kernel
  have hspans : Span.all (Stream.ofText source).lexed =
      [⟨"f", ⟨1, 8⟩, ⟨4, 1⟩⟩, ⟨"<lambda>", ⟨2, 20⟩, ⟨3, 3⟩⟩] := by
    decide
  obtain ⟨f, hf, -, hfirst, e, he, -, hfault, hplace⟩ := (parse_limited _ 0).2.1 _
    (eq_ok_of_isOk hok) ⟨"f", ⟨1, 8⟩, ⟨4, 1⟩⟩ (by simp [hspans]) (by decide)
  rw [hspans] at hf hfirst
  have hinner := hfirst ⟨"<lambda>", ⟨2, 20⟩, ⟨3, 3⟩⟩ (by simp) (by decide)
  refine ⟨e, he, ?_⟩
  rcases hinner with rfl | hlt
  · exact ⟨hfault, hplace⟩
  · rcases List.mem_cons.mp hf with rfl | hf
    · exact absurd hlt (by simp [Position.lt_iff])
    · rw [List.mem_singleton.mp hf] at hfault hplace
      exact ⟨hfault, hplace⟩

end Scripting
