import Scripting.Proofs.Parser.Basic

/-!
What it means that a parser reads certain tokens. `Reads place more p ks a` says that `p` gives `a`
on every stream that starts with the tokens `ks` and takes no further token, provided that what comes
behind them is not in `more`; there `none` is the end of the input. All tokens stand at positions
that satisfy `place`. The statement is closed under sequencing, so it follows the text of a parser.
-/

namespace Scripting

/-- A stream with tokens `ks` at positions in `place` in front of `R`. -/
inductive Stream.Begins (place : Position → Prop) (R : Stream) : List Token.Kind → Stream → Prop
  | nil : Begins place R [] R
  | cons {ks : List Token.Kind} {S : Stream} (k : Token.Kind) {p : Position} (hp : place p)
      (rest : Begins place R ks S) : Begins place R (k :: ks) (.token ⟨k, p⟩ S)

/-- Whether a stream goes on with nothing in `more`. -/
def Stream.Halts (more : Option Token.Kind → Bool) : Stream → Prop
  | token t _ => more (some t.kind) = false
  | finish _ => more none = false
  | invalid _ => False

/-- Whether the tokens `ks`, or what follows them without being in `more`, start with nothing in
`before`. -/
def Follow (before more : Option Token.Kind → Bool) : List Token.Kind → Prop
  | [] => ∀ k, before k = true → more k = true
  | k :: _ => before (some k) = false

theorem Follow.never (more : Option Token.Kind → Bool) (ks : List Token.Kind) :
    Follow (fun _ => false) more ks := by
  cases ks with
  | nil =>
    intro k hk
    cases hk
  | cons k ks => rfl

namespace Stream

variable {place : Position → Prop} {before more : Option Token.Kind → Bool}

theorem Begins.append {R S : Stream} {ks ls : List Token.Kind} (h : Begins place R (ks ++ ls) S) :
    ∃ M, Begins place M ks S ∧ Begins place R ls M := by
  induction ks generalizing S with
  | nil => exact ⟨S, .nil, h⟩
  | cons k ks ih =>
    cases h with
    | cons _ hp rest =>
      obtain ⟨M, hks, hls⟩ := ih rest
      exact ⟨M, .cons k hp hks, hls⟩

/-- Tokens that start with nothing in `before` do not go on there. -/
theorem Begins.halts {R S : Stream} {ks : List Token.Kind} (h : Begins place R ks S)
    (hR : R.Halts more) (hks : Follow before more ks) : S.Halts before := by
  cases h with
  | nil =>
    cases R with
    | token t rest =>
      have ht : more (some t.kind) = false := hR
      have himp := hks (some t.kind)
      simp_all [Halts]
    | finish p =>
      have hend : more none = false := hR
      have himp := hks none
      simp_all [Halts]
    | invalid e => exact hR
  | cons k hp rest => exact hks

end Stream

namespace Parser

/-- The parser reads the tokens `ks` as `a` and goes on only with the tokens `more`. -/
def Reads {α : Type} (place : Position → Prop) (more : Option Token.Kind → Bool) (p : Parser α)
    (ks : List Token.Kind) (a : α) : Prop :=
  ∀ S R, Stream.Begins place R ks S → R.Halts more → p S = .ok (a, R)

namespace Reads

variable {α β : Type} {place : Position → Prop} {before more : Option Token.Kind → Bool}
  {ks ls : List Token.Kind} {a : α} {b : β}

theorem bind {p : Parser α} {q : α → Parser β} (hp : Reads place before p ks a)
    (hq : Reads place more (q a) ls b) (hls : Follow before more ls) :
    Reads place more (p >>= q) (ks ++ ls) b := by
  intro S R hS hR
  obtain ⟨M, hks, hM⟩ := hS.append
  rw [bind_of_ok (hp S M hks (hM.halts hR hls))]
  exact hq M R hM hR

theorem bind_nil {p : Parser α} {q : α → Parser β} (hp : Reads place before p [] a)
    (hq : Reads place more (q a) ls b) (hls : Follow before more ls) :
    Reads place more (p >>= q) ls b :=
  bind hp hq hls

protected theorem pure (a : α) : Reads place more (pure a : Parser α) [] a := by
  intro S R hS _
  cases hS
  rfl

theorem last {p : Parser α} {q : α → Parser β} (hp : Reads place more p ks a)
    (hq : Reads place more (q a) [] b) : Reads place more (p >>= q) ks b := by
  intro S R hS hR
  rw [bind_of_ok (hp S R hS hR)]
  exact hq R R .nil hR

theorem map {p : Parser α} {f : α → β} (hp : Reads place more p ks a) :
    Reads place more (p >>= fun x => pure (f x)) ks (f a) :=
  hp.last (Reads.pure (f a))

theorem weaken {p : Parser α} (h : Reads place before p ks a)
    (hk : ∀ k, before k = true → more k = true) : Reads place more p ks a := by
  intro S R hS hR
  have hnil : Stream.Begins place R [] R := .nil
  exact h S R hS (hnil.halts hR hk)

/-- Two parsers that agree in front of a token read the same behind it. -/
theorem congr_cons {p q : Parser α} {k : Token.Kind}
    (h : ∀ pos S, p (.token ⟨k, pos⟩ S) = q (.token ⟨k, pos⟩ S))
    (hq : Reads place more q (k :: ks) a) : Reads place more p (k :: ks) a := by
  intro S R hS hR
  have hok := hq S R hS hR
  cases hS with
  | cons _ hp rest =>
    rw [h]
    exact hok

/-- Two parsers that agree on what may follow read the same without a token. -/
theorem congr_nil {p q : Parser α}
    (htoken : ∀ k pos S, more (some k) = false → p (.token ⟨k, pos⟩ S) = q (.token ⟨k, pos⟩ S))
    (hfinish : ∀ pos, more none = false → p (.finish pos) = q (.finish pos))
    (hq : Reads place more q [] a) : Reads place more p [] a := by
  intro S R hS hR
  have hok := hq S R hS hR
  cases hS
  cases S with
  | token t S => exact (htoken t.kind _ S hR).trans hok
  | finish pos => exact (hfinish pos hR).trans hok
  | invalid e => exact hR.elim

/-- A parser that takes a token and goes on as another. -/
theorem take {p q : Parser α} {k : Token.Kind}
    (h : ∀ pos S, p (.token ⟨k, pos⟩ S) = q S) (hq : Reads place more q ks a) :
    Reads place more p (k :: ks) a := by
  intro S R hS hR
  cases hS with
  | cons _ hp rest =>
    rw [h]
    exact hq _ _ rest hR

section Primitives

theorem not_isMark_of_halts {m : Mark} {k : Token.Kind} (hm : more (some (.mark m)) = true)
    (hk : more (some k) = false) : k.isMark m = false := by
  cases hkm : k.isMark m with
  | false => rfl
  | true =>
    rw [Token.Kind.isMark_iff] at hkm
    subst hkm
    exact Bool.noConfusion (hm.symm.trans hk)

variable {k : Token.Kind}

theorem expect {m : Mark} {q : Position → Parser α}
    (h : ∀ p, place p → Reads place more (q p) ks a) :
    Reads place more (expect m >>= q) (.mark m :: ks) a := by
  intro S R hS hR
  cases hS with
  | cons _ hp rest =>
    rw [bind_of_ok (expect_mark _ _ m)]
    exact h _ hp _ _ rest hR

theorem expectName {w : Wanted} {n : String} {q : String → Parser α}
    (h : Reads place more (q n) ks a) :
    Reads place more (expectName w >>= q) (.name n :: ks) a :=
  take (fun pos S => bind_of_ok (expectName_name pos S w n)) h

theorem expectText {v : String} {q : String → Parser α} (h : Reads place more (q v) ks a) :
    Reads place more (expectText >>= q) (.text v :: ks) a :=
  take (fun pos S => bind_of_ok (expectText_text pos S v)) h

theorem expectKeyword {w : Keyword} {q : Unit → Parser α} (h : Reads place more (q ()) ks a) :
    Reads place more (expectKeyword w >>= q) (.keyword w :: ks) a :=
  take (fun pos S => bind_of_ok (expectKeyword_keyword pos S w)) h

theorem advance {q : Unit → Parser α} (h : Reads place more (q ()) ks a) :
    Reads place more (advance >>= q) (k :: ks) a :=
  take (fun pos S => advance_bind_token k pos S) h

theorem lookKind {q : Option Token.Kind → Parser α}
    (h : Reads place more (q (some k)) (k :: ks) a) :
    Reads place more (lookKind >>= q) (k :: ks) a :=
  congr_cons (fun pos S => lookKind_bind_token k pos S) h

theorem accept_true {m : Mark} {q : Bool → Parser α} (h : Reads place more (q true) ks a) :
    Reads place more (accept m >>= q) (.mark m :: ks) a := by
  refine take (fun pos S => ?_) h
  rw [bind_of_ok (accept_token (.mark m) pos S m)]
  simp [Token.Kind.isMark]

theorem accept_false {m : Mark} {q : Bool → Parser α}
    (hks : ∃ k rest, ks = k :: rest ∧ k.isMark m = false)
    (h : Reads place more (q false) ks a) : Reads place more (accept m >>= q) ks a := by
  obtain ⟨k, rest, rfl, hk⟩ := hks
  refine congr_cons (fun pos S => ?_) h
  rw [bind_of_ok (accept_token k pos S m)]
  simp [hk]

/-- A parser that tries a mark behind its last token. -/
theorem accept_nil {m : Mark} {q : Bool → Parser α} (hm : more (some (.mark m)) = true)
    (h : Reads place more (q false) [] a) : Reads place more (accept m >>= q) [] a := by
  refine congr_nil (fun k pos S hk => ?_) (fun pos _ => bind_of_ok (accept_finish pos m)) h
  rw [bind_of_ok (accept_token k pos S m), not_isMark_of_halts hm hk]
  rfl

theorem atMark_true {m : Mark} {q : Bool → Parser α}
    (h : Reads place more (q true) (.mark m :: ks) a) :
    Reads place more (atMark m >>= q) (.mark m :: ks) a := by
  refine congr_cons (fun pos S => ?_) h
  rw [bind_of_ok (atMark_token (.mark m) pos S m)]
  simp [Token.Kind.isMark]

theorem atMark_false {m : Mark} {q : Bool → Parser α}
    (hks : ∃ k rest, ks = k :: rest ∧ k.isMark m = false)
    (h : Reads place more (q false) ks a) : Reads place more (atMark m >>= q) ks a := by
  obtain ⟨k, rest, rfl, hk⟩ := hks
  refine congr_cons (fun pos S => ?_) h
  rw [bind_of_ok (atMark_token k pos S m), hk]

/-- A parser that finds a mark behind its last token. -/
theorem atMark_nil {m : Mark} {q : Bool → Parser α}
    (hm : ∀ k, more k = false → k.any (Token.Kind.isMark m) = true)
    (h : Reads place more (q true) [] a) : Reads place more (atMark m >>= q) [] a := by
  refine congr_nil (fun k pos S hk => ?_) (fun pos hnone => ?_) h
  · rw [bind_of_ok (atMark_token k pos S m), show k.isMark m = true from hm (some k) hk]
  · exact Bool.noConfusion (show false = true from hm none hnone)

/-- A parser that looks for a mark behind its last token. -/
theorem atMark_nil_false {m : Mark} {q : Bool → Parser α} (hm : more (some (.mark m)) = true)
    (h : Reads place more (q false) [] a) : Reads place more (atMark m >>= q) [] a := by
  refine congr_nil (fun k pos S hk => ?_) (fun pos _ => bind_of_ok (atMark_finish pos m)) h
  rw [bind_of_ok (atMark_token k pos S m), not_isMark_of_halts hm hk]

theorem acceptKeyword_true {w : Keyword} {q : Bool → Parser α}
    (h : Reads place more (q true) ks a) :
    Reads place more (acceptKeyword w >>= q) (.keyword w :: ks) a := by
  refine take (fun pos S => ?_) h
  rw [bind_of_ok (acceptKeyword_token (.keyword w) pos S w)]
  simp [Token.Kind.isKeyword]

/-- A parser that tries a keyword behind its last token. -/
theorem acceptKeyword_nil {w : Keyword} {q : Bool → Parser α}
    (hw : more (some (.keyword w)) = true) (h : Reads place more (q false) [] a) :
    Reads place more (acceptKeyword w >>= q) [] a := by
  refine congr_nil (fun k pos S hk => ?_) (fun pos _ => bind_of_ok (acceptKeyword_finish pos w)) h
  have hother : k.isKeyword w = false := by
    cases hkw : k.isKeyword w with
    | false => rfl
    | true =>
      rw [Token.Kind.isKeyword_iff] at hkw
      subst hkw
      exact Bool.noConfusion (hw.symm.trans hk)
  rw [bind_of_ok (acceptKeyword_token k pos S w), hother]
  rfl

theorem atKeyword {w : Keyword} {q : Bool → Parser α}
    (h : Reads place more (q (k.isKeyword w)) (k :: ks) a) :
    Reads place more (atKeyword w >>= q) (k :: ks) a :=
  congr_cons (fun pos S => bind_of_ok (atKeyword_token k pos S w)) h

theorem endStatement {q : Unit → Parser α} (h : Reads place more (q ()) ks a) :
    Reads place more (endStatement >>= q) (.mark .semicolon :: ks) a := by
  refine take (fun pos S => ?_) h
  rw [bind_of_ok (endStatement_token (.mark .semicolon) pos S)]
  rfl

theorem atStatement {b : Bool} {q : Bool → Parser α}
    (hks : ∀ S R, Stream.Begins place R ks S → Parser.atStatement S = .ok (b, S))
    (h : Reads place more (q b) ks a) : Reads place more (atStatement >>= q) ks a := by
  intro S R hS hR
  rw [bind_of_ok (hks S R hS)]
  exact h S R hS hR

theorem typeNote {q : Unit → Parser α} (hk : k.isMark .colon = false)
    (h : Reads place more (q ()) (k :: ks) a) :
    Reads place more (typeNote >>= q) (k :: ks) a := by
  refine congr_cons (fun pos S => ?_) h
  have hnote : Parser.typeNote (.token ⟨k, pos⟩ S) = .ok ((), .token ⟨k, pos⟩ S) := by
    rw [Parser.typeNote, bind_of_ok (accept_token k pos S .colon)]
    simp [hk, pure_apply]
  rw [bind_of_ok hnote]

end Primitives

end Reads

end Parser

end Scripting
