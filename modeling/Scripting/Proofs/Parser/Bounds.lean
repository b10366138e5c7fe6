import Scripting.Proofs.Lexer.Spelling
import Scripting.Proofs.Parser.Loops

/-!
The bound on the number of steps is no part of the language. A parser with more steps answers what it
answers with fewer, unless those ran out, and for every text there is a number of steps that is enough.
So every text has a program or an error, whatever larger bound is taken, and every expression and every
statement that is read takes a token, whatever the bound was.
-/

namespace Scripting

namespace Parser

variable {σ α β : Type}

/-- Where `p` does not run out of steps, `q` answers the same. -/
def Refines (p q : Parser α) : Prop :=
  ∀ S, q S = p S ∨ ∃ e, p S = .error e ∧ e.fault = .outOfSteps

namespace Refines

theorem refl (p : Parser α) : Refines p p := fun _ => .inl rfl

theorem exhausted (q : Parser α) : Refines exhausted q := fun _ => .inr ⟨_, rfl, rfl⟩

theorem bind {p q : Parser α} {f g : α → Parser β} (hp : Refines p q)
    (hf : ∀ a, Refines (f a) (g a)) : Refines (p >>= f) (q >>= g) := by
  intro S
  rcases hp S with h | ⟨e, h, he⟩
  · cases hrun : p S with
    | error e =>
      rw [bind_of_error hrun, bind_of_error (h.trans hrun)]
      exact .inl rfl
    | ok x =>
      rw [bind_of_ok (a := x.1) hrun, bind_of_ok (h.trans hrun)]
      exact hf x.1 x.2
  · exact .inr ⟨e, bind_of_error h, he⟩

/-- More rounds, each of which has more steps. -/
theorem rounds {round round' : σ → Parser (Round σ α)} (h : ∀ s, Refines (round s) (round' s))
    {b b' : Nat} (hb : b ≤ b') (s : σ) :
    Refines (rounds round b s) (Parser.rounds round' b' s) := by
  induction b generalizing b' s with
  | zero => exact exhausted _
  | succ b ih =>
    obtain ⟨b', rfl⟩ : ∃ d, b' = d + 1 := ⟨b' - 1, by omega⟩
    refine (h s).bind fun x => ?_
    cases x with
    | stop a => exact refl _
    | again s f => exact (ih (by omega) s).bind fun _ => refl _

end Refines

structure Refining (r r' : Sorts) : Prop where
  expression : ∀ records, Refines (r.expression records) (r'.expression records)
  statement : Refines r.statement r'.statement
  limit : r.limit = r'.limit
  bound : r.bound ≤ r'.bound

/-- Where positions are the same, parsers that are put together alike are refined by more steps. -/
theorem Composed.refines {r r' : Sorts} (hr : Refining r r') {seen : Sightings}
    {p p' : Parser α} (h : Composed r r' seen p p') (hseen : ∀ q ∈ seen, q.1 = q.2) :
    Refines p p' := by
  induction h with
  | pure | refuse | lookKind | advance | atFunction => exact .refl _
  | bind _ _ ihp ihf => exact (ihp hseen).bind fun a => ihf a hseen
  | look _ _ ihfinish ihtoken =>
    refine (Refines.refl _).bind fun t => ?_
    cases t with
    | none => exact ihfinish hseen
    | some t => exact ihtoken t.kind t.position t.position (List.forall_mem_cons.mpr ⟨rfl, hseen⟩)
  | expect _ ih =>
    exact (Refines.refl _).bind fun q => ih q q (List.forall_mem_cons.mpr ⟨rfl, hseen⟩)
  | @fault _ _ _ q q' hq _ =>
    obtain rfl : q = q' := hseen _ hq
    exact .refl _
  | @checkLength _ name p p' q q' hp hq =>
    obtain rfl : p = p' := hseen _ hp
    obtain rfl : q = q' := hseen _ hq
    have hcheck : Parser.checkLength r' name p q = Parser.checkLength r name p q := by
      unfold Parser.checkLength
      rw [hr.limit]
    exact hcheck ▸ .refl _
  | expression records => exact hr.expression records
  | statement => exact hr.statement
  | rounds _ hb s ih =>
    refine .rounds (fun s => ih s hseen) ?_ s
    rcases hb with rfl | ⟨rfl, rfl⟩
    · exact Nat.le_refl _
    · exact hr.bound

theorem Refining.refines {r r' : Sorts} (hr : Refining r r') {p p' : Parser α}
    (h : Composed r r' [] p p') : Refines p p' := h.refines hr (List.forall_mem_nil _)

def sorts (limit : Option Int) (b : Nat) : Sorts :=
  ⟨expression limit b, statement limit b, limit, b⟩

/-- More steps answer the same, for both sorts at once. -/
theorem refining_sorts (limit : Option Int) {b b' : Nat} (hb : b ≤ b') :
    Refining (sorts limit b) (sorts limit b') := by
  induction b generalizing b' with
  | zero =>
    refine ⟨fun records => ?_, ?_, rfl, hb⟩
    · simp only [sorts, expression]
      exact Refines.exhausted _
    · simp only [sorts, statement]
      exact Refines.exhausted _
  | succ b ih =>
    obtain ⟨b', rfl⟩ : ∃ d, b' = d + 1 := ⟨b' - 1, by omega⟩
    have hr := ih (Nat.le_of_succ_le_succ hb)
    refine ⟨fun records => ?_, ?_, rfl, hb⟩
    · simp only [sorts, expression]
      exact hr.refines (.assignment records)
    · simp only [sorts, statement]
      exact hr.refines .statementOf

/-- What is read with some number of steps is read with any that is enough, so it takes a token. -/
theorem Consumes.of_refines {p : Parser α} {q : Nat → Parser α} (htakes : Takes p) {b : Nat}
    (hrefines : ∀ b', b ≤ b' → Refines p (q b'))
    (hsafe : ∀ n b', 2 * n + 3 ≤ b' → Safe n 1 (q b')) : Consumes p := by
  intro S x hx
  have hbound : b ≤ b + (2 * S.length + 3) := Nat.le_add_right _ _
  rcases hrefines _ hbound S with h | ⟨e, h, -⟩
  · have hsound := hsafe S.length _ (Nat.le_add_left _ b) S (Nat.le_refl _)
    rw [h, hx] at hsound
    exact (htakes.suffix hx).behind hsound
  · rw [hx] at h
    cases h

theorem consuming_sorts (limit : Option Int) (b : Nat) : Consuming (sorts limit b) where
  expression records :=
    .of_refines (q := fun b' => expression limit b' records)
      ((taking_sorts limit b b).expression records)
      (fun _ hb => (refining_sorts limit hb).expression records)
      fun n b' hb => (safe_sorts limit b').1 n (by omega) (by omega) records
  statement :=
    .of_refines (q := statement limit) (taking_sorts limit b b).statement
      (fun _ hb => (refining_sorts limit hb).statement)
      fun n b' hb => (safe_sorts limit b').2 n (by omega) (by omega)

/-- More steps than enough make no difference. -/
theorem program_settled (limit : Option Int) {S : Stream} {b : Nat} (hb : enough S ≤ b) :
    (program (sorts limit b) b S).map Prod.fst = parseStream limit S := by
  have hrefines : Refines (program (sorts limit (enough S)) (enough S))
      (program (sorts limit b) b) := (refining_sorts limit hb).refines (.program .own)
  have hsettled : program (sorts limit b) b S = program (sorts limit (enough S)) (enough S) S := by
    rcases hrefines S with h | ⟨e, h, he⟩
    · exact h
    · have herror : parseStream limit S = .error e := by
        show (program (sorts limit (enough S)) (enough S) S).map Prod.fst = .error e
        rw [h]
        rfl
      exact absurd he (parseStream_ne_outOfSteps limit S e herror)
  rw [hsettled]
  rfl

end Parser

/-- The parser ends on every text, with a program or with an error of the text, and more steps than it
has would give the same. Whatever the number of steps, an expression or a statement that is read takes a
token, and so does every round of a loop that is followed by another. -/
theorem parser_ends (limit : Option Int) :
    (∀ source, (∃ p, parse limit source = .ok p) ∨
      ∃ e, parse limit source = .error e ∧ e.fault ≠ .outOfSteps) ∧
    (∀ source b, source.length < b →
      Stream.ofCursor b (Cursor.ofText source) = Stream.ofText source) ∧
    (∀ source b, Parser.enough (Stream.ofText source) ≤ b →
      (Parser.program (Parser.sorts limit b) b (Stream.ofText source)).map Prod.fst =
        parse limit source) ∧
    (∀ b records, Parser.Consumes (Parser.expression limit b records)) ∧
    (∀ b, Parser.Consumes (Parser.statement limit b)) ∧
    ∀ b, Parser.Loops (Parser.sorts limit b) := by
  refine ⟨fun source => ?_, fun source b hb => ?_, fun source b hb => ?_, fun b records => ?_,
    fun b => ?_, fun b => ?_⟩
  · cases h : parse limit source with
    | ok p => exact .inl ⟨p, rfl⟩
    | error e => exact .inr ⟨e, rfl, Parser.parseStream_ne_outOfSteps limit _ e h⟩
  · exact (Cursor.finds_ofCursor hb).unique (Cursor.finds_ofText source)
  · exact Parser.program_settled limit hb
  · exact (Parser.consuming_sorts limit b).expression records
  · exact (Parser.consuming_sorts limit b).statement
  · exact Parser.loops (Parser.taking_sorts limit b b) (Parser.consuming_sorts limit b)

/-- In the text `type T {` the loop over the members asks for the closing brace, not for the end of the
input. In front of the end it stops with an error all the same, whatever the number of steps. -/
theorem parser_ends_unclosed :
    ∃ e, parse none "type T \x7b" = .error e ∧ e.fault ≠ .outOfSteps ∧ ∀ b, 8 ≤ b →
      (Parser.program (Parser.sorts none b) b (Stream.ofText "type T \x7b")).map Prod.fst = .error e := by
  obtain ⟨hends, -, hsettled, -⟩ := parser_ends none
  have hfails : (parse none "type T \x7b").isOk = false := by decide +kernel
  have henough : Parser.enough (Stream.ofText "type T \x7b") = 8 := by decide
  rcases hends "type T \x7b" with ⟨p, hp⟩ | ⟨e, he, hsteps⟩
  · rw [hp] at hfails
    cases hfails
  · exact ⟨e, he, hsteps, fun b hb => (hsettled _ b (henough ▸ hb)).trans he⟩

end Scripting
