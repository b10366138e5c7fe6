import Scripting.Console
import Scripting.Proofs.Eval.Restored

/-!
What a console does from line to line. Its waiting text and its prompt never drift apart, a text
runs only when it is complete, and then as its statements do one after the other; between two lines
the programs stand in the global frame, whatever a line has ended with.
-/

namespace Scripting

/-- The statements of a program run in order up to the first failure; the answer is the value of
the last one, or `last` if there is none. -/
inductive Machine.Runs (settings : Settings) :
    (last : Value) → Program → Machine → Except Failure Value → Machine → Prop
  | done (last : Value) (m : Machine) : Runs settings last [] m (.ok last) m
  | next {last v : Value} {s : Stmt} {rest : Program} {m m₁ m₂ : Machine}
      {result : Except Failure Value} (first : m.runStmt settings s = (.ok v, m₁))
      (more : Runs settings v rest m₁ result m₂) : Runs settings last (s :: rest) m result m₂
  | stop {last : Value} {s : Stmt} {rest : Program} {m m₁ : Machine} {cause : Failure}
      (first : m.runStmt settings s = (.error cause, m₁)) :
      Runs settings last (s :: rest) m (.error cause) m₁

namespace Machine

variable {settings : Settings}

/-- What the loop over the statements of a program comes to is the run of these statements. -/
theorem runs_runAll (p : Program) (last : Value) (m : Machine) :
    Runs settings last p m (Eval.runAll settings manySteps last p m).1
      (Eval.runAll settings manySteps last p m).2 := by
  induction p generalizing last m with
  | nil => exact .done last m
  | cons s rest ih =>
    cases h : Eval.runStmt settings manySteps s m with
    | mk result m₁ =>
      cases result with
      | ok v =>
        rw [Eval.runAll, Eval.bind_of_ok h]
        exact .next h (ih v m₁)
      | error cause =>
        rw [Eval.runAll, Eval.bind_of_error h]
        exact .stop h

theorem runs_run (p : Program) (m : Machine) :
    Runs settings .null p m (m.run settings p).1 (m.run settings p).2 :=
  runs_runAll p .null m

theorem Runs.place_eq {last : Value} {p : Program} {m m₁ : Machine}
    {result : Except Failure Value} (h : Runs settings last p m result m₁) :
    m₁.place = m.place := by
  have hstmt : ∀ {s : Stmt} {m m₁ : Machine} {r : Except Failure Value},
      m.runStmt settings s = (r, m₁) → m₁.place = m.place := fun {s m m₁ r} h => by
    have := Eval.restores_runStmt settings manySteps s m
    rwa [show Eval.runStmt settings manySteps s m = (r, m₁) from h] at this
  induction h with
  | done => rfl
  | next first more ih => exact ih.trans (hstmt first)
  | stop first => exact hstmt first

end Machine

namespace Console

/-- The lines that a console answers itself: blank ones, those that ask for help, and those that end
it. -/
def IsCommand (line : List Char) : Prop :=
  Text.strip line = [] ∨ (Text.strip line).head? = some '?' ∨
    String.ofList ((Text.strip line).takeWhile isWordChar) ∈ ["help", "exit", "EOF"]

/-- What a line makes of a console. A command only writes. Any other line ends the waiting text: the
whole text waits on, or is dropped, or runs. -/
inductive Steps (mode : Mode) (c : Console) (line : List Char) : Console → Prop
  | command (h : IsCommand line) (text : String) : Steps mode c line (c.write text)
  | waits {e : SyntaxError} (h : ¬ IsCommand line)
      (parsed : mode.front.parse mode.limit (c.waiting ++ String.ofList (Text.strip line)) = .error e)
      (kind : e.fault.kind = .unexpectedEnd) :
      Steps mode c line
        { c with waiting := c.waiting ++ String.ofList (Text.strip line) ++ "\n", prompt := "... " }
  | refused {e : SyntaxError} (h : ¬ IsCommand line)
      (parsed : mode.front.parse mode.limit (c.waiting ++ String.ofList (Text.strip line)) = .error e)
      (kind : e.fault.kind ≠ .unexpectedEnd) (text : String) :
      Steps mode c line ({ c with waiting := "", prompt := "edl> " }.write text)
  | ran {p : Program} {result : Except Failure Value} {m : Machine} (h : ¬ IsCommand line)
      (parsed : mode.front.parse mode.limit (c.waiting ++ String.ofList (Text.strip line)) = .ok p)
      (run : Machine.Runs mode.settings .null p c.machine result m) (text : String) :
      Steps mode c line ({ c with machine := m, waiting := "", prompt := "edl> " }.write text)

variable {mode : Mode} {c : Console} {line : List Char}

theorem Request.ofLine_evaluate (h : ¬ IsCommand line) :
    Request.ofLine line = .evaluate (String.ofList (Text.strip line)) := by
  simp only [IsCommand, List.mem_cons, List.not_mem_nil, or_false, not_or] at h
  obtain ⟨hblank, hmark, hhelp, hexit, hend⟩ := h
  simp [Request.ofLine, hblank, hmark, hhelp, hexit, hend]

/-- A command is never taken as a part of a program. -/
theorem Request.ofLine_ne_evaluate (h : IsCommand line) (text : String) :
    Request.ofLine line ≠ .evaluate text := by
  simp only [IsCommand, List.mem_cons, List.not_mem_nil, or_false] at h
  unfold Request.ofLine
  rcases h with hblank | hmark | hhelp | hexit | hend
  · simp [hblank]
  · simp only [hmark, beq_self_eq_true, Bool.true_or, if_true]
    split <;> simp
  · simp only [hhelp, beq_self_eq_true, Bool.or_true, if_true]
    split <;> simp
  · simp only [hexit, beq_self_eq_true, if_true]
    split <;> try split
    all_goals simp
  · simp only [hend, beq_self_eq_true, if_true]
    split <;> try split
    all_goals simp

theorem write_empty (c : Console) : c.write "" = c := by
  simp [write]

/-- A line that is no command makes of a console what the rule for the waiting text says. -/
theorem steps_evaluate (h : ¬ IsCommand line) :
    c.Steps mode line (c.evaluate mode (String.ofList (Text.strip line))).2 := by
  unfold evaluate
  dsimp only
  split
  · rename_i e parsed
    split
    · exact .waits h parsed ‹_›
    · exact .refused h parsed ‹_› _
  · rename_i p parsed
    have run : Machine.Runs mode.settings .null p c.machine _ _ := Machine.runs_run p c.machine
    have ran := Steps.ran h parsed run
    have silent := ran ""
    rw [write_empty] at silent
    split
    · exact silent
    · exact ran _
    · exact ran _
    · exact silent

/-- Every line is answered so. -/
theorem steps_respond (mode : Mode) (line : List Char) (c : Console) :
    c.Steps mode line (c.respond mode line).2 := by
  unfold respond
  by_cases h : IsCommand line
  · have command (text : String) : c.Steps mode line (c.write text) := .command h text
    have silent := command ""
    rw [write_empty] at silent
    split
    · exact silent
    · exact command _
    · exact silent
    · exact command _
    · exact absurd ‹_› (Request.ofLine_ne_evaluate h _)
  · rw [Request.ofLine_evaluate h]
    exact steps_evaluate h

/-- The waiting text and the prompt agree, and no program is under way: nothing waits at the first
prompt, and an unfinished text with a line feed behind it at the second. -/
structure Steady (mode : Mode) (c : Console) : Prop where
  prompt : (c.waiting = "" ∧ c.prompt = "edl> ") ∨
    (c.prompt = "... " ∧ ∃ s e, c.waiting = s ++ "\n" ∧
      mode.front.parse mode.limit s = .error e ∧ e.fault.kind = .unexpectedEnd)
  frame : c.machine.active = globals
  calls : c.machine.callDepth = 0

theorem Steps.steady {c' : Console} (h : c.Steps mode line c') (hc : c.Steady mode) :
    c'.Steady mode := by
  cases h with
  | command _ text => exact ⟨hc.prompt, hc.frame, hc.calls⟩
  | @waits e _ parsed kind => exact ⟨.inr ⟨rfl, _, e, rfl, parsed, kind⟩, hc.frame, hc.calls⟩
  | refused => exact ⟨.inl ⟨rfl, rfl⟩, hc.frame, hc.calls⟩
  | ran _ parsed run text =>
    obtain ⟨hframe, hcalls⟩ := Prod.mk.inj run.place_eq
    exact ⟨.inl ⟨rfl, rfl⟩, hframe.trans hc.frame, hcalls.trans hc.calls⟩

/-- The consoles of a session: one is opened on programs that are not under way, prompts and reads,
answers lines, whether or not they abort it, and closes its trace. -/
inductive OfSession (mode : Mode) : Console → Prop
  | start {m : Machine} (lines : Lines) (frame : m.active = globals) (calls : m.callDepth = 0) :
      OfSession mode { machine := m, lines := lines }
  | ask {c : Console} (before : OfSession mode c) : OfSession mode (c.write c.prompt).takeLine.2
  | respond {c : Console} (before : OfSession mode c) (line : List Char) :
      OfSession mode (c.respond mode line).2
  | close {c : Console} (before : OfSession mode c) :
      OfSession mode { c with machine := c.machine.close }

theorem takeLine_kept (c : Console) : c.takeLine.2.waiting = c.waiting ∧
    c.takeLine.2.prompt = c.prompt ∧ c.takeLine.2.machine.place = c.machine.place := by
  unfold takeLine
  split
  · exact ⟨rfl, rfl, rfl⟩
  · cases splitLine c.unread with
    | mk line rest => cases c.lines <;> exact ⟨rfl, rfl, rfl⟩

theorem OfSession.steady (h : OfSession mode c) : c.Steady mode := by
  induction h with
  | start lines frame calls => exact ⟨.inl ⟨rfl, rfl⟩, frame, calls⟩
  | @ask c before ih =>
    obtain ⟨hwaiting, hprompt, hplace⟩ := takeLine_kept (c.write c.prompt)
    obtain ⟨hframe, hcalls⟩ := Prod.mk.inj hplace
    refine ⟨?_, hframe.trans ih.frame, hcalls.trans ih.calls⟩
    rw [hwaiting, hprompt]
    exact ih.prompt
  | respond before line ih => exact (steps_respond mode line _).steady ih
  | close before ih => exact ⟨ih.prompt, ih.frame, ih.calls⟩

/-- The loop of a console stays in its session. -/
theorem OfSession.repeatUpTo (h : OfSession mode c) (n : Nat) :
    OfSession mode (c.repeatUpTo mode n).2 := by
  induction n generalizing c with
  | zero => exact h
  | succ n ih =>
    have hline := h.ask.respond (c.write c.prompt).takeLine.1
    unfold Console.repeatUpTo
    dsimp only
    split
    · rename_i heq
      rw [heq] at hline
      exact ih hline
    · rename_i heq
      rw [heq] at hline
      exact hline.close
    · rename_i heq
      rw [heq] at hline
      exact hline

/-- In every session the waiting text and the prompt agree and no program is under way between two
lines; and a line changes the programs only if it completes a text, whose statements then run in
order up to the first failure. -/
theorem session_lines (h : OfSession mode c) :
    c.Steady mode ∧ (∀ line, c.Steps mode line (c.respond mode line).2) ∧
      OfSession mode (c.run mode).2 :=
  ⟨h.steady, fun line => steps_respond mode line c, h.repeatUpTo _⟩

theorem session_lines_unfinished :
    let c := (({ machine := Machine.fresh "", lines := .shared } : Console).respond {}
      "x = [".toList).2
    c.prompt = "... " ∧ (c.respond {} "exit".toList).2.prompt = "... " ∧
      (c.respond {} "];".toList).2.prompt = "edl> " ∧ c.Steady {} ∧
      c.Steps {} "];".toList (c.respond {} "];".toList).2 := by
  have start : OfSession {} { machine := Machine.fresh "", lines := .shared } := .start .shared rfl rfl
  have h := session_lines (start.respond "x = [".toList)
  refine ⟨?_, ?_, ?_, h.1, h.2.1 _⟩
  all_goals decide +kernel

end Console

end Scripting
