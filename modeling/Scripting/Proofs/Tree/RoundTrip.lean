import Scripting.CommandLine
import Scripting.Proofs.Json.RoundTrip
import Scripting.Proofs.Tree.Genuine

/-!
Programs survive storage. A genuine program comes back from its stored data and from its stored
text, so a program that was stored runs as the program that was parsed.
-/

namespace Scripting

namespace Tree

theorem length_toItems : ∀ ts : List Tree, (toItems ts).length = ts.length
  | [] => by rw [toItems]; rfl
  | t :: ts => by rw [toItems, List.length_cons, List.length_cons, length_toItems ts]

mutual

/-- What is stored of a tree can be written and read. -/
theorem storable_toJson : ∀ {shape : Shape} {t : Tree}, fits shape t = true →
    (toJson t).storable = true
  | .plain, .null, _ | .plain, .bool _, _ | .plain, .float _, _ | .plain, .text _, _
  | .binaryOp, .binaryOp _, _ | .unaryOp, .unaryOp _, _ | .number, .float _, _ => by
    rw [toJson, Json.storable]
  | .plain, .list items, h => by
    rw [fits] at h
    rw [toJson, Json.storable, storableItems_toItems h]
  | .plain, .node kind members, h => by
    rw [fits] at h
    have hnames : ((kind.slots.map Slot.name).zip (toItems members)).map Prod.fst =
        kind.slots.map Slot.name := by
      refine List.map_fst_zip (le_of_eq ?_)
      rw [List.length_map, length_toItems, fitsSlots_length h]
    rw [toJson, Json.storable, Json.storableMembers, Json.storable, storableMembers_toItems h,
      List.map_cons, hnames, Bool.and_self, Bool.and_true, decide_eq_true_eq, List.nodup_cons]
    exact ⟨kind.slots_names.2, kind.slots_names.1⟩
  | .pairs, .list items, h => by
    rw [fits] at h
    rw [toJson, Json.storable, storableItems_toPairs h]

theorem storableItems_toItems : ∀ {items : List Tree}, fitsAll items = true →
    Json.storableItems (toItems items) = true
  | [], _ => by rw [toItems, Json.storableItems]
  | t :: rest, h => by
    rw [fitsAll, Bool.and_eq_true] at h
    rw [toItems, Json.storableItems, storable_toJson h.1, storableItems_toItems h.2, Bool.and_self]

theorem storableItems_toPairs : ∀ {items : List Tree}, fitsPairs items = true →
    Json.storableItems (toItems items) = true
  | [], _ => by rw [toItems, Json.storableItems]
  | .pair a b :: rest, h => by
    simp only [fitsPairs, Bool.and_eq_true] at h
    simp only [toItems, toJson, Json.storableItems, Json.storable, storable_toJson h.1.1,
      storable_toJson h.1.2, storableItems_toPairs h.2, Bool.and_self]

theorem storableMembers_toItems : ∀ {slots : List Slot} {ts : List Tree},
    fitsSlots slots ts = true →
    Json.storableMembers ((slots.map Slot.name).zip (toItems ts)) = true
  | [], [], _ => by
    rw [List.map_nil, List.zip_nil_left, Json.storableMembers]
  | slot :: slots, t :: ts, h => by
    rw [fitsSlots, Bool.and_eq_true] at h
    rw [toItems, List.map_cons, List.zip_cons_cons, Json.storableMembers, storable_toJson h.1,
      storableMembers_toItems h.2, Bool.and_self]

end

end Tree

theorem normalizeLines_of_notMem {cs : List Char} (h : '\r' ∉ cs) : normalizeLines cs = cs := by
  induction cs with
  | nil => rfl
  | cons c cs ih =>
    rw [List.mem_cons, not_or] at h
    have hstep : normalizeLines (c :: cs) = c :: normalizeLines cs := by
      rw [normalizeLines]
      · rintro rest rfl
        exact absurd rfl h.1
      · rintro rfl
        exact h.1 rfl
    rw [hstep, ih h.2]

namespace Program

theorem storable_toJson {p : Program} (hp : p.genuine = true) : p.toJson.storable = true := by
  have hitems := Tree.storableItems_toItems (Genuine.stmts_toTree hp).1
  simp [toJson, Tree.programToJson, Json.storable, Json.storableMembers, hitems]

/-- A genuine program comes back from its stored text. -/
theorem load_storedText {p : Program} (hp : p.genuine = true) : load p.storedText = .ok p := by
  unfold load storedText
  rw [Json.read_render (storable_toJson hp)]
  simp only [ofJson_toJson hp]
  rfl

theorem genuine_of_parse {limit : Option Int} {source : String} {p : Program}
    (h : parse limit source = .ok p) : p.genuine = true :=
  (Form.ofTokens_le_genuine _).stmts p (Parser.made_of_parseStream (Stream.all_true _) h)

end Program

namespace CommandLine

/-- A stored program runs as the program. -/
theorem Report.stored_runs {p : Program} (hp : p.genuine = true) {choices : Choices} {path : String}
    (hjob : choices.job = .stored path) (input : String) :
    ofChoices choices (.text p.storedText) input = run choices p input := by
  have hreturn : '\r' ∉ p.storedText.toList :=
    Json.not_mem_render (Program.storable_toJson hp) 0
  have hlines : String.ofList (normalizeLines p.storedText.toList) = p.storedText := by
    rw [normalizeLines_of_notMem hreturn, String.ofList_toList]
  simp only [ofChoices, hjob, reading, hlines, loading, Program.load_storedText hp]

/-- A run depends on the settings alone. -/
theorem Report.run_congr {choices other : Choices} (h : choices.settings = other.settings)
    (p : Program) (input : String) : run choices p input = run other p input := by
  have hverbosity : choices.verbosity = other.verbosity := by
    simpa [Choices.settings] using congrArg Settings.debugLevel h
  simp only [run, ofRun, traceFile, h, hverbosity]

/-- What a command writes that stores a program. -/
theorem Report.files_emit {choices : Choices} {path source input : String}
    {file : String × String} (hjob : choices.job = .emit path)
    (hfile : file ∈ (ofChoices choices (.text source) input).files) :
    ∃ p, choices.front.parse choices.limit (String.ofList (normalizeLines source.toList)) = .ok p ∧
      file = (path ++ ".ast.json", p.storedText) := by
  simp only [ofChoices, hjob, reading, parsing] at hfile
  split at hfile
  · rename_i p hparse
    exact ⟨p, hparse, List.mem_singleton.mp hfile⟩
  · cases hfile

end CommandLine

open CommandLine in
/-- A genuine program comes back from its stored data and from its stored text, and a command that
is given this text runs the program. So the file that one command writes for a parsed program makes
another report what the parsed program reports, whatever it is and whatever the input is. -/
theorem stored_program_runs_alike :
    (∀ p : Program, p.genuine = true →
      Program.ofJson p.toJson = .ok p ∧ Program.load p.storedText = .ok p ∧
        ∀ (choices : Choices) (path input : String), choices.job = .stored path →
          Report.ofChoices choices (.text p.storedText) input = Report.run choices p input) ∧
    ∀ (storing loading running : Choices) (f g h source input : String),
      storing.job = .emit f → loading.job = .stored g → running.job = .program h →
      storing.front = .descent → running.front = .descent → storing.limit = running.limit →
      loading.settings = running.settings →
      ∀ file ∈ (Report.ofChoices storing (.text source) input).files,
        Report.ofChoices loading (.text file.2) input =
          Report.ofChoices running (.text source) input := by
  refine ⟨fun p hp => ⟨Program.ofJson_toJson hp, Program.load_storedText hp,
    fun choices path input hjob => Report.stored_runs hp hjob input⟩, ?_⟩
  intro storing loading running f g h source input hstore hload hrun hfront hfront' hlimit
    hsettings file hfile
  obtain ⟨p, hparse, rfl⟩ := Report.files_emit hstore hfile
  rw [hlimit, hfront] at hparse
  have hp : p.genuine = true := Program.genuine_of_parse hparse
  have hrunning : Report.ofChoices running (.text source) input = Report.run running p input := by
    simp only [Report.ofChoices, hrun, Report.reading, Report.parsing, hfront', hparse]
  rw [Report.stored_runs hp hload, hrunning, Report.run_congr hsettings]

open CommandLine in
theorem stored_program_runs_alike_method :
    Program.load (Program.storedText [.invalid "?", .return_ none, .if_ (.invalid "") [] none,
        .type (.text "T") [(.text "x", .number (-0.0))]
          [.function (.text "f") [.text "self"] [.return_ (some (.number Number.undefined))]]]) =
      .ok [.invalid "?", .return_ none, .if_ (.invalid "") [] none,
        .type (.text "T") [(.text "x", .number (-0.0))]
          [.function (.text "f") [.text "self"] [.return_ (some (.number Number.undefined))]]] ∧
    ∃ text, (Report.ofChoices { emit := some "a.edl" } (.text "print 1/0;\r\n") "").files =
        [("a.edl.ast.json", text)] ∧
      Report.ofChoices { stored := some "a.edl.ast.json" } (.text text) "" =
        Report.ofChoices { program := some "a.edl" } (.text "print 1/0;\r\n") "" := by
  refine ⟨(stored_program_runs_alike.1 _ (by decide)).2.1, ?_⟩
  have hfiles : ((Report.ofChoices { emit := some "a.edl" } (.text "print 1/0;\r\n") "").files.map
      Prod.fst) = ["a.edl.ast.json"] := by
    decide +kernel
  obtain ⟨⟨place, text⟩, rest, hsplit, hplace, hrest⟩ := List.map_eq_cons_iff.mp hfiles
  obtain rfl := List.map_eq_nil_iff.mp hrest
  obtain rfl : place = "a.edl.ast.json" := hplace
  refine ⟨text, hsplit, stored_program_runs_alike.2 { emit := some "a.edl" }
    { stored := some "a.edl.ast.json" } { program := some "a.edl" } "a.edl" "a.edl.ast.json" "a.edl"
    _ _ (by decide) (by decide) (by decide) rfl rfl rfl rfl
    ("a.edl.ast.json", text) ?_⟩
  rw [hsplit]
  exact List.mem_singleton_self _

end Scripting
