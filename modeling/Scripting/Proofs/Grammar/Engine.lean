import Mathlib.Data.List.Forall2
import Mathlib.Data.List.Infix
import Scripting.Grammar.Reading

/-!
What is taken for granted of an engine. It cuts a text into leaves by the patterns of the terminals, and
it answers with a derivation by the rules whenever there is one. Which derivation of an ambiguous text
it takes is left open, so what is proved of every engine is proved of texts with a single derivation.
Such a text is found by a table of the symbols that stand for its stretches.
-/

namespace Scripting.Grammar

/-- Whether a reserved word stands at the front of a text, and no letter or digit goes on with it. -/
def StartsReserved (cs : List Char) : Prop :=
  ∃ (k : Keyword) (rest : List Char), k.isReserved = true ∧ cs = k.text.toList ++ rest ∧
    rest.head?.any Text.isNamePart = false

/-- The pattern of a terminal takes a word at the front of a text with a given rest. -/
def Terminal.Takes : Terminal → (word rest : List Char) → Prop
  | .name, word, rest =>
    word.head?.any isNameStart = true ∧ word = (word ++ rest).takeWhile isNamePart ∧
      ¬ StartsReserved (word ++ rest)
  | .number, word, rest =>
    word.head?.any Text.isDecimal = true ∧ word.length = numeralLength (word ++ rest)
  | .text, word, rest =>
    ∃ body, word = '"' :: body ∧ textLength? (body ++ rest) = some body.length
  | .keyword k, word, _ => k.isReserved = false ∧ word = k.text.toList
  | .mark m, word, _ => word = m.text.toList

/-- Among the terminals one takes most of a text. A keyword goes before a name of the same spelling. -/
structure Terminal.Leads (t : Terminal) (word rest : List Char) : Prop where
  takes : t.Takes word rest
  most {t' : Terminal} {word' rest' : List Char} : word' ++ rest' = word ++ rest →
    t'.Takes word' rest' → word'.length < word.length ∨ word' = word ∧ (t' = t ∨ t' = .name)

/-- At the front of a text one leaf leads. -/
theorem Terminal.Leads.unique {t t' : Terminal} {word word' rest rest' : List Char}
    (h : t.Leads word rest) (h' : t'.Leads word' rest') (heq : word' ++ rest' = word ++ rest) :
    t' = t ∧ word' = word ∧ rest' = rest := by
  have hmost := h.most heq h'.takes
  have hmost' := h'.most heq.symm h.takes
  have hword : word' = word := by
    rcases hmost with hless | ⟨hword, -⟩
    · rcases hmost' with hless' | ⟨hword, -⟩
      · omega
      · exact hword.symm
    · exact hword
  subst hword
  refine ⟨?_, rfl, List.append_cancel_left heq⟩
  rcases hmost with hless | ⟨-, ht | hname⟩
  · omega
  · exact ht
  · rcases hmost' with hless | ⟨-, ht | hname'⟩
    · omega
    · exact ht.symm
    · rw [hname, hname']

/-- A text consists of gaps and of leaves with these terminals and spellings. -/
inductive Cut : List Char → List (Terminal × List Char) → Prop
  | finish {cs : List Char} (gap : gapLength false cs = cs.length) : Cut cs []
  | leaf {cs word rest : List Char} {t : Terminal} {ls : List (Terminal × List Char)}
      (front : cs.drop (gapLength false cs) = word ++ rest) (leads : t.Leads word rest)
      (next : Cut rest ls) : Cut cs ((t, word) :: ls)

theorem Terminal.Takes.ne_nil {t : Terminal} {word rest : List Char} (h : t.Takes word rest) :
    word ≠ [] := by
  rintro rfl
  cases t with
  | name => cases h.1
  | number => cases h.1
  | text =>
    obtain ⟨body, hbody, -⟩ := h
    cases hbody
  | keyword k =>
    have hk := h.2
    cases k <;> cases hk
  | mark m => cases m <;> cases h

/-- The leaf that a text starts with is settled. -/
theorem cut_iff {t : Terminal} {cs word rest : List Char} {ls : List (Terminal × List Char)}
    (front : cs.drop (gapLength false cs) = word ++ rest) (leads : t.Leads word rest) :
    Cut cs ls ↔ ∃ ls', ls = (t, word) :: ls' ∧ Cut rest ls' := by
  constructor
  · rintro (gap | ⟨front', leads', next⟩)
    · rw [gap, List.drop_length] at front
      exact absurd (List.append_eq_nil_iff.mp front.symm).1 leads.takes.ne_nil
    · obtain ⟨rfl, rfl, rfl⟩ := leads.unique leads' (front'.symm.trans front)
      exact ⟨_, rfl, next⟩
  · rintro ⟨ls', rfl, next⟩
    exact .leaf front leads next

def Derivation.root : Derivation → Symbol
  | .leaf l => .terminal l.terminal
  | .node n _ _ => .rule n

mutual

/-- The leaves of a derivation, in order. -/
def Derivation.yield : Derivation → List Leaf
  | .leaf l => [l]
  | .node _ _ ds => yieldAll ds

def yieldAll : List Derivation → List Leaf
  | [] => []
  | d :: ds => d.yield ++ yieldAll ds

end

mutual

/-- Whether every node of a derivation follows a rule. -/
def Derivation.follows : Derivation → Bool
  | .leaf _ => true
  | .node n k ds => (alternatives n)[k]? == some (ds.map Derivation.root) && allFollow ds

def allFollow : List Derivation → Bool
  | [] => true
  | d :: ds => d.follows && allFollow ds

end

/-- A derivation of a whole text that is cut into these leaves. -/
structure Derivation.Of (d : Derivation) (ls : List (Terminal × List Char)) : Prop where
  root : d.root = .rule .start
  follows : d.follows = true
  yield : d.yield.map (fun l => (l.terminal, l.text)) = ls

/-- An engine takes a text apart by the rules: its answer is a derivation of the leaves that the text is
cut into, and there is an answer if there is a derivation. -/
structure Engine.Follows (engine : Engine) (source : String) : Prop where
  sound {d : Derivation} : engine source = .ok d → ∃ ls, Cut source.toList ls ∧ d.Of ls
  complete {ls : List (Terminal × List Char)} {d : Derivation} : Cut source.toList ls → d.Of ls →
    ∃ d', engine source = .ok d'

/-- An engine takes a text apart by the rules if its answer is seen to be right. -/
theorem follows_of_check {engine : Engine} {source : String} {ls : List (Terminal × List Char)}
    (hcut : Cut source.toList ls)
    (h : (engine source).toOption.any (fun d => d.root == .rule .start && d.follows &&
      d.yield.map (fun l => (l.terminal, l.text)) == ls) = true) : engine.Follows source := by
  cases hanswer : engine source with
  | error mishap =>
    rw [hanswer] at h
    cases h
  | ok d =>
    rw [hanswer] at h
    simp only [Except.toOption, Option.any_some, Bool.and_eq_true, beq_iff_eq] at h
    refine ⟨fun hd => ?_, fun _ _ => ⟨d, hanswer⟩⟩
    obtain rfl := Except.ok.inj (hanswer.symm.trans hd)
    exact ⟨ls, hcut, h.1.1, h.1.2, h.2⟩

def Derivation.terminals (d : Derivation) : List Terminal := d.yield.map Leaf.terminal

theorem terminals_yieldAll (ds : List Derivation) :
    (yieldAll ds).map Leaf.terminal = (ds.map Derivation.terminals).flatten := by
  induction ds with
  | nil => rfl
  | cons d ds ih => rw [yieldAll, List.map_append, ih, List.map_cons, List.flatten_cons]; rfl

/-- A table tells of which terminals a symbol can be derived. -/
abbrev Table := Nonterminal → List Terminal → Bool

/-- A symbol stands for terminals. -/
def Table.Stands (table : Table) : Symbol → List Terminal → Prop
  | .terminal t, ts => ts = [t]
  | .rule n, ts => table n ts = true

/-- The ways to divide terminals among symbols that stand for the parts. -/
def Table.divisions (table : Table) : List Symbol → List Terminal → List (List (List Terminal))
  | [], ts => if ts.isEmpty then [[]] else []
  | .terminal t :: rest, ts =>
    match ts with
    | [] => []
    | t' :: ts => if t = t' then (table.divisions rest ts).map ([t] :: ·) else []
  | .rule n :: rest, ts =>
    (List.range (ts.length + 1)).flatMap fun k =>
      if table n (ts.take k) then (table.divisions rest (ts.drop k)).map (ts.take k :: ·) else []

/-- The alternatives of a symbol for terminals, each with the ways to divide them. -/
def Table.ways (table : Table) (n : Nonterminal) (ts : List Terminal) :
    List (Nat × List (List Terminal)) :=
  (List.range (alternatives n).length).flatMap fun k =>
    (table.divisions (bodyOf n k) ts).map (k, ·)

/-- A table holds for all stretches of some terminals, and leaves one way to derive each. -/
structure Table.Settles (table : Table) (whole : List Terminal) : Prop where
  closed (n : Nonterminal) : ∀ ts ∈ whole.tails.flatMap List.inits,
    table.ways n ts ≠ [] → table n ts = true
  single (n : Nonterminal) : ∀ ts ∈ whole.tails.flatMap List.inits,
    ∀ way ∈ table.ways n ts, ∀ way' ∈ table.ways n ts, way = way'

section

variable {table : Table} {whole : List Terminal}

theorem mem_stretches {ts : List Terminal} :
    ts ∈ whole.tails.flatMap List.inits ↔ ts <:+: whole := by
  rw [List.infix_iff_prefix_suffix]
  simp only [List.mem_flatMap, List.mem_tails, List.mem_inits]
  exact ⟨fun ⟨ts', hsuffix, hprefix⟩ => ⟨ts', hprefix, hsuffix⟩,
    fun ⟨ts', hprefix, hsuffix⟩ => ⟨ts', hsuffix, hprefix⟩⟩

/-- Symbols that stand for stretches are among the divisions of these. -/
theorem Table.mem_divisions {symbols : List Symbol} {parts : List (List Terminal)}
    (h : List.Forall₂ table.Stands symbols parts) :
    parts ∈ table.divisions symbols parts.flatten := by
  induction h with
  | nil => exact List.mem_singleton_self _
  | @cons s part symbols parts hs _ ih =>
    cases s with
    | terminal t =>
      obtain rfl : part = [t] := hs
      simpa [divisions] using ih
    | rule n =>
      have hn : table n part = true := hs
      refine List.mem_flatMap.mpr ⟨part.length, ?_, ?_⟩
      · simp only [List.flatten_cons, List.length_append, List.mem_range]
        omega
      · simpa [List.flatten_cons, hn] using ih

theorem Table.mem_ways {n : Nonterminal} {k : Nat} {symbols : List Symbol}
    {parts : List (List Terminal)} (hk : (alternatives n)[k]? = some symbols)
    (h : List.Forall₂ table.Stands symbols parts) : (k, parts) ∈ table.ways n parts.flatten := by
  refine List.mem_flatMap.mpr ⟨k, ?_, List.mem_map.mpr ⟨parts, ?_, rfl⟩⟩
  · exact List.mem_range.mpr (List.getElem?_eq_some_iff.mp hk).1
  · rw [bodyOf, hk]
    exact mem_divisions h

theorem stretch_head {d : Derivation} {ds : List Derivation}
    (hds : (yieldAll (d :: ds)).map Leaf.terminal <:+: whole) :
    d.terminals <:+: whole ∧ (yieldAll ds).map Leaf.terminal <:+: whole := by
  rw [yieldAll, List.map_append] at hds
  exact ⟨(List.prefix_append _ _).isInfix.trans hds, (List.suffix_append _ _).isInfix.trans hds⟩

mutual

/-- The table tells of every derivation of a stretch. -/
theorem stands_of_follows (h : table.Settles whole) : ∀ {d : Derivation}, d.follows = true →
    d.terminals <:+: whole → table.Stands d.root d.terminals
  | .leaf l, _, _ => rfl
  | .node n k ds, hd, hstretch => by
    simp only [Derivation.follows, Bool.and_eq_true, beq_iff_eq] at hd
    have hway := Table.mem_ways hd.1 (allStand_of_follow h hd.2 hstretch)
    have hterminals : (Derivation.node n k ds).terminals = (ds.map Derivation.terminals).flatten :=
      terminals_yieldAll ds
    rw [← hterminals] at hway
    exact h.closed n _ (mem_stretches.mpr hstretch) (List.ne_nil_of_mem hway)

theorem allStand_of_follow (h : table.Settles whole) : ∀ {ds : List Derivation},
    allFollow ds = true → (yieldAll ds).map Leaf.terminal <:+: whole →
    List.Forall₂ table.Stands (ds.map Derivation.root) (ds.map Derivation.terminals)
  | [], _, _ => .nil
  | d :: ds, hds, hstretch => by
    simp only [allFollow, Bool.and_eq_true] at hds
    obtain ⟨hfirst, hrest⟩ := stretch_head hstretch
    exact .cons (stands_of_follows h hds.1 hfirst) (allStand_of_follow h hds.2 hrest)

end

/-- The alternative of a node, and what its parts stand for. -/
theorem way_of_follows (h : table.Settles whole) {n : Nonterminal} {k : Nat} {ds : List Derivation}
    (hd : (Derivation.node n k ds).follows = true)
    (hstretch : (Derivation.node n k ds).terminals <:+: whole) :
    (k, ds.map Derivation.terminals) ∈ table.ways n (Derivation.node n k ds).terminals := by
  simp only [Derivation.follows, Bool.and_eq_true, beq_iff_eq] at hd
  have hway := Table.mem_ways hd.1 (allStand_of_follow h hd.2 hstretch)
  rwa [← terminals_yieldAll ds] at hway

mutual

/-- A stretch has one derivation at most. -/
theorem derivation_unique (h : table.Settles whole) : ∀ {d e : Derivation}, d.follows = true →
    e.follows = true → d.root = e.root → d.yield = e.yield → d.terminals <:+: whole → d = e
  | .leaf l, .leaf m, _, _, _, hyield, _ => by
    cases hyield
    rfl
  | .leaf l, .node _ _ _, _, _, hroot, _, _ => nomatch hroot
  | .node _ _ _, .leaf m, _, _, hroot, _, _ => nomatch hroot
  | .node n k ds, .node n' k' es, hd, he, hroot, hyield, hstretch => by
    cases hroot
    have hterminals : (Derivation.node n k ds).terminals = (Derivation.node n k' es).terminals :=
      congrArg (List.map Leaf.terminal) hyield
    have hway := way_of_follows h hd hstretch
    have hway' := way_of_follows h he (hterminals ▸ hstretch)
    rw [← hterminals] at hway'
    obtain ⟨rfl, hparts⟩ := Prod.mk.inj (h.single n _ (mem_stretches.mpr hstretch) _ hway _ hway')
    simp only [Derivation.follows, Bool.and_eq_true, beq_iff_eq] at hd he
    have hroots := Option.some.inj (hd.1.symm.trans he.1)
    rw [derivations_unique h hd.2 he.2 hroots hparts hyield hstretch]

/-- Where a table settles the terminals, symbols have one row of derivations for them. -/
theorem derivations_unique (h : table.Settles whole) : ∀ {ds es : List Derivation},
    allFollow ds = true → allFollow es = true → ds.map Derivation.root = es.map Derivation.root →
    ds.map Derivation.terminals = es.map Derivation.terminals → yieldAll ds = yieldAll es →
    (yieldAll ds).map Leaf.terminal <:+: whole → ds = es
  | [], [], _, _, _, _, _, _ => rfl
  | [], _ :: _, _, _, hroots, _, _, _ => nomatch hroots
  | _ :: _, [], _, _, hroots, _, _, _ => nomatch hroots
  | d :: ds, e :: es, hds, hes, hroots, hparts, hyield, hstretch => by
    simp only [allFollow, Bool.and_eq_true] at hds hes
    simp only [List.map_cons, List.cons.injEq] at hroots hparts
    have hlength : d.yield.length = e.yield.length := by
      have hlengths := congrArg List.length hparts.1
      simpa [Derivation.terminals] using hlengths
    obtain ⟨hfirst, hrest⟩ := List.append_inj hyield hlength
    obtain ⟨hstretch, hstretches⟩ := stretch_head hstretch
    rw [derivation_unique h hds.1 hes.1 hroots.1 hfirst hstretch,
      derivations_unique h hds.2 hes.2 hroots.2 hparts.2 hrest hstretches]

end

end

/-- An engine answers with the derivation of a text that has a single one. -/
theorem Engine.Follows.exists_eq_ok {engine : Engine} {source : String} (h : engine.Follows source)
    {ls : List (Terminal × List Char)} (hcut : ∀ ls', Cut source.toList ls' ↔ ls' = ls)
    {ts : List Terminal} (hts : ls.map Prod.fst = ts) {table : Table} (htable : table.Settles ts)
    {P : Derivation → Prop}
    (hd : ∀ leaves : List Leaf, leaves.map (fun l => (l.terminal, l.text)) = ls →
      ∃ d : Derivation, d.root = .rule .start ∧ d.follows = true ∧ d.yield = leaves ∧ P d) :
    ∃ d, engine source = .ok d ∧ P d := by
  -- the engine has an answer, since there is a derivation with the leaves at any places
  let leaves : List Leaf := ls.map fun l => ⟨l.1, l.2, .start⟩
  have hleaves : leaves.map (fun l => (l.terminal, l.text)) = ls := by
    rw [List.map_map]
    exact List.map_id ls
  obtain ⟨d, hroot, hfollows, hyield, -⟩ := hd leaves hleaves
  obtain ⟨d', hanswer⟩ := h.complete ((hcut ls).mpr rfl) ⟨hroot, hfollows, hyield ▸ hleaves⟩
  -- and its answer is the derivation of its own leaves
  obtain ⟨ls', hls', hof⟩ := h.sound hanswer
  obtain rfl := (hcut ls').mp hls'
  obtain ⟨e, heroot, hefollows, heyield, he⟩ := hd d'.yield hof.yield
  have hterminals : e.terminals = ts := by
    rw [← hts, ← hof.yield, Derivation.terminals, heyield, List.map_map]
    rfl
  have heq := derivation_unique htable hefollows hof.follows (heroot.trans hof.root.symm) heyield
    (hterminals ▸ List.infix_rfl)
  exact ⟨d', hanswer, heq ▸ he⟩

end Scripting.Grammar
