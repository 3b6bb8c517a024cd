import CallAtlas.Proofs.Command.Entry
import CallAtlas.Proofs.Dump.Reload
import CallAtlas.Proofs.Selector.Targets
import CallAtlas.Proofs.Session.Execution
import Mathlib.Data.Finset.Max
/-!
Dumps that are run as scripts. Each line is the command of its entry, so a script makes the same nodes and
edges as reading the dump does. Labels are different, as a command takes a name that is not in the graph
for a selector. Main statement: `replay_agrees`.
-/
namespace CallAtlas

namespace Graph

variable {g g' : Graph}

def obey (g : Graph) : Entry → Except EdgeError Graph
  | .label l name => .ok (g.addLabels ((Selector.targets g name).map (l, ·)))
  | e => g.add e

def obeyLabels (g : Graph) (pairs : List (String × String)) : Graph :=
  pairs.foldl (fun g p => g.addLabels ((Selector.targets g p.2).map (p.1, ·))) g

theorem foldlM_obey {es : List Entry} (h : ∀ e ∈ es, ∀ g : Graph, g.obey e = g.add e) :
    es.foldlM obey g = es.foldlM add g := by
  induction es generalizing g with
  | nil => rfl
  | cons e es ih =>
    obtain ⟨first, rest⟩ := List.forall_mem_cons.mp h
    rw [List.foldlM_cons, List.foldlM_cons, first]
    exact congrArg _ (funext fun g => ih rest)

theorem foldlM_obey_labels (pairs : List (String × String)) :
    (pairs.map fun p => Entry.label p.1 p.2).foldlM obey g = .ok (g.obeyLabels pairs) := by
  induction pairs generalizing g with
  | nil => rfl
  | cons p pairs ih => exact ih

theorem obeyLabels_eq (g : Graph) (pairs : List (String × String)) :
    g.obeyLabels pairs = { g with labels := (g.obeyLabels pairs).labels } := by
  induction pairs generalizing g with
  | nil => rfl
  | cons p pairs ih =>
    have rest := ih (g.addLabels ((Selector.targets g p.2).map (p.1, ·)))
    rw [addLabels_eq] at rest
    rw [obeyLabels, List.foldl_cons, addLabels_eq]
    exact rest

def replayed (g : Graph) : Graph :=
  { g.bare with
    edges := g.groupedEdges.toArray
    labels := (g.bare.obeyLabels g.writtenLabels).labels }

theorem foldlM_obey_entries (h : g.WellFormed) (consistent : g.Consistent) :
    g.entries.foldlM obey {} = .ok g.replayed := by
  have nodes : g.nodeEntries.foldlM obey {} = .ok g.bare := by
    rw [foldlM_obey fun e he g => ?_]
    · exact h.foldlM_add_nodeEntries
    · obtain ⟨⟨name, definition⟩, -, rfl⟩ := List.mem_map.mp he
      cases definition <;> rfl
  have labels : g.labelEntries.foldlM obey g.bare =
      .ok { g.bare with labels := (g.bare.obeyLabels g.writtenLabels).labels } := by
    rw [labelEntries_eq, foldlM_obey_labels, ← obeyLabels_eq]
  have edges (labels : NameMap NameSet) : g.edgeEntries.foldlM obey { g.bare with labels } =
      .ok { g.bare with edges := g.groupedEdges.toArray, labels } := by
    rw [foldlM_obey fun e he g => ?_]
    · exact h.foldlM_add_edgeEntries consistent labels
    · rw [edgeEntries_eq] at he
      obtain ⟨edge, -, rfl⟩ := List.mem_map.mp he
      rfl
  exact foldlM_append_ok (foldlM_append_ok nodes labels) (edges _)

theorem contains_bare (consistent : g.Consistent) (name : String) :
    g.bare.contains name = g.contains name := by
  rw [Bool.eq_iff_iff, contains_iff consistent.mem_definitions,
    contains_iff (g := g.bare) fun i => mem_definedPositions]
  rfl

theorem contains_addLabels (g : Graph) (pairs : List (String × String)) (name : String) :
    (g.addLabels pairs).contains name = g.contains name := by
  rw [addLabels_eq]
  rfl

theorem obeyLabels_eq_addLabels {pairs : List (String × String)}
    (h : ∀ p ∈ pairs, g.contains p.2 = false → Selector.StandsAlone p.2) :
    g.obeyLabels pairs = g.addLabels pairs := by
  induction pairs generalizing g with
  | nil => rfl
  | cons p pairs ih =>
    obtain ⟨first, rest⟩ := List.forall_mem_cons.mp h
    rw [obeyLabels, List.foldl_cons, Selector.targets_eq_singleton first]
    exact ih (g := g.addLabel p.2 p.1) rest

theorem not_mem_labeled_obeyLabels {pairs : List (String × String)} {name : String}
    (listed : ∀ i, i ∈ g.definitions ↔ i < g.size ∧ g.isExternalAt i = false)
    (missing : g.contains name = false)
    (h : ∀ p ∈ pairs, g.contains p.2 = false →
      (Selector.StandsAlone p.2 → p.2 ≠ name) ∧
        (¬ Selector.StandsAlone p.2 → p.2.length ≤ name.length))
    (fresh : ∀ l, name ∉ g.labeled l) (l : String) : name ∉ (g.obeyLabels pairs).labeled l := by
  induction pairs generalizing g with
  | nil => exact fresh l
  | cons p pairs ih =>
    obtain ⟨first, rest⟩ := List.forall_mem_cons.mp h
    have other : name ∉ Selector.targets g p.2 := by
      intro target
      by_cases alone : g.contains p.2 = false → Selector.StandsAlone p.2
      · rw [Selector.targets_eq_singleton alone, List.mem_singleton] at target
        rw [target] at missing
        exact (first missing).1 (alone missing) target.symm
      · obtain ⟨outside, composed⟩ := Classical.not_imp.mp alone
        have bound := (first outside).2 composed
        rcases Selector.mem_targets_cases outside composed target with
          shorter | ⟨i, lt, shown⟩ | ⟨l, shown⟩
        · omega
        · have here := contains_displayAt listed lt
          rw [shown] at here
          exact absurd (missing.symm.trans here) Bool.false_ne_true
        · obtain ⟨carrier, hc, shown⟩ := mem_labeledNodes.mp shown
          have same := shownAs_of_not_contains listed (shown ▸ missing)
          exact fresh l (shown ▸ same.symm ▸ hc)
    rw [obeyLabels, List.foldl_cons]
    refine ih ?_ ?_ (fun p hp => ?_) fun l => ?_
    · rw [addLabels_eq]
      exact listed
    · rw [contains_addLabels]
      exact missing
    · rw [contains_addLabels]
      exact rest p hp
    · rw [mem_labeled_addLabels]
      rintro (old | ⟨target, ht, eq⟩)
      · exact fresh l old
      · obtain ⟨t, ht, ⟨⟩⟩ := List.mem_map.mp ht
        have same := canonical_of_not_contains listed (eq ▸ missing)
        exact other (eq ▸ same.symm ▸ ht)

theorem AllTexts.plain (texts : g.AllTexts Undashed) : g.Plain := by
  have dashed : ∀ t ∈ Entry.options, t.toList.head? = some '-' := by decide
  intro node hn t ht option
  refine texts.nodes node hn t ?_ (dashed t option)
  rw [Node.texts]
  rcases List.mem_cons.mp ht with rfl | ht
  · exact List.mem_cons_self
  · exact List.mem_cons_of_mem _ (List.mem_append_right _ ht)

/-- A script labels the names that reading a dump labels if and only if all of them that are not in the
graph stand alone. -/
theorem labels_replayed (consistent : g.Consistent) : g.replayed.labels = g.reloaded.labels ↔
    ∀ l, ∀ carrier ∈ g.labeled l, g.contains carrier = false → Selector.StandsAlone carrier := by
  have bare : g.bare.addLabels g.writtenLabels = { g.bare with labels := g.relabeled } :=
    consistent.addLabels_bare
  -- a name that is written and not in the graph is a carrier
  have written {p : String × String} (hp : p ∈ g.writtenLabels) (missing : g.bare.contains p.2 = false) :
      p.2 ∈ g.labeled p.1 ∧ g.contains p.2 = false := by
    rw [contains_bare consistent] at missing
    obtain ⟨carrier, hc, shown⟩ := mem_writtenLabels.mp hp
    have same := shownAs_of_not_contains consistent.mem_definitions (shown ▸ missing)
    exact ⟨shown ▸ same.symm ▸ hc, missing⟩
  constructor
  · intro same l carrier hc missing
    by_contra composed
    classical
    -- the longest of the names that do not stand alone gets no label from the script
    have mem {p : String × String} (hp : p ∈ g.writtenLabels) :
        p.2 ∈ (g.writtenLabels.map Prod.snd).toFinset :=
      List.mem_toFinset.mpr (List.mem_map.mpr ⟨p, hp, rfl⟩)
    have pair : (l, carrier) ∈ g.writtenLabels :=
      mem_writtenLabels.mpr ⟨carrier, hc, shownAs_eq_self missing⟩
    obtain ⟨longest, chosen, most⟩ := Finset.exists_max_image
      ((g.writtenLabels.map Prod.snd).toFinset.filter fun name =>
        g.contains name = false ∧ ¬ Selector.StandsAlone name) String.length
      ⟨carrier, Finset.mem_filter.mpr ⟨mem pair, missing, composed⟩⟩
    obtain ⟨listed, missing, composed⟩ := Finset.mem_filter.mp chosen
    obtain ⟨⟨l, name⟩, hp, rfl⟩ := List.mem_map.mp (List.mem_toFinset.mp listed)
    rw [← contains_bare consistent] at missing
    have lost : name ∉ (g.bare.obeyLabels g.writtenLabels).labeled l := not_mem_labeled_obeyLabels
      (fun i => mem_definedPositions) missing
      (fun p hp outside => ⟨fun alone eq => composed (eq ▸ alone), fun composed =>
        most p.2 (Finset.mem_filter.mpr ⟨mem hp, contains_bare consistent _ ▸ outside, composed⟩)⟩)
      (not_mem_labeled_bare name) l
    have kept : name ∈ g.reloaded.labeled l :=
      mem_labeled_reloaded.mpr ⟨name, (written hp missing).1, by
        rw [shownAs_eq_self (written hp missing).2, canonical_eq_self missing]⟩
    rw [labeled, ← same] at kept
    exact lost kept
  · intro alone
    have obeyed : g.bare.obeyLabels g.writtenLabels = g.bare.addLabels g.writtenLabels :=
      obeyLabels_eq_addLabels fun p hp missing =>
        alone p.1 p.2 (written hp missing).1 (written hp missing).2
    show (g.bare.obeyLabels g.writtenLabels).labels = g.relabeled
    rw [obeyed, bare]

end Graph

namespace Session

variable {run : FileRunner} {s : Session} {e : Entry} {g : Graph}

theorem executeWith_command (h : s.graph.obey e = .ok g) :
    s.executeWith run e.command = (.ok (), s.withGraph g) := by
  cases e with
  | mention name =>
    cases h
    rfl
  | define name d =>
    cases h
    rfl
  | label l name =>
    cases h
    have labeled : s.label l [name] =
        .ok (s.withGraph (s.graph.addLabels ((Selector.targets s.graph name).map (l, ·)))) := by
      unfold label
      dsimp only
      rw [Selector.labelTargets_singleton, Graph.addLabels, List.foldl_map]
      rfl
    show s.attempt (s.label l [name]) = _
    rw [labeled]
    rfl
  | edge caller callee kind =>
    have joined : s.graph.connect caller callee kind = .ok g := h
    show s.attempt (s.addEdge caller callee kind) = _
    rw [addEdge, joined]
    rfl

theorem ofLine?_line (h : ∀ t ∈ e.texts, Undashed t) : Command.ofLine? e.line = some e.command := by
  rw [Command.ofLine?, e.split_line]
  simp only [Entry.commandOfTokens_tokens h]
  rfl

theorem runWith_entries {es : List Entry} (h : ∀ e ∈ es, ∀ t ∈ e.texts, Undashed t)
    (counted : s.unreported = 0) (obeyed : es.foldlM Graph.obey s.graph = .ok g) (n : Nat) :
    runWith run n 0 (.lines (es.map fun e => some e.line)) s = (.ok 0, s.withGraph g) := by
  induction es generalizing s n with
  | nil =>
    cases obeyed
    exact runWith_of_end (Script.next?_nil s.files) n 0
  | cons e es ih =>
    obtain ⟨first, rest⟩ := List.forall_mem_cons.mp h
    obtain ⟨g₁, once, later⟩ := Graph.foldlM_cons_eq_ok.mp obeyed
    have line : s.executeLineWith run e.line = (.ok (), s.withGraph g₁) :=
      (executeLineWith_of_command (ofLine?_line first)).trans (executeWith_command once)
    have failures : 0 + (s.withGraph g₁).unreported = 0 := by rw [Nat.zero_add]; exact counted
    have settled : { s.withGraph g₁ with unreported := 0 } = s.withGraph g₁ := by
      rw [withGraph, ← counted]
    rw [List.map_cons, runWith_of_line (Script.next?_cons s.files (some e.line) _), line]
    dsimp only
    rw [failures, settled]
    exact ih (s := s.withGraph g₁) rest counted later (n + 1)

theorem runScript_dump (built : g.Built) (texts : g.AllTexts fun t => Graph.OneLine t ∧ Undashed t)
    (settings : Settings) (files : FileTree) :
    runScript { settings, files } (Lines.ofText g.dump) =
      (.ok 0, { graph := g.replayed, settings, files }) := by
  have undashed : ∀ e ∈ g.entries, ∀ t ∈ e.texts, Undashed t := fun e he t ht =>
    (texts.texts_of_mem_entries built.wellFormed he t ht).2
  rw [Graph.ofText_dump built.wellFormed (texts.mono fun t ht => ht.1)]
  exact runWith_entries undashed rfl
    (Graph.foldlM_obey_entries built.wellFormed built.consistent) 0

/-- A dump can be run as a script: every line succeeds, and the nodes and edges are those that are read. The
labels are those that are read if and only if every name with a label that is not in the graph stands alone. -/
theorem replay_agrees (built : g.Built) (texts : g.AllTexts fun t => Graph.OneLine t ∧ Undashed t)
    (settings : Settings) (files : FileTree) :
    ∃ s g', runScript { settings, files } (Lines.ofBytes g.dump.toUTF8) = (.ok 0, s) ∧
      Graph.ofDump (Lines.ofBytes g.dump.toUTF8) = .ok g' ∧
      s.graph.nodes = g'.nodes ∧ s.graph.edges = g'.edges ∧
      (s.graph.labels = g'.labels ↔ ∀ l, ∀ carrier ∈ g.labeled l,
        g.contains carrier = false → Selector.StandsAlone carrier) := by
  refine ⟨{ graph := g.replayed, settings, files }, g.reloaded, ?_, ?_, rfl, rfl,
    Graph.labels_replayed built.consistent⟩
  · rw [Lines.ofBytes_toUTF8]
    exact runScript_dump built texts settings files
  · rw [Lines.ofBytes_toUTF8]
    exact built.ofDump_dump (texts.mono fun t ht => ht.1) (texts.mono fun t ht => ht.2).plain

def annotated : Graph := Graph.ofHistory
  [.add (.define "main" ⟨some "m", some "x.c", some 3⟩), .add (.edge "main" "operator new" .call),
    .add (.label "l" "operator new"), .add (.label "l" "ghost"), .add (.label "" "(anonymous)"),
    .hide "m"]

theorem standsAlone_anonymous : Selector.StandsAlone "(anonymous)" :=
  .inl (Selector.ofText_refused (c := '(') rfl (by decide) (by decide) (by decide +kernel))

theorem replay_agrees_annotated : ∃ s g',
    runScript {} (Lines.ofBytes annotated.dump.toUTF8) = (.ok 0, s) ∧
      Graph.ofDump (Lines.ofBytes annotated.dump.toUTF8) = .ok g' ∧
      s.graph.nodes = g'.nodes ∧ s.graph.edges = g'.edges ∧ s.graph.labels = g'.labels := by
  have texts : annotated.AllTexts fun t => Graph.OneLine t ∧ Undashed t :=
    Graph.allTexts_ofHistory (by unfold Graph.OneLine Undashed; decide)
  obtain ⟨s, g', ran, read, nodes, edges, labels⟩ := replay_agrees ⟨_, rfl⟩ texts {} {}
  refine ⟨s, g', ran, read, nodes, edges, labels.mpr fun l carrier hc missing => ?_⟩
  have listed : ∀ e ∈ annotated.labels.entries, ∀ carrier ∈ e.2,
      annotated.contains carrier = false → carrier = "(anonymous)" ∨ carrier = "ghost" := by
    with_unfolding_all decide
  obtain ⟨names, found, hc⟩ := Graph.mem_labeled.mp hc
  rcases listed (l, names) (NameMap.get?_eq_some_iff.mp found) carrier hc missing with rfl | rfl
  · exact standsAlone_anonymous
  · exact .inr (isWord_of_isLower (by decide) (by decide))

def stray : Graph := Graph.ofHistory [.add (.label "L" "operator new")]

/-- A name of two words gets its label when it is read, but in a script each of the words does. -/
theorem operator_new_split : stray.Built ∧
    (stray.AllTexts fun t => Graph.OneLine t ∧ Undashed t) ∧ ∃ s g',
      runScript {} (Lines.ofBytes stray.dump.toUTF8) = (.ok 0, s) ∧
      Graph.ofDump (Lines.ofBytes stray.dump.toUTF8) = .ok g' ∧
      g'.hasLabel "operator new" "L" = true ∧ s.graph.labels ≠ g'.labels := by
  have built : stray.Built := ⟨_, rfl⟩
  have texts : stray.AllTexts fun t => Graph.OneLine t ∧ Undashed t :=
    Graph.allTexts_ofHistory (by unfold Graph.OneLine Undashed; decide)
  have words : Selector.ofText "operator new" = .ok _ :=
    @Selector.ofText_words _ ["operator", "new"] (by decide) fun w hw => by
      have lower : ∀ w ∈ ["operator", "new"],
          w.toList ≠ [] ∧ w.toList.all Char.isLower = true := by decide
      exact isWord_of_isLower (lower w hw).1 (lower w hw).2
  have composed : ¬ Selector.StandsAlone "operator new" := by
    rintro (⟨e, refused⟩ | ⟨-, plain⟩)
    · cases words.symm.trans refused
    · have spaced := Selector.isSpace_eq_false_of_isWordChar (plain ' ' (by decide))
      exact absurd spaced (by decide)
  refine ⟨built, texts, { graph := stray.replayed }, stray.reloaded, ?_, ?_,
    by with_unfolding_all decide, fun same => ?_⟩
  · rw [Lines.ofBytes_toUTF8]
    exact runScript_dump built texts {} {}
  · rw [Lines.ofBytes_toUTF8]
    exact built.ofDump_dump (texts.mono fun t ht => ht.1) (texts.mono fun t ht => ht.2).plain
  · exact composed ((Graph.labels_replayed built.consistent).mp same "L" "operator new"
      (by with_unfolding_all decide) (by with_unfolding_all decide))

end Session

end CallAtlas
