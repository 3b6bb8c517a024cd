import CallAtlas.Proofs.Dump.Read
/-!
What survives when a graph is saved and loaded. Main statements: `reload_keeps`, nodes, edges, files and
counts do; `saves_again_iff`, a graph that was loaded can be saved and loaded again unless a name in it is
the word of an option; `labels_reload`, labels do if usernames are unmistakable and the carriers are named
as their nodes are.
-/
namespace CallAtlas.Graph

variable {g g' : Graph}

/-- Reading a dump brings back the nodes in their order, the edges out of every node in their order, the
files and the counts; and the graph that is read has the same lines for nodes and edges. -/
theorem reload_keeps (built : g.Built) (texts : g.AllTexts OneLine) (plain : g.Plain) :
    ∃ g', ofDump (Lines.ofBytes g.dump.toUTF8) = .ok g' ∧ g'.nodes = g.nodes ∧
      (∀ i, g'.edges.toList.filter (·.caller == i) = g.edges.toList.filter (·.caller == i)) ∧
      g'.files = g.files ∧ g'.census = g.census ∧
      g'.nodeEntries = g.nodeEntries ∧ g'.edgeEntries = g.edgeEntries := by
  refine ⟨g.reloaded, ?_, rfl, built.wellFormed.filter_groupedEdges, built.files_reloaded,
    built.census_reloaded, rfl, built.edgeEntries_reloaded⟩
  rw [Lines.ofBytes_toUTF8]
  exact built.ofDump_dump texts plain

/-- A history with names and files that have to be quoted, and a node that is defined after it was used. -/
def workshop : List Change :=
  [.add (.mention "a b"), .add (.define "main" ⟨some "--line", some "#x.c", some 7⟩),
    .add (.define "" ⟨none, some "", none⟩), .add (.edge "main" "a b" .ref),
    .add (.edge "" "say \"hi\"" .call), .add (.edge "main" "" .call), .add (.edge "main" "a b" .call),
    .add (.define "a b" ⟨some "é\\n", none, some 0⟩), .add (.edge "a b" "main" .ref),
    .add (.label "" "main"), .hide "main", .setDefault false]

theorem reload_keeps_workshop :
    (ofHistory workshop).Plain ∧
    ∃ g', ofDump (Lines.ofBytes (ofHistory workshop).dump.toUTF8) = .ok g' ∧
      g'.nodes = (ofHistory workshop).nodes ∧
      (∀ i, g'.edges.toList.filter (·.caller == i) =
        (ofHistory workshop).edges.toList.filter (·.caller == i)) ∧
      g'.files = (ofHistory workshop).files ∧ g'.census = (ofHistory workshop).census ∧
      g'.nodeEntries = (ofHistory workshop).nodeEntries ∧
      g'.edgeEntries = (ofHistory workshop).edgeEntries := by
  have plain : (ofHistory workshop).Plain := by
    unfold Plain
    with_unfolding_all decide
  have texts : (ofHistory workshop).AllTexts OneLine := allTexts_ofHistory (by unfold OneLine; decide)
  exact ⟨plain, reload_keeps ⟨workshop, rfl⟩ texts plain⟩

/-- A graph that was loaded can be saved and loaded again, with the same nodes, if and only if no name in
it is the word of an option. -/
theorem saves_again_iff {bytes : ByteArray} (h : ofDump (Lines.ofBytes bytes) = .ok g) :
    ((∃ g', ofDump (Lines.ofBytes g.dump.toUTF8) = .ok g') ↔
        ∀ node ∈ g.nodes, node.name ∉ Entry.options) ∧
      ∀ g', ofDump (Lines.ofBytes g.dump.toUTF8) = .ok g' → g'.nodes = g.nodes := by
  have built := built_of_ofDump h
  have texts := allTexts_of_ofDump h
  have defines := definesPlainly_of_ofDump h
  rw [Lines.ofBytes_toUTF8, ← defines.plain_iff]
  refine ⟨⟨fun ⟨g', read⟩ => defines.plain_of_reload built.wellFormed texts read,
    fun plain => ⟨g.reloaded, built.ofDump_dump texts plain⟩⟩, fun g' read => ?_⟩
  have plain := defines.plain_of_reload built.wellFormed texts read
  rw [built.ofDump_dump texts plain] at read
  cases read
  rfl

def borrowed : Graph := ofHistory
  [.add (.define "a" {}), .add (.edge "a" "b c" .call), .add (.label "l" "--line")]

theorem saves_again_iff_borrowed :
    ofDump (Lines.ofBytes "node a # first\nedge a \"b c\" call\nlabel l --line\n".toUTF8) =
      .ok borrowed ∧
    (∃ g', ofDump (Lines.ofBytes borrowed.dump.toUTF8) = .ok g') ∧
    ∀ g', ofDump (Lines.ofBytes borrowed.dump.toUTF8) = .ok g' → g'.nodes = borrowed.nodes := by
  have read : ofDump (Lines.ofBytes
      "node a # first\nedge a \"b c\" call\nlabel l --line\n".toUTF8) = .ok borrowed := by
    rw [Lines.ofBytes_toUTF8]
    decide +kernel
  have unlike : ∀ node ∈ borrowed.nodes, node.name ∉ Entry.options := by with_unfolding_all decide
  exact ⟨read, (saves_again_iff read).1.mpr unlike, (saves_again_iff read).2⟩

/-- An edge can bring in a node that is written but not read again. -/
theorem option_not_saved : ∃ g,
    ofDump (Lines.ofBytes "node a\nedge a --external call\n".toUTF8) = .ok g ∧
      ∀ g', ofDump (Lines.ofBytes g.dump.toUTF8) ≠ .ok g' := by
  have read : ofDump (Lines.ofBytes "node a\nedge a --external call\n".toUTF8) =
      .ok (ofHistory [.add (.define "a" {}), .add (.edge "a" "--external" .call)]) := by
    rw [Lines.ofBytes_toUTF8]
    decide +kernel
  refine ⟨_, read, fun g' again => ?_⟩
  rw [Lines.ofBytes_toUTF8] at again
  have plain := (definesPlainly_of_ofDump read).plain_of_reload (built_of_ofDump read).wellFormed
    (allTexts_of_ofDump read) again
  revert plain
  unfold Plain
  with_unfolding_all decide

theorem Unmistakable.canonical_bare (u : g.Unmistakable) (h : g.WellFormed)
    (consistent : g.Consistent) (name : String) : g.bare.canonical name = g.canonical name := by
  have resolved : g.bare.resolve? name = g.resolve? name := by
    ext i
    rw [u.resolve?_eq_some h consistent.mem_definitions,
      Unmistakable.resolve?_eq_some (g := g.bare) u h.bare fun i => mem_definedPositions]
    rfl
  rw [canonical, resolved]
  rfl

theorem hasLabel_reloaded {name l : String} : g.reloaded.hasLabel name l = true ↔
    ∃ carrier ∈ g.labeled l, g.bare.canonical (g.shownAs carrier) = g.bare.canonical name := by
  rw [hasLabel, decide_eq_true_iff, mem_labeled_reloaded]
  rfl

/-- A name has a label in the graph that is read if it stands there for the same as the name that a carrier
was shown under. If usernames are unmistakable, no label is lost or gained if and only if every label
is on the canonical names of its carriers; a label that was put on a name before a node took it is not. -/
theorem labels_reload (built : g.Built) (texts : g.AllTexts OneLine) (plain : g.Plain) :
    ∃ g', ofDump (Lines.ofBytes g.dump.toUTF8) = .ok g' ∧
      (∀ name l, g'.hasLabel name l = true ↔ ∃ carrier ∈ g.labeled l,
        g.bare.canonical (g.shownAs carrier) = g.bare.canonical name) ∧
      (g.Unmistakable → ((∀ name l, g'.hasLabel name l = g.hasLabel name l) ↔
        ∀ l, ∀ carrier ∈ g.labeled l, g.hasLabel carrier l = true)) := by
  refine ⟨g.reloaded, ?_, fun name l => hasLabel_reloaded, fun u => ?_⟩
  · rw [Lines.ofBytes_toUTF8]
    exact built.ofDump_dump texts plain
  have h := built.wellFormed
  have consistent := built.consistent
  -- with unmistakable usernames a name keeps a label if a carrier stands for the same node
  have kept (name l : String) : g.reloaded.hasLabel name l = true ↔
      ∃ carrier ∈ g.labeled l, g.canonical carrier = g.canonical name := by
    rw [hasLabel_reloaded]
    simp only [u.canonical_bare h consistent, u.canonical_shownAs h consistent]
  constructor
  · intro same l carrier hc
    rw [← same, kept]
    exact ⟨carrier, hc, rfl⟩
  · intro settled name l
    rw [Bool.eq_iff_iff, kept]
    constructor
    · rintro ⟨carrier, hc, eq⟩
      have := settled l carrier hc
      rwa [hasLabel, eq] at this
    · intro carried
      exact ⟨g.canonical name, of_decide_eq_true carried, u.canonical_canonical h consistent name⟩

def badges : Graph := ofHistory
  [.add (.define "a" ⟨some "u", none, none⟩), .add (.define "b" {}), .add (.label "l" "u"),
    .add (.label "l" "elsewhere"), .add (.label "" "b")]

theorem labels_reload_badges : badges.Plain ∧ badges.Unmistakable ∧
    ∃ g', ofDump (Lines.ofBytes badges.dump.toUTF8) = .ok g' ∧
      ∀ name l, g'.hasLabel name l = badges.hasLabel name l := by
  have plain : badges.Plain := by
    unfold Plain
    with_unfolding_all decide
  have unmistakable : badges.Unmistakable := by
    unfold Unmistakable
    with_unfolding_all decide
  have texts : badges.AllTexts OneLine := allTexts_ofHistory (by unfold OneLine; decide)
  obtain ⟨g', read, -, kept⟩ := labels_reload ⟨_, rfl⟩ texts plain
  refine ⟨plain, unmistakable, g', read, (kept unmistakable).mpr fun l carrier hc => ?_⟩
  have listed : ∀ e ∈ badges.labels.entries, ∀ carrier ∈ e.2, badges.hasLabel carrier e.1 = true := by
    with_unfolding_all decide
  obtain ⟨names, found, hc⟩ := mem_labeled.mp hc
  exact listed (l, names) (NameMap.get?_eq_some_iff.mp found) carrier hc

def twins : Graph := ofHistory
  [.add (.define "a" ⟨some "u", none, none⟩), .add (.define "b" ⟨some "u", none, none⟩),
    .add (.label "l" "a")]

/-- A label of one of two nodes with the same username is read as a label of the other. -/
theorem label_lost_twins : twins.Built ∧ twins.AllTexts OneLine ∧ twins.Plain ∧
    twins.hasLabel "a" "l" = true ∧
    ∃ g', ofDump (Lines.ofBytes twins.dump.toUTF8) = .ok g' ∧ g'.hasLabel "a" "l" = false := by
  have plain : twins.Plain := by
    unfold Plain
    with_unfolding_all decide
  have texts : twins.AllTexts OneLine := allTexts_ofHistory (by unfold OneLine; decide)
  have built : twins.Built := ⟨_, rfl⟩
  refine ⟨built, texts, plain, by with_unfolding_all decide, twins.reloaded, ?_,
    by with_unfolding_all decide⟩
  rw [Lines.ofBytes_toUTF8]
  exact built.ofDump_dump texts plain

end CallAtlas.Graph
