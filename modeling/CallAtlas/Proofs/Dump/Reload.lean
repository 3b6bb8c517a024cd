import CallAtlas.Dump.Reader
import CallAtlas.Dump.Writer
import CallAtlas.Proofs.Graph.Texts
import Mathlib.Data.List.Induction
/-!
Dumps that are read back. The nodes come back in their places, the definitions in the order of the nodes,
the edges grouped by their callers, and the labels on whatever the names that were written stand for then.
Main statement: `Built.ofDump_dump`, what is read is exactly `reloaded`.
-/
namespace CallAtlas

def Node.entry (node : Node) : Entry :=
  match node.definition with
  | none => .mention node.name
  | some d => .define node.name d

theorem Node.texts_entry (node : Node) : node.entry.texts = node.texts := by
  obtain ⟨name, definition⟩ := node
  cases definition <;> rfl

theorem Node.operands_entry (node : Node) : node.entry.operands = node.operands := by
  obtain ⟨name, definition⟩ := node
  cases definition <;> rfl

namespace Graph

def definedPositions (g : Graph) : List Nat :=
  ((List.range g.size).filter fun i => !g.isExternalAt i).reverse

/-- The nodes alone, as if they had been defined one after the other. -/
def bare (g : Graph) : Graph := { nodes := g.nodes, definitions := g.definedPositions }

theorem mem_definedPositions {g : Graph} {i : Nat} :
    i ∈ g.definedPositions ↔ i < g.size ∧ g.isExternalAt i = false := by
  simp [definedPositions]

theorem WellFormed.bare {g : Graph} (h : g.WellFormed) : g.bare.WellFormed :=
  ⟨h.names_nodup, by simp [Graph.bare], List.nodup_nil⟩

/-- The edges, those of the first caller first. -/
def groupedEdges (g : Graph) : List Edge :=
  (List.range g.size).flatMap fun i => g.edges.toList.filter (·.caller == i)

/-- The labels of the names that the carriers are shown as, whatever those names stand for. -/
def relabeled (g : Graph) : NameMap NameSet :=
  g.labels.filterMap fun _ names =>
    some (.ofList (names.toList.map fun name => g.bare.canonical (g.shownAs name)))

def reloaded (g : Graph) : Graph :=
  { g.bare with edges := g.groupedEdges.toArray, labels := g.relabeled }

variable {g g' : Graph}

theorem addLine_line {e : Entry} (h : ∀ t ∈ e.operands, t ∉ Entry.options) :
    g.addLine e.line = (g.add e).mapError .edge := by
  rw [addLine, e.split_line]
  simp only [Entry.ofTokens_tokens h]

theorem foldlM_cons_eq_ok {f : Graph → Entry → Except EdgeError Graph} {e : Entry}
    {es : List Entry} :
    (e :: es).foldlM f g = .ok g' ↔ ∃ g₁, f g e = .ok g₁ ∧ es.foldlM f g₁ = .ok g' := by
  rw [List.foldlM_cons]
  cases f g e <;> simp [bind, Except.bind]

theorem addLines_of_foldlM {es : List Entry} (h : ∀ e ∈ es, ∀ t ∈ e.operands, t ∉ Entry.options)
    (added : es.foldlM add g = .ok g') (n : Nat) :
    g.addLines n (es.map fun e => some e.line) = .ok g' := by
  induction es generalizing g n with
  | nil =>
    cases added
    rfl
  | cons e es ih =>
    obtain ⟨first, rest⟩ := List.forall_mem_cons.mp h
    obtain ⟨g₁, once, later⟩ := foldlM_cons_eq_ok.mp added
    rw [List.map_cons, addLines, addLine_line first, once]
    exact ih rest later (n + 1)

theorem foldlM_append_ok {f : Graph → Entry → Except EdgeError Graph} {es fs : List Entry}
    {g₁ g₂ g₃ : Graph} (first : es.foldlM f g₁ = .ok g₂) (second : fs.foldlM f g₂ = .ok g₃) :
    (es ++ fs).foldlM f g₁ = .ok g₃ := by
  rw [List.foldlM_append, first]
  exact second

theorem nodeEntries_eq (g : Graph) : g.nodeEntries = g.nodes.toList.map Node.entry := rfl

theorem bare_push (g : Graph) (node : Node) :
    bare { g with nodes := g.nodes.push node } =
      { nodes := g.nodes.push node,
        definitions := (if node.isExternal then [] else [g.size]) ++ g.definedPositions } := by
  rw [bare]
  congr 1
  have kept : ((List.range g.size).filter fun i =>
      !Graph.isExternalAt { g with nodes := g.nodes.push node } i) =
        (List.range g.size).filter fun i => !g.isExternalAt i := by
    refine List.filter_congr fun i hi => ?_
    have other : i ≠ g.nodes.size := Nat.ne_of_lt (List.mem_range.mp hi)
    rw [isExternalAt, isExternalAt, Array.getElem?_push, if_neg other]
  have last : Graph.isExternalAt { g with nodes := g.nodes.push node } g.size = node.isExternal := by
    simp [isExternalAt, size]
  have size : Graph.size { g with nodes := g.nodes.push node } = g.size + 1 := Array.size_push _
  rw [definedPositions, size, List.range_succ, List.filter_append, List.reverse_append, kept]
  congr 1
  rw [List.filter_singleton, last]
  cases node.isExternal <;> rfl

theorem add_entry_bare {node : Node} (fresh : node.name ∉ g.nodes.toList.map Node.name) :
    g.bare.add node.entry = .ok (bare { g with nodes := g.nodes.push node }) := by
  have missing : g.bare.find? node.name = none := find?_eq_none.mpr fresh
  obtain ⟨name, definition⟩ := node
  rw [bare_push]
  cases definition with
  | none =>
    show Except.ok (g.bare.mention name).2 = _
    rw [mention_fresh missing]
    rfl
  | some d =>
    show Except.ok (g.bare.define name d).2 = _
    rw [define_fresh missing]
    rfl

theorem foldlM_add_nodes (nodes : List Node) (distinct : (nodes.map Node.name).Nodup) :
    (nodes.map Node.entry).foldlM add {} = .ok (bare { nodes := nodes.toArray }) := by
  induction nodes using List.reverseRecOn with
  | nil => rfl
  | append_singleton nodes node ih =>
    rw [List.map_append, List.nodup_append] at distinct
    obtain ⟨before, -, other⟩ := distinct
    have fresh : node.name ∉ nodes.map Node.name := fun hm => other _ hm _ (by simp) rfl
    rw [List.map_append]
    refine foldlM_append_ok (ih before) ?_
    rw [List.map_singleton, List.foldlM_cons,
      add_entry_bare (g := { nodes := nodes.toArray }) fresh]
    simp [bind, Except.bind, pure, Except.pure]

theorem WellFormed.foldlM_add_nodeEntries (h : g.WellFormed) :
    g.nodeEntries.foldlM Graph.add {} = .ok g.bare :=
  foldlM_add_nodes g.nodes.toList h.names_nodup

theorem mem_labeled_reloaded {l name : String} : name ∈ g.reloaded.labeled l ↔
    ∃ carrier ∈ g.labeled l, g.bare.canonical (g.shownAs carrier) = name := by
  show name ∈ (g.relabeled.get? l).getD ∅ ↔ _
  rw [relabeled, NameMap.get?_filterMap, labeled]
  cases g.labels.get? l with
  | none => simp [NameMap.mem_iff_isSome_get?]
  | some names => simp

theorem mem_labels_reloaded {l : String} : l ∈ g.reloaded.labels ↔ l ∈ g.labels := by
  show l ∈ g.relabeled ↔ _
  rw [NameMap.mem_iff_isSome_get?, NameMap.mem_iff_isSome_get?, relabeled, NameMap.get?_filterMap]
  cases g.labels.get? l <;> rfl

theorem not_mem_labeled_bare (name l : String) : name ∉ g.bare.labeled l :=
  List.not_mem_nil

theorem Consistent.addLabels_bare (h : g.Consistent) :
    g.bare.addLabels g.writtenLabels = { g.bare with labels := g.relabeled } := by
  rw [addLabels_eq]
  congr 1
  show _ = g.reloaded.labels
  refine labels_ext (fun l => ?_) fun l name => ?_
  · rw [mem_labels_addLabels, mem_labels_reloaded, h.mem_labels_iff]
    simp only [mem_writtenLabels]
    constructor
    · rintro (⟨⟨⟩⟩ | ⟨-, name, hn, -⟩)
      exact ⟨name, hn⟩
    · rintro ⟨name, hn⟩
      exact .inr ⟨_, name, hn, rfl⟩
  · rw [mem_labeled_addLabels, mem_labeled_reloaded]
    simp only [mem_writtenLabels]
    constructor
    · rintro (none | ⟨_, ⟨carrier, hc, rfl⟩, rfl⟩)
      · exact absurd none (not_mem_labeled_bare _ _)
      · exact ⟨carrier, hc, rfl⟩
    · rintro ⟨carrier, hc, rfl⟩
      exact .inr ⟨_, ⟨carrier, hc, rfl⟩, rfl⟩

def edgeEntry (g : Graph) (e : Edge) : Entry := .edge (g.nameAt e.caller) (g.nameAt e.callee) e.kind

theorem edgeEntries_eq (g : Graph) : g.edgeEntries = g.groupedEdges.map g.edgeEntry := by
  rw [edgeEntries, groupedEdges, List.map_flatMap]
  rfl

theorem WellFormed.add_edgeEntry (h : g.WellFormed) {e : Edge} (caller : e.caller < g.size)
    (defined : g.isExternalAt e.caller = false) (callee : e.callee < g.size)
    (fresh : (e.caller, e.callee) ∉ g.edges.toList.map fun e => (e.caller, e.callee)) :
    g.add (g.edgeEntry e) = .ok { g with edges := g.edges.push e } := by
  have missing : g.edges.findIdx? (fun d => d.caller == e.caller && d.callee == e.callee) = none := by
    rw [Array.findIdx?_eq_none_iff]
    intro d hd
    by_contra same
    simp only [Bool.not_eq_false, Bool.and_eq_true, beq_iff_eq] at same
    refine fresh (List.mem_map.mpr ⟨d, Array.mem_toList_iff.mpr hd, ?_⟩)
    rw [same.1, same.2]
  show g.connect (g.nameAt e.caller) (g.nameAt e.callee) e.kind = _
  rw [connect_eq_ok]
  refine ⟨e.caller, h.find?_nameAt caller, defined, ?_⟩
  rw [mention_of_find? (h.find?_nameAt callee), Graph.join, missing]

theorem foldlM_add_edges {edges : List Edge} (h : g.WellFormed)
    (range : ∀ e ∈ edges, e.caller < g.size ∧ e.callee < g.size)
    (defined : ∀ e ∈ edges, g.isExternalAt e.caller = false)
    (distinct : ((g.edges.toList ++ edges).map fun e => (e.caller, e.callee)).Nodup) :
    (edges.map g.edgeEntry).foldlM add g = .ok { g with edges := g.edges ++ edges.toArray } := by
  induction edges generalizing g with
  | nil => simp [pure, Except.pure]
  | cons e edges ih =>
    obtain ⟨⟨caller, callee⟩, ranges⟩ := List.forall_mem_cons.mp range
    obtain ⟨first, others⟩ := List.forall_mem_cons.mp defined
    have fresh : (e.caller, e.callee) ∉ g.edges.toList.map fun e => (e.caller, e.callee) := by
      rw [List.map_append, List.nodup_append] at distinct
      exact fun hm => distinct.2.2 _ hm _ (by simp) rfl
    have added := h.add_edgeEntry caller first callee fresh
    have rest := ih (g := { g with edges := g.edges.push e }) (h.add added) ranges others
      (by simpa using distinct)
    exact foldlM_cons_eq_ok.mpr ⟨_, added, rest.trans (by simp)⟩

theorem perm_flatMap_filter {α : Type} (key : α → Nat) (as : List α) (n : Nat) :
    ((List.range n).flatMap fun i => as.filter (key · == i)).Perm (as.filter (key · < n)) := by
  induction n with
  | zero => simp
  | succ n ih =>
    have split : (as.filter (key · < n) ++ as.filter (key · == n)).Perm
        (as.filter (key · < n + 1)) := by
      refine List.Perm.trans ?_ (List.filter_append_perm (key · < n) (as.filter (key · < n + 1)))
      rw [List.filter_filter, List.filter_filter]
      refine List.Perm.of_eq (congrArg₂ _ ?_ ?_) <;>
        refine List.filter_congr fun a _ => ?_ <;> grind
    rw [List.range_succ, List.flatMap_append, List.flatMap_singleton]
    exact (ih.append_right _).trans split

theorem filter_flatMap_filter {α : Type} (key : α → Nat) (as : List α) (n i : Nat) :
    ((List.range n).flatMap fun i => as.filter (key · == i)).filter (key · == i) =
      if i < n then as.filter (key · == i) else [] := by
  induction n with
  | zero => simp
  | succ n ih =>
    rw [List.range_succ, List.flatMap_append, List.flatMap_singleton, List.filter_append, ih,
      List.filter_filter]
    by_cases last : i = n
    · subst last
      simp
    · have none : (as.filter fun a => key a == i && key a == n) = [] := by
        rw [List.filter_eq_nil_iff]
        intro a _
        simp only [Bool.and_eq_true, beq_iff_eq]
        omega
      have same : i < n + 1 ↔ i < n := by omega
      rw [none, List.append_nil]
      simp only [same]

theorem WellFormed.perm_groupedEdges (h : g.WellFormed) :
    g.groupedEdges.Perm g.edges.toList := by
  refine (perm_flatMap_filter Edge.caller g.edges.toList g.size).trans (List.Perm.of_eq ?_)
  rw [List.filter_eq_self]
  intro e he
  exact decide_eq_true (h.edges_lt e (Array.mem_toList_iff.mp he)).1

theorem WellFormed.filter_groupedEdges (h : g.WellFormed) (i : Nat) :
    g.groupedEdges.filter (·.caller == i) = g.edges.toList.filter (·.caller == i) := by
  rw [groupedEdges, filter_flatMap_filter Edge.caller]
  split
  · rfl
  · rename_i out
    refine (List.filter_eq_nil_iff.mpr fun e he => ?_).symm
    have := (h.edges_lt e (Array.mem_toList_iff.mp he)).1
    rw [beq_iff_eq]
    omega

theorem WellFormed.foldlM_add_edgeEntries (h : g.WellFormed) (consistent : g.Consistent)
    (labels : NameMap NameSet) : g.edgeEntries.foldlM Graph.add { g.bare with labels } =
      .ok { g.bare with edges := g.groupedEdges.toArray, labels } := by
  have perm := h.perm_groupedEdges
  have grouped {e : Edge} (he : e ∈ g.groupedEdges) : e ∈ g.edges :=
    Array.mem_toList_iff.mp (perm.mem_iff.mp he)
  have added := @foldlM_add_edges { g.bare with labels } g.groupedEdges (h.bare.of_eq rfl rfl)
    (fun e he => h.edges_lt e (grouped he))
    (fun e he => ((consistent.mem_definitions _).mp
      (consistent.callers_defined e (grouped he))).2)
    ((perm.map _).nodup_iff.mpr h.edges_nodup)
  have alone : g.bare.edges = #[] := rfl
  rw [edgeEntries_eq]
  exact added.trans (by simp [alone])

theorem foldlM_add_entries (h : g.WellFormed) (consistent : g.Consistent) :
    g.entries.foldlM add {} = .ok g.reloaded := by
  have labels : g.labelEntries.foldlM add g.bare = .ok { g.bare with labels := g.relabeled } := by
    rw [labelEntries_eq, foldlM_add_labels, consistent.addLabels_bare]
  exact foldlM_append_ok (foldlM_append_ok h.foldlM_add_nodeEntries labels)
    (h.foldlM_add_edgeEntries consistent g.relabeled)

theorem AllTexts.texts_of_mem_entries {P : String → Prop} (h : g.WellFormed) (texts : g.AllTexts P)
    {e : Entry} (he : e ∈ g.entries) : ∀ t ∈ e.texts, P t := by
  have named {i : Nat} (lt : i < g.size) : P (g.nameAt i) := by
    rw [nameAt_eq lt]
    exact texts.nodes _ (Array.getElem_mem lt) _ List.mem_cons_self
  rcases List.mem_append.mp he with he | he
  · rcases List.mem_append.mp he with he | he
    · rw [nodeEntries_eq] at he
      obtain ⟨node, hn, rfl⟩ := List.mem_map.mp he
      rw [Node.texts_entry]
      exact texts.nodes node (Array.mem_toList_iff.mp hn)
    · rw [labelEntries_eq] at he
      obtain ⟨⟨l, name⟩, written, rfl⟩ := List.mem_map.mp he
      obtain ⟨carrier, hc, rfl⟩ := mem_writtenLabels.mp written
      obtain ⟨names, found, hc⟩ := mem_labeled.mp hc
      obtain ⟨hl, carriers⟩ := texts.labels l names found
      intro t ht
      rcases List.mem_cons.mp ht with rfl | ht
      · exact hl
      · rw [List.mem_singleton.mp ht]
        rcases g.shownAs_cases carrier with ⟨-, eq⟩ | ⟨i, node, -, hn, eq⟩
        · rw [eq]
          exact carriers carrier hc
        · rw [eq]
          exact texts.nodes node (Array.mem_of_getElem? hn) _ (node.displayName_mem_texts)
  · rw [edgeEntries_eq] at he
    obtain ⟨edge, hedge, rfl⟩ := List.mem_map.mp he
    obtain ⟨caller, callee⟩ :=
      h.edges_lt edge (Array.mem_toList_iff.mp (h.perm_groupedEdges.mem_iff.mp hedge))
    intro t ht
    rcases List.mem_cons.mp ht with rfl | ht
    · exact named caller
    · rw [List.mem_singleton.mp ht]
      exact named callee

/-- No node is named, and no file is called, like an option. -/
def Plain (g : Graph) : Prop := ∀ node ∈ g.nodes, ∀ t ∈ node.operands, t ∉ Entry.options

theorem Plain.operands_of_mem_entries (plain : g.Plain) {e : Entry} (he : e ∈ g.entries) :
    ∀ t ∈ e.operands, t ∉ Entry.options := by
  rcases List.mem_append.mp he with he | he
  · rcases List.mem_append.mp he with he | he
    · rw [nodeEntries_eq] at he
      obtain ⟨node, hn, rfl⟩ := List.mem_map.mp he
      rw [Node.operands_entry]
      exact plain node (Array.mem_toList_iff.mp hn)
    · rw [labelEntries_eq] at he
      obtain ⟨p, -, rfl⟩ := List.mem_map.mp he
      nofun
  · rw [edgeEntries_eq] at he
    obtain ⟨e, -, rfl⟩ := List.mem_map.mp he
    nofun

def OneLine (text : String) : Prop := '\n' ∉ text.toList

theorem ofText_dump (h : g.WellFormed) (texts : g.AllTexts OneLine) :
    Lines.ofText g.dump = g.entries.map fun e => some e.line := by
  have lines : ∀ line ∈ g.entries.map Entry.line, Lines.IsLine line := by
    intro line hl
    obtain ⟨e, he, rfl⟩ := List.mem_map.mp hl
    exact Entry.isLine_line (texts.texts_of_mem_entries h he)
  rw [dump, Lines.ofText_unlines lines, List.map_map]
  rfl

/-- A dump is read back as the graph that its entries describe. -/
theorem Built.ofDump_dump (built : g.Built) (texts : g.AllTexts OneLine) (plain : g.Plain) :
    ofDump (Lines.ofText g.dump) = .ok g.reloaded := by
  rw [ofText_dump built.wellFormed texts]
  exact addLines_of_foldlM (fun e he => plain.operands_of_mem_entries he)
    (foldlM_add_entries built.wellFormed built.consistent) 0

theorem Built.files_reloaded (built : g.Built) : g.reloaded.files = g.files := by
  refine congrArg NameSet.toList (NameSet.ext fun file => ?_)
  rw [NameSet.mem_ofList, NameSet.mem_ofList, List.mem_filterMap, List.mem_filterMap]
  refine exists_congr fun i => and_congr_left fun _ => ?_
  rw [built.consistent.mem_definitions]
  exact mem_definedPositions

theorem Built.census_reloaded (built : g.Built) : g.reloaded.census = g.census := by
  have perm := built.wellFormed.perm_groupedEdges
  have edges : g.reloaded.edges.size = g.edges.size := by
    show g.groupedEdges.length = g.edges.toList.length
    exact perm.length_eq
  have refs : g.reloaded.edges.countP (·.kind == .ref) = g.edges.countP (·.kind == .ref) := by
    rw [← Array.countP_toList, ← Array.countP_toList]
    exact perm.countP_eq _
  have labels : g.reloaded.labels.size = g.labels.size := by
    show (g.labels.entries.filterMap _).length = _
    simp [NameMap.size]
  rw [census, census, edges, refs, labels, built.files_reloaded]
  rfl

theorem Built.edgeEntries_reloaded (built : g.Built) : g.reloaded.edgeEntries = g.edgeEntries := by
  have grouped (i : Nat) : g.reloaded.edgeEntriesAt i = g.edgeEntriesAt i :=
    congrArg (List.map _) (built.wellFormed.filter_groupedEdges i)
  rw [edgeEntries, edgeEntries]
  exact congrArg (List.flatMap · _) (funext grouped)

end Graph

end CallAtlas
