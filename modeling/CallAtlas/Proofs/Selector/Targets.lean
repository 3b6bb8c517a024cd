import CallAtlas.Proofs.Graph.Lookup
import CallAtlas.Proofs.Selector.Names
import CallAtlas.Proofs.Selector.Selection
/-!
What a word selects for a label. Main statements: `known_of_mem_nodes`, a selector selects only names that
the graph shows, and `targets_eq_singleton` and `mem_targets_cases`, a single word stands for itself, or
for names that are shorter or that the graph shows.
-/
namespace CallAtlas

namespace Graph

variable {g : Graph}

/-- A name that is shown for a node, or for a name with some label. -/
def Known (g : Graph) (name : String) : Prop :=
  (∃ i < g.size, g.displayAt i = name) ∨ ∃ l, name ∈ g.labeledNodes l

theorem known_of_mem_visibleNodes {externals : Bool} {name : String}
    (h : name ∈ g.visibleNodes externals) : g.Known name := by
  obtain ⟨i, lt, eq, -⟩ := mem_visibleNodes.mp h
  exact .inl ⟨i, lt, eq⟩

theorem known_of_mem_follow {k : Closure} {name other : String} (h : other ∈ g.follow k name) :
    g.Known other := by
  cases k with
  | callers => exact known_of_mem_visibleNodes (mem_visibleNodes_of_mem_callers h)
  | callees => exact known_of_mem_visibleNodes (mem_visibleNodes_of_mem_callees h)
  | allCallers | allCallees =>
    obtain ⟨j, hj, rfl⟩ := List.mem_map.mp h
    exact .inl ⟨j, (not_mem_seen_of_mem_walk hj).1, rfl⟩

end Graph

namespace Selector

variable {g : Graph} {n : String}

theorem known_of_mem_visible {p : Predicate} (h : n ∈ visible g p) : g.Known n :=
  Graph.known_of_mem_visibleNodes (mem_visible.mp h).1

variable [PatternEngine]

mutual

theorem known_of_mem_nodes {s : Selector} (h : n ∈ nodes g s) : g.Known n := by
  match s with
  | name m =>
    rw [nodes, NameSet.mem_ofList, Option.mem_toList] at h
    obtain ⟨i, found, shown⟩ := Option.map_eq_some_iff.mp h
    exact .inl ⟨i, Graph.lt_size_of_resolve? found, shown⟩
  | pattern p => exact known_of_mem_visible h
  | label l =>
    rw [nodes, NameSet.mem_ofList] at h
    exact .inr ⟨l, h⟩
  | both [] =>
    rw [nodes, NameSet.mem_ofList] at h
    exact Graph.known_of_mem_visibleNodes h
  | both (s :: ss) =>
    rw [nodes] at h
    exact known_of_mem_nodes (mem_commonNodes.mp h).1
  | either ss =>
    rw [nodes] at h
    exact known_of_mem_joinedNodes h
  | not s => exact known_of_mem_visible h
  | closure k s =>
    rw [nodes, Graph.extend, NameSet.mem_ofList, List.mem_flatMap] at h
    obtain ⟨m, -, hm⟩ := h
    exact Graph.known_of_mem_follow hm

theorem known_of_mem_joinedNodes {ss : List Selector} (h : n ∈ joinedNodes g ss) : g.Known n := by
  match ss with
  | [] => cases h
  | s :: ss =>
    rw [joinedNodes, NameSet.mem_foldl_insert] at h
    rcases h with h | h
    · exact known_of_mem_joinedNodes h
    · exact known_of_mem_nodes h

end

def targets (g : Graph) (word : String) : List String :=
  if g.contains word then [word]
  else
    match ofText word with
    | .error _ => [word]
    | .ok s => s.names?.getD (s.nodes g).toList

theorem labelTargets_singleton (g : Graph) (word : String) :
    labelTargets g [word] = .ok (targets g word) := by
  rw [targets]
  cases here : g.contains word with
  | true =>
    have listed : ofWords g [word] = .ok (either [name word]) := by simp [ofWords, here]
    unfold labelTargets
    rw [listed, if_pos rfl]
    rfl
  | false =>
    have parsed : ofWords g [word] = ofText word := by
      simp [ofWords, here, String.intercalate_singleton]
    unfold labelTargets
    rw [parsed, if_neg Bool.false_ne_true]
    cases ofText word <;> rfl

/-- Whether a word that is not in a graph labels only the name that it is. -/
def StandsAlone (word : String) : Prop := (∃ e, ofText word = .error e) ∨ IsWord word

theorem targets_eq_singleton {word : String} (h : g.contains word = false → StandsAlone word) :
    targets g word = [word] := by
  rw [targets]
  cases here : g.contains word with
  | true => rw [if_pos rfl]
  | false =>
    rw [if_neg Bool.false_ne_true]
    rcases h here with ⟨e, refused⟩ | plain
    · rw [refused]
    · rw [ofText_of_isWord plain]
      rfl

/-- A word that does not stand alone labels shorter names, or names that the graph shows. -/
theorem mem_targets_cases {word : String} (missing : g.contains word = false)
    (h : ¬ StandsAlone word) (ht : n ∈ targets g word) : n.length < word.length ∨ g.Known n := by
  obtain ⟨accepted, composed⟩ := not_or.mp h
  rw [targets, missing, if_neg Bool.false_ne_true] at ht
  cases read : ofText word with
  | error e => exact absurd ⟨e, read⟩ accepted
  | ok s =>
    rw [read] at ht
    dsimp only at ht
    cases listed : s.names? with
    | none =>
      rw [listed] at ht
      exact .inr (known_of_mem_nodes ht)
    | some ns =>
      rw [listed] at ht
      have mentioned := mem_mentioned_of_names? listed n ht
      exact .inl ((mentioned_of_ofText read n mentioned).resolve_right composed)

end Selector

end CallAtlas
