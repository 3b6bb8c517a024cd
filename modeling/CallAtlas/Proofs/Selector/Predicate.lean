import CallAtlas.Pattern.Engine
import CallAtlas.Proofs.Graph.Labels
import CallAtlas.Proofs.Selector.Selection
/-!
Selectors as sets and as tests. Main statement: `predicate_agrees`, on visible nodes the test of a selector
accepts what the selector selects, so a negation selects what is visible and not selected.
-/
namespace CallAtlas.Selector

section

variable [PatternEngine]

variable {g : Graph} {n : String}

theorem predicates_eq (ss : List Selector) : predicates g ss = ss.map (predicate g) := by
  induction ss with
  | nil => rfl
  | cons s ss ih => rw [predicates, ih, List.map_cons]

theorem predicate_name_iff (built : g.Built) (shown : n ∈ g.visibleNodes true) (m : String) :
    predicate g (name m) n = true ↔ n ∈ nodes g (name m) := by
  rw [nodes, NameSet.mem_ofList, predicate]
  cases found : g.displayName? m with
  | some other => simp
  | none =>
    obtain ⟨i, lt, rfl, -⟩ := Graph.mem_visibleNodes.mp shown
    have known := Graph.contains_displayAt built.consistent.mem_definitions lt
    have other : g.displayAt i ≠ m := by
      rintro rfl
      rw [Graph.displayName?, Option.map_eq_none_iff] at found
      rw [Graph.contains, found] at known
      cases known
    simp [other]

mutual

theorem predicate_iff (built : g.Built) (shown : n ∈ g.visibleNodes true) (s : Selector) :
    predicate g s n = true ↔ n ∈ nodes g s := by
  match s with
  | name m => exact predicate_name_iff built shown m
  | pattern p =>
    rw [nodes, mem_visible, predicate]
    exact (and_iff_right shown).symm
  | label l =>
    rw [nodes, predicate]
    exact decide_eq_true_iff
  | both ss =>
    rw [mem_nodes_both shown, predicate, predicates_eq]
    simp only [List.all_map, List.all_eq_true]
    exact forall₂_congr (predicate_iff_of_mem built shown ss)
  | either ss =>
    rw [nodes, mem_joinedNodes, predicate, predicates_eq]
    simp only [List.any_map, List.any_eq_true]
    exact exists_congr fun s => and_congr_right (predicate_iff_of_mem built shown ss s)
  | not s =>
    rw [nodes, mem_visible, predicate]
    exact (and_iff_right shown).symm
  | closure k s =>
    rw [nodes, predicate]
    exact decide_eq_true_iff

theorem predicate_iff_of_mem (built : g.Built) (shown : n ∈ g.visibleNodes true)
    (ss : List Selector) : ∀ s ∈ ss, predicate g s n = true ↔ n ∈ nodes g s := by
  match ss with
  | [] => nofun
  | s :: ss =>
    intro t ht
    rcases List.mem_cons.mp ht with eq | ht
    · rw [eq]
      exact predicate_iff built shown s
    · exact predicate_iff_of_mem built shown ss t ht

end

/-- On visible nodes, the test of a selector accepts what the selector selects; and a negation selects what
is visible and not selected. -/
theorem predicate_agrees (built : g.Built) (s : Selector) :
    (∀ n ∈ g.visibleNodes true, predicate g s n = true ↔ n ∈ nodes g s) ∧
      ∀ n, n ∈ nodes g (.not s) ↔ n ∈ g.visibleNodes true ∧ n ∉ nodes g s := by
  refine ⟨fun n shown => predicate_iff built shown s, fun n => ?_⟩
  rw [nodes, mem_visible]
  refine and_congr_right fun shown => ?_
  rw [Bool.not_eq_true', Bool.eq_false_iff]
  exact not_congr (predicate_iff built shown s)

end

def harbor : Graph := Graph.ofHistory
  [.add (.define "a" ⟨some "u", none, none⟩), .add (.edge "a" "b" .call), .add (.label "l" "a"),
    .add (.label "l" "lost"), .hide "b"]

def ashore : Selector :=
  .both [.label "l", .closure .callers (.name "b"), .not (.name "lost")]

theorem predicate_agrees_harbor : harbor.Built ∧ "u" ∈ harbor.visibleNodes true ∧
    predicate harbor ashore "u" = true ∧ "u" ∉ nodes harbor (.not ashore) := by
  have built : harbor.Built := ⟨_, rfl⟩
  have shown : "u" ∈ harbor.visibleNodes true := by with_unfolding_all decide
  have labeled : "u" ∈ nodes harbor (.label "l") := by
    rw [nodes, NameSet.mem_ofList, Graph.mem_labeledNodes]
    exact ⟨"a", by with_unfolding_all decide, by with_unfolding_all decide⟩
  have rest : "u" ∈ nodes harbor (.both [.closure .callers (.name "b"), .not (.name "lost")]) := by
    with_unfolding_all decide
  have picked : "u" ∈ nodes harbor ashore := by
    rw [mem_nodes_both shown] at rest
    rw [ashore, mem_nodes_both shown, List.forall_mem_cons]
    exact ⟨labeled, rest⟩
  obtain ⟨accepts, negates⟩ := predicate_agrees built ashore
  refine ⟨built, shown, (accepts "u" shown).mpr picked, ?_⟩
  intro left
  exact ((negates "u").mp left).2 picked

end CallAtlas.Selector
