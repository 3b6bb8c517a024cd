import CallAtlas.Selector.Words
/-!
What selectors select, and which of them depend on what is visible. Main statement:
`nodes_withVisibility`, the others select the same nodes whatever is hidden.
-/
namespace CallAtlas

def Graph.withVisibility (g : Graph) (v : Visibility) : Graph := { g with visibility := v }

namespace Selector

variable {g : Graph} {n : String}

theorem mem_visible {p : Predicate} :
    n ∈ visible g p ↔ n ∈ g.visibleNodes true ∧ p n = true := by
  rw [visible, NameSet.mem_ofList, List.mem_filter]

variable [PatternEngine]

theorem mem_commonNodes {ss : List Selector} {S : NameSet} :
    n ∈ commonNodes g S ss ↔ n ∈ S ∧ ∀ s ∈ ss, n ∈ nodes g s := by
  induction ss generalizing S with
  | nil => simp [commonNodes]
  | cons s ss ih =>
    have kept : n ∈ S.filter (fun a _ => a ∈ nodes g s) ↔ n ∈ S ∧ n ∈ nodes g s := by
      rw [NameMap.mem_filter_iff, NameMap.mem_iff_isSome_get? (m := S), Option.isSome_iff_exists]
      simp
    rw [commonNodes, ih, kept, List.forall_mem_cons, and_assoc]

theorem mem_joinedNodes {ss : List Selector} :
    n ∈ joinedNodes g ss ↔ ∃ s ∈ ss, n ∈ nodes g s := by
  induction ss with
  | nil =>
    refine iff_of_false ?_ (by simp)
    rintro ⟨⟩
  | cons s ss ih =>
    rw [joinedNodes, NameSet.mem_foldl_insert, ih, NameSet.mem_toList, or_comm]
    simp

theorem mem_nodes_both {ss : List Selector} (shown : n ∈ g.visibleNodes true) :
    n ∈ nodes g (both ss) ↔ ∀ s ∈ ss, n ∈ nodes g s := by
  cases ss with
  | nil =>
    rw [nodes, NameSet.mem_ofList]
    simp [shown]
  | cons s ss => rw [nodes, mem_commonNodes, List.forall_mem_cons]

mutual

/-- Whether a selector looks at what is visible. -/
def looks : Selector → Bool
  | name _ | label _ => false
  | pattern _ | not _ | both [] => true
  | both (s :: ss) => looks s || looksAny ss
  | either ss => looksAny ss
  | closure .callers _ | closure .callees _ => true
  | closure .allCallers s | closure .allCallees s => looks s

def looksAny : List Selector → Bool
  | [] => false
  | s :: ss => looks s || looksAny ss

end

mutual

theorem nodes_withVisibility {s : Selector} (h : s.looks = false) (v : Visibility) :
    nodes (g.withVisibility v) s = nodes g s := by
  match s with
  | name n => rfl
  | label l => rfl
  | pattern p => cases h
  | not s => cases h
  | both [] => cases h
  | both (s :: ss) =>
    obtain ⟨first, rest⟩ := Bool.or_eq_false_iff.mp h
    rw [nodes, nodes, nodes_withVisibility first v]
    exact commonNodes_withVisibility rest v
  | either ss =>
    rw [nodes, nodes]
    exact joinedNodes_withVisibility h v
  | closure .callers s => cases h
  | closure .callees s => cases h
  | closure .allCallers s =>
    have inner : s.looks = false := h
    rw [nodes, nodes, nodes_withVisibility inner v]
    rfl
  | closure .allCallees s =>
    have inner : s.looks = false := h
    rw [nodes, nodes, nodes_withVisibility inner v]
    rfl

theorem commonNodes_withVisibility {ss : List Selector} (h : looksAny ss = false) (v : Visibility)
    {S : NameSet} : commonNodes (g.withVisibility v) S ss = commonNodes g S ss := by
  match ss with
  | [] => rfl
  | s :: ss =>
    obtain ⟨first, rest⟩ := Bool.or_eq_false_iff.mp h
    rw [commonNodes, commonNodes, nodes_withVisibility first v]
    exact commonNodes_withVisibility rest v

theorem joinedNodes_withVisibility {ss : List Selector} (h : looksAny ss = false) (v : Visibility) :
    joinedNodes (g.withVisibility v) ss = joinedNodes g ss := by
  match ss with
  | [] => rfl
  | s :: ss =>
    obtain ⟨first, rest⟩ := Bool.or_eq_false_iff.mp h
    rw [joinedNodes, joinedNodes, nodes_withVisibility first v, joinedNodes_withVisibility rest v]

end

end Selector

end CallAtlas
