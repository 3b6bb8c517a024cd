import CallAtlas.Proofs.Selector.Normal
import CallAtlas.Proofs.Session.Only
/-!
What is in view when the same words are hidden and then kept. They select again after hiding, when part of
what they selected before may be out of sight for them. Main statement: `keep_after_hide`.
-/
namespace CallAtlas

namespace Graph

variable {g : Graph} {names : List String} {name : String} {i : Nat}

theorem shows_foldl_hide {v : Visibility} : (names.foldl Visibility.hide v).shows name = true ↔
    v.shows name = true ∧ name ∉ names := by
  induction names generalizing v with
  | nil => simp
  | cons other names ih =>
    rw [List.foldl_cons, ih, shows_hide, List.mem_cons, not_or, Bool.and_eq_true, bne_iff_ne, and_assoc]

theorem shows_foldl_keep {v : Visibility} : (names.foldl Visibility.keep v).shows name = true ↔
    v.shows name = true ∨ name ∈ names := by
  induction names generalizing v with
  | nil => simp
  | cons other names ih =>
    rw [List.foldl_cons, ih, shows_keep, List.mem_cons, Bool.or_eq_true, beq_iff_eq, or_assoc]

theorem hideAll_eq (g : Graph) (names : List String) : g.hideAll {} names =
    g.withVisibility ((names.map g.canonical).foldl Visibility.hide g.visibility) := by
  unfold hideAll
  induction names generalizing g with
  | nil => rfl
  | cons name names ih =>
    rw [List.foldl_cons, ih]
    rfl

theorem keepAll_names (g : Graph) (names : List String) : g.keepAll {} names =
    g.withVisibility ((names.map g.canonical).foldl Visibility.keep g.visibility) := by
  have alone : names.flatMap (g.reached {}) = names := List.flatMap_pure_eq_map id names |>.trans names.map_id
  rw [keepAll_eq, alone]
  rfl

theorem WellFormed.withVisibility (h : g.WellFormed) (v : Visibility) :
    (g.withVisibility v).WellFormed := { h with }

theorem Addressed.displayAt_of_resolve? (addressed : g.Addressed) (known : g.Known name)
    (found : g.resolve? name = some i) : g.displayAt i = name := by
  rcases known with ⟨j, lt, rfl⟩ | ⟨l, labeled⟩
  · cases found.symm.trans (addressed j lt)
    rfl
  · obtain ⟨carrier, -, shown⟩ := mem_labeledNodes.mp labeled
    rcases g.shownAs_cases carrier with ⟨missing, same⟩ | ⟨j, node, stands, here, same⟩
    · rw [← shown, same, missing] at found
      cases found
    · have lt := (Array.getElem?_eq_some_iff.mp here).1
      have own : g.displayAt j = name := by
        rw [← shown, same, displayAt, here]
        rfl
      cases found.symm.trans (own ▸ addressed j lt)
      exact own

theorem WellFormed.nameAt_mem_map_canonical (h : g.WellFormed) (addressed : g.Addressed)
    (known : ∀ name ∈ names, g.Known name) (lt : i < g.size) :
    g.nameAt i ∈ names.map g.canonical ↔ g.displayAt i ∈ names := by
  rw [List.mem_map]
  constructor
  · rintro ⟨name, member, stands⟩
    have found := (h.canonical_eq_nameAt lt).mp stands
    rwa [addressed.displayAt_of_resolve? (known name member) found]
  · exact fun member => ⟨_, member, (h.canonical_eq_nameAt lt).mpr (addressed i lt)⟩

theorem WellFormed.showsAt_hideAll (h : g.WellFormed) (addressed : g.Addressed)
    (known : ∀ name ∈ names, g.Known name) (lt : i < g.size) :
    (g.hideAll {} names).showsAt true i = true ↔ g.showsAt true i = true ∧ g.displayAt i ∉ names := by
  rw [hideAll_eq, showsAt_true_iff, showsAt_true_iff, and_assoc]
  refine and_congr_right fun _ => ?_
  rw [← h.nameAt_mem_map_canonical addressed known lt]
  exact shows_foldl_hide

theorem WellFormed.showsAt_keepAll_names (h : g.WellFormed) (addressed : g.Addressed)
    (known : ∀ name ∈ names, g.Known name) (lt : i < g.size) :
    (g.keepAll {} names).showsAt true i = true ↔ g.showsAt true i = true ∨ g.displayAt i ∈ names := by
  rw [keepAll_names, showsAt_true_iff, showsAt_true_iff, and_iff_right lt,
    ← h.nameAt_mem_map_canonical addressed known lt]
  exact (and_iff_right lt).trans shows_foldl_keep

end Graph

namespace Selector

variable {g : Graph} {n : String}

mutual

/-- Whether everything that a selector selects is visible, by its form. -/
def confined : Selector → Bool
  | name _ | label _ => false
  | pattern _ | not _ | both [] => true
  | both (s :: ss) => confined s || confinedAny ss
  | either ss => confinedAll ss
  | closure .callers _ | closure .callees _ => true
  | closure .allCallers _ | closure .allCallees _ => false

def confinedAny : List Selector → Bool
  | [] => false
  | s :: ss => confined s || confinedAny ss

def confinedAll : List Selector → Bool
  | [] => true
  | s :: ss => confined s && confinedAll ss

end

mutual

theorem mem_visibleNodes_of_confined {s : Selector} (h : s.confined = true) (picked : n ∈ nodes g s) :
    n ∈ g.visibleNodes true := by
  match s with
  | name _ => cases h
  | label _ => cases h
  | pattern p => exact (mem_visible.mp picked).1
  | not s => exact (mem_visible.mp picked).1
  | both [] => rwa [nodes, NameSet.mem_ofList] at picked
  | both (s :: ss) =>
    obtain ⟨first, rest⟩ := mem_commonNodes.mp picked
    rcases Bool.or_eq_true_iff.mp h with here | there
    · exact mem_visibleNodes_of_confined here first
    · exact mem_visibleNodes_of_confinedAny there rest
  | either ss => exact mem_visibleNodes_of_confinedAll h (mem_nodes_either.mp picked)
  | closure .callers s =>
    obtain ⟨m, -, led⟩ := mem_nodes_closure.mp picked
    exact Graph.mem_visibleNodes_of_mem_callers led
  | closure .callees s =>
    obtain ⟨m, -, led⟩ := mem_nodes_closure.mp picked
    exact Graph.mem_visibleNodes_of_mem_callees led
  | closure .allCallers s => cases h
  | closure .allCallees s => cases h

theorem mem_visibleNodes_of_confinedAny {ss : List Selector} (h : confinedAny ss = true)
    (picked : ∀ s ∈ ss, n ∈ nodes g s) : n ∈ g.visibleNodes true := by
  match ss with
  | [] => cases h
  | s :: ss =>
    obtain ⟨first, rest⟩ := List.forall_mem_cons.mp picked
    rcases Bool.or_eq_true_iff.mp h with here | there
    · exact mem_visibleNodes_of_confined here first
    · exact mem_visibleNodes_of_confinedAny there rest

theorem mem_visibleNodes_of_confinedAll {ss : List Selector} (h : confinedAll ss = true)
    (picked : ∃ s ∈ ss, n ∈ nodes g s) : n ∈ g.visibleNodes true := by
  match ss with
  | [] => simp at picked
  | s :: ss =>
    obtain ⟨here, there⟩ := Bool.and_eq_true_iff.mp h
    obtain ⟨t, member, picked⟩ := picked
    rcases List.mem_cons.mp member with first | member
    · exact mem_visibleNodes_of_confined here (first ▸ picked)
    · exact mem_visibleNodes_of_confinedAll there ⟨t, member, picked⟩

end

end Selector

namespace Session

theorem executeWith_hide_of_ok {run : FileRunner} {s : Session} {words names : List String}
    (reach : Reach) (h : s.select words = .ok names) :
    s.executeWith run (.hide reach words) = (.ok (), s.withGraph (s.graph.hideAll reach names)) := by
  show s.attempt (s.hide reach words) = _
  rw [hide, h]
  rfl

theorem executeWith_keep_of_ok {run : FileRunner} {s : Session} {words names : List String}
    (reach : Reach) (h : s.select words = .ok names) :
    s.executeWith run (.keep reach words) = (.ok (), s.withGraph (s.graph.keepAll reach names)) := by
  show s.attempt (s.keep reach words) = _
  rw [keep, h]
  rfl

/-- Words that are hidden and then kept: afterwards those nodes are visible that the words still select when
they are hidden, and those that were visible and not selected. So everything that was selected is back
exactly if it is selected again. It is, if the selector does not look at what is visible; nothing of it is,
if the selector can only select visible nodes. -/
theorem keep_after_hide {s : Session} (built : s.graph.Built) (addressed : s.graph.Addressed)
    {words before : List String} (accepted : s.select words = .ok before) :
    ∃ hidden after shown, s.execute (.hide {} words) = (.ok (), s.withGraph hidden) ∧
      (s.withGraph hidden).select words = .ok after ∧
      (s.withGraph hidden).execute (.keep {} words) = (.ok (), s.withGraph shown) ∧
      (∀ i < s.graph.size, shown.showsAt true i = true ↔ s.graph.displayAt i ∈ after ∨
        s.graph.showsAt true i = true ∧ s.graph.displayAt i ∉ before) ∧
      ((∀ i < s.graph.size, s.graph.displayAt i ∈ before → shown.showsAt true i = true) ↔
        ∀ i < s.graph.size, s.graph.displayAt i ∈ before → s.graph.displayAt i ∈ after) ∧
      ∀ selector, Selector.ofWords s.graph words = .ok selector →
        (selector.looks = false → after = before) ∧
        (selector.confined = true →
          ∀ i < s.graph.size, s.graph.displayAt i ∈ before → shown.showsAt true i = false) := by
  obtain ⟨selector, parsed, picked⟩ := select_eq_ok.mp accepted
  obtain ⟨v, moved⟩ : ∃ v, s.graph.hideAll {} before = s.graph.withVisibility v :=
    ⟨_, s.graph.hideAll_eq before⟩
  obtain ⟨after, pickedAgain⟩ : ∃ after, (selector.nodes (s.graph.withVisibility v)).toList = after :=
    ⟨_, rfl⟩
  have again : (s.withGraph (s.graph.withVisibility v)).select words = .ok after :=
    select_eq_ok.mpr ⟨selector, parsed, pickedAgain⟩
  have hidden {i : Nat} (lt : i < s.graph.size) : (s.graph.withVisibility v).showsAt true i = true ↔
      s.graph.showsAt true i = true ∧ s.graph.displayAt i ∉ before := by
    have known : ∀ name ∈ before, s.graph.Known name :=
      picked ▸ fun _ => Selector.known_of_mem_nodes
    rw [← moved]
    exact built.wellFormed.showsAt_hideAll addressed known lt
  have shown {i : Nat} (lt : i < s.graph.size) :
      ((s.graph.withVisibility v).keepAll {} after).showsAt true i = true ↔
        s.graph.displayAt i ∈ after ∨ s.graph.showsAt true i = true ∧ s.graph.displayAt i ∉ before := by
    have known : ∀ name ∈ after, (s.graph.withVisibility v).Known name :=
      pickedAgain ▸ fun _ => Selector.known_of_mem_nodes
    rw [(built.wellFormed.withVisibility v).showsAt_keepAll_names addressed known lt, hidden lt, or_comm]
    rfl
  refine ⟨s.graph.withVisibility v, after, (s.graph.withVisibility v).keepAll {} after, ?_, again,
    executeWith_keep_of_ok {} again, fun i lt => shown lt, ?_, ?_⟩
  · rw [← moved]
    exact executeWith_hide_of_ok {} accepted
  · refine forall₃_congr fun i lt member => ?_
    rw [shown lt]
    exact or_iff_left fun other => other.2 member
  · intro read parsed'
    cases parsed.symm.trans parsed'
    refine ⟨fun plain => ?_, fun confined i lt member => ?_⟩
    · rw [← pickedAgain, ← picked, Selector.nodes_withVisibility plain]
    · rw [Bool.eq_false_iff, ne_eq, shown lt]
      rintro (selected | other)
      · -- what is selected again was visible when everything selected was hidden
        rw [← pickedAgain] at selected
        obtain ⟨j, lt', same, visible⟩ :=
          Graph.mem_visibleNodes.mp (Selector.mem_visibleNodes_of_confined confined selected)
        exact ((hidden lt').mp visible).2 (same ▸ member)
      · exact other.2 member

def shaded : Session :=
  { graph := Graph.ofHistory
      [.add (.define "_Z1fv" ⟨some "f()", none, none⟩), .add (.define "g" {}),
        .add (.edge "g" "ext" .call), .hide "ext"] }

theorem keep_after_hide_shaded : shaded.graph.Built ∧ shaded.graph.Addressed ∧
    shaded.select ["f()", "ext"] = .ok ["ext", "f()"] ∧
      ∃ hidden shown, shaded.execute (.hide {} ["f()", "ext"]) = (.ok (), shaded.withGraph hidden) ∧
        (shaded.withGraph hidden).execute (.keep {} ["f()", "ext"]) = (.ok (), shaded.withGraph shown) ∧
        ∀ i < 3, shown.showsAt true i = true := by
  have built : shaded.graph.Built := ⟨_, rfl⟩
  have size : shaded.graph.size = 3 := by with_unfolding_all decide
  have addressed : shaded.graph.Addressed := by
    unfold Graph.Addressed
    rw [size]
    with_unfolding_all decide
  have words : Selector.ofWords shaded.graph ["f()", "ext"] =
      .ok (.either [.name "f()", .name "ext"]) := if_pos (by with_unfolding_all decide)
  have accepted : shaded.select ["f()", "ext"] = .ok ["ext", "f()"] :=
    select_eq_ok.mpr ⟨_, words, by with_unfolding_all decide⟩
  obtain ⟨hidden, after, shown, hides, -, keeps, each, -, kinds⟩ :=
    keep_after_hide built addressed accepted
  refine ⟨built, addressed, accepted, hidden, shown, hides, keeps, fun i lt => ?_⟩
  rw [each i (size ▸ lt), (kinds _ words).1 rfl]
  revert i
  with_unfolding_all decide

/-- The node that a negation selects is hidden, and the negation does not select it any more. -/
theorem hidden_not_b_stays : couple.graph.Built ∧ couple.graph.Addressed ∧
    couple.select ["!b"] = .ok ["a"] ∧
    couple.execute (.hide {} ["!b"]) = (.ok (), couple.withGraph (couple.graph.hide "a")) ∧
    (couple.withGraph (couple.graph.hide "a")).execute (.keep {} ["!b"]) =
      (.ok (), couple.withGraph (couple.graph.hide "a")) ∧
    "a" ∈ couple.graph.visibleNodes true ∧ (couple.graph.hide "a").visibleNodes true = ["b"] := by
  have again : (couple.withGraph (couple.graph.hide "a")).select ["!b"] = .ok [] :=
    select_eq_ok.mpr ⟨_, ofWords_not_b, by with_unfolding_all decide⟩
  refine ⟨⟨_, rfl⟩, addressed_couple, select_not_b, executeWith_hide_of_ok {} select_not_b,
    executeWith_keep_of_ok {} again, ?_, ?_⟩
  all_goals with_unfolding_all decide

end Session

end CallAtlas
