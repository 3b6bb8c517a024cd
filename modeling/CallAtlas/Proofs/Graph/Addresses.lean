import CallAtlas.Graph.Reach
import CallAtlas.Proofs.Graph.Labels
import CallAtlas.Pattern.Engine
import CallAtlas.Selector.Words
/-!
Nodes by the names under which they are shown. A name that is shown for several nodes stands for one of
them: the last one that took it as its username. Main statement: `Built.actsOn_displayAt`, what is done
with the name that a node is shown under is done to that node if no other node has overtaken it, and to
some node that is shown alike in any case; display names address their nodes if they are all different.
-/
namespace CallAtlas.Graph

variable {g : Graph}

def usernameAt (g : Graph) (i : Nat) : Option String := g.nodes[i]?.bind Node.username

/-- A node took the name under which another one is shown as its username. If the other one has a username
itself, it was defined before. -/
def Overtakes (g : Graph) (j i : Nat) : Prop :=
  g.usernameAt j = some (g.displayAt i) ∧ (g.usernameAt i = none ∨ [j, i].Sublist g.definitions)

/-- What is done with a name is done to this node, and to no other. -/
structure ActsOn (g : Graph) (name : String) (i : Nat) : Prop where
  hide : ∀ externals, ∀ j < g.size,
    (g.hide name).showsAt externals j = (g.showsAt externals j && j != i)
  keep : ∀ externals, ∀ j < g.size, (g.keep name).showsAt externals j =
    (g.showsAt externals j || j == i && (externals || !g.isExternalAt j))
  cutCallers : ∀ refs j, ∀ k < g.size,
    (g.cutCallers name).showsEdgeAt refs j k = (g.showsEdgeAt refs j k && k != i)
  label : ∀ l, ∀ j < g.size,
    g.nameAt j ∈ (g.addLabel name l).labeled l ↔ g.nameAt j ∈ g.labeled l ∨ j = i

theorem find?_eq_some_iff_of_nodup {α : Type} {p : α → Bool} {xs : List α} (nodup : xs.Nodup) {x : α}
    (member : x ∈ xs) (good : p x = true) :
    xs.find? p = some x ↔ ∀ y, p y = true → ¬ [y, x].Sublist xs := by
  induction xs with
  | nil => cases member
  | cons z zs ih =>
    obtain ⟨fresh, nodup⟩ := List.nodup_cons.mp nodup
    by_cases first : p z = true
    · rw [List.find?_cons_of_pos first]
      constructor
      · rintro ⟨⟩ y - before
        rcases List.cons_sublist_cons'.mp before with before | ⟨-, before⟩
        · exact fresh (before.subset (by simp))
        · exact fresh (before.subset (by simp))
      · intro none
        rcases List.mem_cons.mp member with rfl | member
        · rfl
        · exact absurd (List.cons_sublist_cons.mpr (List.singleton_sublist.mpr member)) (none z first)
    · have other : x ≠ z := fun eq => first (eq ▸ good)
      rw [List.find?_cons_of_neg first,
        ih nodup ((List.mem_cons.mp member).resolve_left other)]
      refine forall₂_congr fun y hy => not_congr ?_
      have skipped : y ≠ z := fun eq => first (eq ▸ hy)
      simp [List.cons_sublist_cons', skipped]

theorem displayAt_eq {i : Nat} (lt : i < g.size) :
    g.displayAt i = (g.usernameAt i).getD (g.nameAt i) := by
  rw [displayAt, usernameAt, nameAt, Array.getElem?_eq_getElem lt]
  rfl

theorem displayAt_of_usernameAt {i : Nat} {username : String} (h : g.usernameAt i = some username) :
    g.displayAt i = username := by
  obtain ⟨node, here, own⟩ := Option.bind_eq_some_iff.mp h
  rw [displayAt_eq (Array.getElem?_eq_some_iff.mp here).1, h]
  rfl

theorem usernameAt_of_findUsername? {i : Nat} {username : String}
    (h : g.findUsername? username = some i) : g.usernameAt i = some username := by
  obtain ⟨node, here, own⟩ := getElem?_of_findUsername? h
  rw [usernameAt, here]
  exact own

theorem Consistent.mem_definitions_of_usernameAt (h : g.Consistent) {i : Nat} {username : String}
    (own : g.usernameAt i = some username) : i ∈ g.definitions := by
  obtain ⟨node, here, named⟩ := Option.bind_eq_some_iff.mp own
  refine (h.mem_definitions i).mpr ⟨(Array.getElem?_eq_some_iff.mp here).1, ?_⟩
  rw [isExternalAt_eq here]
  exact Node.isExternal_of_username named

theorem Consistent.findUsername?_eq_none (h : g.Consistent) {username : String} :
    g.findUsername? username = none ↔ ∀ i, g.usernameAt i ≠ some username := by
  rw [findUsername?, List.find?_eq_none]
  simp only [beq_iff_eq]
  exact ⟨fun free i own => free i (h.mem_definitions_of_usernameAt own) own, fun free i _ => free i⟩

theorem not_overtakes_self (nodup : g.definitions.Nodup) (i : Nat) : ¬ g.Overtakes i i := by
  rintro ⟨own, none | twice⟩
  · cases own.symm.trans none
  · exact List.nodup_iff_sublist.mp nodup i twice

/-- The name that a node is shown under stands for that node unless another node has overtaken it. -/
theorem Built.resolve?_displayAt (built : g.Built) {i : Nat} (lt : i < g.size) :
    g.resolve? (g.displayAt i) = some i ↔ ∀ j, ¬ g.Overtakes j i := by
  have wf := built.wellFormed
  have consistent := built.consistent
  -- usernames go first: without one, a node is overtaken by whoever took its name
  cases own : g.usernameAt i with
  | none =>
    have shown : g.displayAt i = g.nameAt i := by
      rw [displayAt_eq lt, own]
      rfl
    have free : g.findUsername? (g.nameAt i) = none ↔ ∀ j, ¬ g.Overtakes j i := by
      simp only [Overtakes, own, shown, true_or, and_true]
      exact consistent.findUsername?_eq_none
    rw [← free, shown, resolve?, wf.find?_nameAt lt]
    cases found : g.findUsername? (g.nameAt i) with
    | none => simp
    | some k =>
      have taken := usernameAt_of_findUsername? found
      have other : k ≠ i := by
        rintro rfl
        cases own.symm.trans taken
      simp [other]
  | some username =>
    have shown := displayAt_of_usernameAt own
    have search := find?_eq_some_iff_of_nodup
      (p := fun j => g.usernameAt j == some username) built.nodup_definitions
      (consistent.mem_definitions_of_usernameAt own) (by simp [own])
    have first : g.findUsername? username = some i ↔ ∀ j, ¬ g.Overtakes j i := by
      simp only [Overtakes, own, shown, reduceCtorEq, false_or, not_and]
      refine search.trans ?_
      simp only [beq_iff_eq]
    rw [← first, shown, resolve?]
    cases found : g.findUsername? username with
    | none => exact absurd own (consistent.findUsername?_eq_none.mp found i)
    | some k => simp

theorem Built.exists_resolve?_displayAt (built : g.Built) {i : Nat} (lt : i < g.size) :
    ∃ j, g.resolve? (g.displayAt i) = some j ∧ g.displayAt j = g.displayAt i := by
  rw [resolve?]
  cases found : g.findUsername? (g.displayAt i) with
  | some j => exact ⟨j, rfl, displayAt_of_usernameAt (usernameAt_of_findUsername? found)⟩
  | none =>
    refine ⟨i, ?_, rfl⟩
    have free := built.consistent.findUsername?_eq_none.mp found i
    cases own : g.usernameAt i with
    | some username => exact absurd (own.trans (by rw [displayAt_of_usernameAt own])) free
    | none =>
      rw [displayAt_eq lt, own]
      exact built.wellFormed.find?_nameAt lt

/-- Display names address their nodes if no two nodes are shown alike. -/
theorem Built.addressed_iff (built : g.Built) :
    g.Addressed ↔ ((List.range g.size).map g.displayAt).Nodup := by
  rw [List.nodup_map_iff_inj_on List.nodup_range]
  simp only [List.mem_range]
  constructor
  · intro addressed i hi j hj alike
    have first := addressed i hi
    rw [alike, addressed j hj] at first
    exact (Option.some.inj first).symm
  · intro distinct i lt
    rw [built.resolve?_displayAt lt]
    intro j overtaken
    obtain ⟨node, here, -⟩ := Option.bind_eq_some_iff.mp overtaken.1
    have same : j = i := distinct j (Array.getElem?_eq_some_iff.mp here).1 i lt
      (displayAt_of_usernameAt overtaken.1)
    rw [same] at overtaken
    exact not_overtakes_self built.nodup_definitions i overtaken

theorem shows_hide (v : Visibility) (name other : String) :
    (v.hide name).shows other = (v.shows other && other != name) := by
  simp only [Visibility.shows, Visibility.hide, NameSet.mem_erase, NameSet.mem_insert]
  by_cases same : other = name
  · simp [same]
  · simp [same]

theorem shows_keep (v : Visibility) (name other : String) :
    (v.keep name).shows other = (v.shows other || other == name) := by
  simp only [Visibility.shows, Visibility.keep, NameSet.mem_erase, NameSet.mem_insert]
  by_cases same : other = name
  · simp [same]
  · simp [same]

theorem showsAt_eq (externals : Bool) {i : Nat} (lt : i < g.size) : g.showsAt externals i =
    ((externals || !g.isExternalAt i) && g.visibility.shows (g.nameAt i)) := by
  rw [showsAt, isExternalAt, nameAt, Array.getElem?_eq_getElem lt]
  rfl

theorem cuts_foldl_hideIfAlone (g : Graph) (is : List Nat) (caller callee : String) :
    (is.foldl hideIfAlone g).visibility.cuts caller callee = g.visibility.cuts caller callee := by
  induction is generalizing g with
  | nil => rfl
  | cons i is ih =>
    rw [List.foldl_cons, ih, hideIfAlone]
    split <;> rfl

theorem cuts_cutCallers (g : Graph) (name caller callee : String) :
    (g.cutCallers name).visibility.cuts caller callee =
      (g.visibility.cuts caller callee || callee == g.canonical name) := by
  have cut : Visibility.cuts { g.visibility with
      cutCallers := NameSet.insert g.visibility.cutCallers (g.canonical name) } caller callee =
      (g.visibility.cuts caller callee || callee == g.canonical name) := by
    rw [Bool.eq_iff_iff]
    simp only [Visibility.cuts, decide_eq_true_eq, Bool.or_eq_true, beq_iff_eq, NameSet.mem_insert]
    tauto
  unfold Graph.cutCallers
  dsimp only
  split
  · exact cut
  · rw [cuts_foldl_hideIfAlone]
    exact cut

theorem showsEdgeAt_of_cuts (refs : Bool) {v : Visibility} {j k : Nat} {cut : Bool}
    (h : v.cuts (g.nameAt j) (g.nameAt k) = (g.visibility.cuts (g.nameAt j) (g.nameAt k) || cut)) :
    showsEdgeAt { g with visibility := v } refs j k = (g.showsEdgeAt refs j k && !cut) := by
  have joined : edge? { g with visibility := v } j k = g.edge? j k := rfl
  rw [showsEdgeAt, showsEdgeAt, joined]
  cases g.edge? j k with
  | none => rfl
  | some kind =>
    show (!v.cuts (g.nameAt j) (g.nameAt k) && (kind == .call || (refs && !g.isExternalAt k))) = _
    rw [h, Bool.not_or, Bool.and_right_comm]

theorem WellFormed.actsOn (h : g.WellFormed) {name : String} {i : Nat}
    (found : g.resolve? name = some i) : g.ActsOn name i := by
  have canonical : g.canonical name = g.nameAt i := by
    rw [Graph.canonical, found]
    rfl
  have own {j : Nat} (lt : j < g.size) : g.nameAt j = g.nameAt i ↔ j = i :=
    ⟨h.nameAt_inj lt (lt_size_of_resolve? found), fun eq => eq ▸ rfl⟩
  have tested {j : Nat} (lt : j < g.size) : (g.nameAt j == g.nameAt i) = (j == i) := by
    rw [Bool.eq_iff_iff, beq_iff_eq, beq_iff_eq, own lt]
  refine ⟨fun externals j lt => ?_, fun externals j lt => ?_, fun refs j k lt => ?_,
    fun l j lt => ?_⟩
  · have after : (g.hide name).showsAt externals j =
        ((externals || !g.isExternalAt j) && (g.visibility.hide (g.canonical name)).shows (g.nameAt j)) :=
      showsAt_eq externals (g := g.hide name) lt
    rw [after, shows_hide, canonical, bne, tested lt, showsAt_eq externals lt, Bool.and_assoc]
    rfl
  · have after : (g.keep name).showsAt externals j =
        ((externals || !g.isExternalAt j) && (g.visibility.keep (g.canonical name)).shows (g.nameAt j)) :=
      showsAt_eq externals (g := g.keep name) lt
    rw [after, shows_keep, canonical, tested lt, showsAt_eq externals lt, Bool.and_or_distrib_left,
      Bool.and_comm (j == i)]
  · obtain ⟨v, eq⟩ := g.exists_visibility_cutCallers name
    have cut := g.cuts_cutCallers name (g.nameAt j) (g.nameAt k)
    rw [eq, canonical, tested lt] at cut
    rw [eq]
    exact showsEdgeAt_of_cuts refs cut
  · rw [mem_labeled_addLabel, canonical, own lt]
    simp

theorem ActsOn.unique {name : String} {i j : Nat} (first : g.ActsOn name i) (second : g.ActsOn name j)
    (lt : i < g.size) : i = j := by
  by_contra other
  have hidden := first.hide true i lt
  have kept := first.keep true i lt
  rw [second.hide true i lt] at hidden
  rw [second.keep true i lt] at kept
  cases shown : g.showsAt true i <;> simp [shown, other] at hidden kept

/-- Display names address their nodes if they are all different. One of them acts on its own node if no
other node has overtaken that, and on one that is shown alike in any case. -/
theorem Built.actsOn_displayAt (built : g.Built) :
    (g.Addressed ↔ ((List.range g.size).map g.displayAt).Nodup) ∧
      ∀ i < g.size, (g.resolve? (g.displayAt i) = some i ↔ ∀ j, ¬ g.Overtakes j i) ∧
        (g.ActsOn (g.displayAt i) i ↔ ∀ j, ¬ g.Overtakes j i) ∧
        ∃ j < g.size, g.displayAt j = g.displayAt i ∧ g.ActsOn (g.displayAt i) j := by
  refine ⟨built.addressed_iff, fun i lt => ?_⟩
  obtain ⟨j, found, alike⟩ := built.exists_resolve?_displayAt lt
  have acts := built.wellFormed.actsOn found
  refine ⟨built.resolve?_displayAt lt, ?_, j, lt_size_of_resolve? found, alike, acts⟩
  rw [← built.resolve?_displayAt lt]
  constructor
  · intro own
    rw [found, own.unique acts lt]
  · intro stands
    exact built.wellFormed.actsOn stands

def namesakes : Graph := ofHistory
  [.add (.define "a" ⟨some "u", none, none⟩), .add (.define "b" ⟨some "u", none, none⟩),
    .add (.define "x" {}), .add (.edge "a" "x" .call)]

theorem actsOn_displayAt_namesakes : namesakes.Built ∧ 1 < namesakes.size ∧
    ¬ namesakes.Addressed ∧ namesakes.ActsOn (namesakes.displayAt 1) 1 ∧
      ∃ j < namesakes.size, namesakes.ActsOn (namesakes.displayAt 0) j := by
  have built : namesakes.Built := ⟨_, rfl⟩
  have lt : 1 < namesakes.size := by with_unfolding_all decide
  obtain ⟨addressed, each⟩ := built.actsOn_displayAt
  obtain ⟨stands, acts, -⟩ := each 1 lt
  obtain ⟨-, -, j, hj, -, other⟩ := each 0 (by omega)
  refine ⟨built, lt, ?_, ?_, j, hj, other⟩
  · rw [addressed]
    with_unfolding_all decide
  · exact acts.mpr (stands.mp (by with_unfolding_all decide))

/-- The words select the first of two namesakes, and the second one is hidden. -/
theorem namesake_hidden_instead : namesakes.Built ∧
    namesakes.resolve? (namesakes.displayAt 0) = some 1 ∧
    Selector.select namesakes ["a"] = .ok [namesakes.displayAt 0] ∧
    (namesakes.hideAll {} [namesakes.displayAt 0]).showsAt true 0 = true ∧
    (namesakes.hideAll {} [namesakes.displayAt 0]).showsAt true 1 = false ∧
    (namesakes.hideAll {} [namesakes.displayAt 0]).callers false "x" = ["u"] := by
  have words : Selector.ofWords namesakes ["a"] = .ok (.either [.name "a"]) :=
    if_pos (by with_unfolding_all decide)
  have picked : (Selector.nodes namesakes (.either [.name "a"])).toList = [namesakes.displayAt 0] := by
    with_unfolding_all decide
  refine ⟨⟨_, rfl⟩, ?_, ?_, ?_, ?_, ?_⟩
  · with_unfolding_all decide
  · rw [Selector.select, words, ← picked]
    rfl
  all_goals with_unfolding_all decide

end CallAtlas.Graph
