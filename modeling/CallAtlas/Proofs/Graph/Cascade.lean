import CallAtlas.Proofs.Graph.Addresses
import CallAtlas.Proofs.Graph.Paths
import CallAtlas.Proofs.Graph.Reach
/-!
What cutting edges hides. A cut checks nodes one after the other while the checks themselves hide nodes; but
a node that is hidden has no edge left to a visible one, so no check disturbs another. Main statements:
`WellFormed.pruned_foldl_cut`, after any cuts exactly those of the checked nodes are gone that have no
visible edge to or from a node that was visible before, `WellFormed.foldl_cut_of_mem_iff`, the order of the
cuts and their repetitions do not matter, and `WellFormed.keepsJoined_cuts`, what a single cut leaves in view
in terms of what was visible before it.
-/
namespace CallAtlas.Graph

inductive Cut where
  | callers (name : String)
  | callees (name : String)
deriving DecidableEq, Repr

def cut (g : Graph) : Cut → Graph
  | .callers name => g.cutCallers name
  | .callees name => g.cutCallees name

def mark (g : Graph) : Cut → Graph
  | .callers name => { g with visibility :=
      { g.visibility with cutCallers := NameSet.insert g.visibility.cutCallers (g.canonical name) } }
  | .callees name => { g with visibility :=
      { g.visibility with cutCallees := NameSet.insert g.visibility.cutCallees (g.canonical name) } }

/-- The nodes that a cut checks: the one that the name stands for, and those on the other end of the edges. -/
def checked (g : Graph) : Cut → List Nat
  | .callers name => (g.resolve? name).toList.flatMap fun i => i :: g.callersAt i
  | .callees name => (g.resolve? name).toList.flatMap fun i => i :: g.calleesAt i

def severs (g : Graph) (caller callee : Nat) : Cut → Bool
  | .callers name => g.nameAt callee == g.canonical name
  | .callees name => g.nameAt caller == g.canonical name

def Meets (g : Graph) (i j : Nat) : Prop :=
  g.showsEdgeAt true i j = true ∨ g.showsEdgeAt true j i = true

/-- Edges have gone, but none of a node that was not checked; and of the visible nodes those have gone that
were checked and are left without a visible edge to or from a node that was visible before. -/
structure Pruned (g g' : Graph) (checked : List Nat) : Prop where
  same : ∃ v, g' = { g with visibility := v }
  shows : ∀ i, g'.showsAt true i = true ↔ g.showsAt true i = true ∧
    (i ∈ checked → ∃ j, g.showsAt true j = true ∧ g'.Meets i j)
  meets_of : ∀ i j, g'.Meets i j → g.Meets i j
  meets : ∀ i j, i ∉ checked → g.Meets i j → g'.Meets i j

/-- The visible edges are those that are left. Of the nodes near a cut those stay in view that such an edge
joins with a node that was visible before, nothing happens to the others, and no edge that is left loses one
of its ends. -/
structure KeepsJoined (g g' : Graph) (near : Nat → Prop) (left : Nat → Nat → Prop) : Prop where
  edges : ∀ i j, g'.showsEdgeAt true i j = true ↔ left i j
  shows : ∀ i, g'.showsAt true i = true ↔ g.showsAt true i = true ∧
    (¬ near i ∨ ∃ j, g.showsAt true j = true ∧ (left j i ∨ left i j))
  others : ∀ i, ¬ near i → g'.showsAt true i = g.showsAt true i
  ends : ∀ i j, left i j → g.showsAt true i = true → g.showsAt true j = true →
    g'.showsAt true i = true ∧ g'.showsAt true j = true

/-- The same nodes and edges are visible, whatever is looked at. -/
structure ShowsLike (g g' : Graph) : Prop where
  visibleNodes : ∀ externals, g.visibleNodes externals = g'.visibleNodes externals
  nodes : ∀ externals i, g.showsAt externals i = g'.showsAt externals i
  edges : ∀ refs i j, g.showsEdgeAt refs i j = g'.showsEdgeAt refs i j

variable {g g' g'' : Graph}

theorem Meets.symm {i j : Nat} (h : g.Meets i j) : g.Meets j i := Or.symm h

theorem isJoinedAt_iff {i : Nat} :
    g.isJoinedAt i = true ↔ ∃ j, g.showsAt true j = true ∧ g.Meets i j := by
  simp only [isJoinedAt, Bool.or_eq_true, List.any_eq_true, Bool.and_eq_true]
  constructor
  · rintro (⟨j, -, shown, edge⟩ | ⟨j, -, shown, edge⟩)
    · exact ⟨j, shown, .inr edge⟩
    · exact ⟨j, shown, .inl edge⟩
  · rintro ⟨j, shown, edge | edge⟩
    · exact .inr ⟨j, mem_calleesAt_of_showsEdgeAt edge, shown, edge⟩
    · exact .inl ⟨j, mem_callersAt_iff.mpr (mem_calleesAt_of_showsEdgeAt edge), shown, edge⟩

namespace Pruned

theorem refl (g : Graph) : g.Pruned g [] :=
  ⟨⟨_, rfl⟩, by simp, fun _ _ => id, fun _ _ _ => id⟩

theorem trans {is js : List Nat} (h : g.Pruned g' is) (h' : g'.Pruned g'' js) :
    g.Pruned g'' (is ++ js) := by
  refine ⟨?_, fun i => ?_, fun i j m => h.meets_of i j (h'.meets_of i j m), fun i j out m => ?_⟩
  · obtain ⟨v, rfl⟩ := h.same
    obtain ⟨v', rfl⟩ := h'.same
    exact ⟨v', rfl⟩
  · rw [h'.shows, h.shows, List.mem_append]
    constructor
    · rintro ⟨⟨shown, first⟩, second⟩
      refine ⟨shown, fun hi => ?_⟩
      by_cases late : i ∈ js
      · obtain ⟨j, hj, m⟩ := second late
        exact ⟨j, ((h.shows j).mp hj).1, m⟩
      · obtain ⟨j, hj, m⟩ := first (hi.resolve_right late)
        exact ⟨j, hj, h'.meets i j late m⟩
    · rintro ⟨shown, joined⟩
      refine ⟨⟨shown, fun hi => ?_⟩, fun hi => ?_⟩
      · obtain ⟨j, hj, m⟩ := joined (.inl hi)
        exact ⟨j, hj, h'.meets_of i j m⟩
      · -- the neighbour that is left stays in view: the edge that joins them is its own, too
        obtain ⟨j, hj, m⟩ := joined (.inr hi)
        exact ⟨j, (h.shows j).mpr ⟨hj, fun _ => ⟨i, shown, (h'.meets_of i j m).symm⟩⟩, m⟩
  · rw [List.mem_append, not_or] at out
    exact h'.meets i j out.2 (h.meets i j out.1 m)

theorem showsAt_eq {is : List Nat} (h : g.Pruned g' is) (externals : Bool) (i : Nat) :
    g'.showsAt externals i = (g'.showsAt true i && (externals || !g.isExternalAt i)) := by
  obtain ⟨v, rfl⟩ := h.same
  unfold showsAt isExternalAt
  dsimp only
  cases g.nodes[i]? with
  | none => rfl
  | some node => simp [Bool.and_comm]

theorem visibleNodes_eq {is : List Nat} (h : g.Pruned g' is) (externals : Bool) :
    g'.visibleNodes externals =
      ((List.range g.size).filter (g'.showsAt externals)).map g.displayAt := by
  obtain ⟨v, rfl⟩ := h.same
  rfl

theorem showsLike {is js : List Nat} (h : g.Pruned g' is) (h' : g.Pruned g'' js)
    (checked : ∀ i, i ∈ is ↔ i ∈ js)
    (edges : ∀ refs i j, g'.showsEdgeAt refs i j = g''.showsEdgeAt refs i j) : g'.ShowsLike g'' := by
  have shown (i : Nat) : g'.showsAt true i = g''.showsAt true i := by
    rw [Bool.eq_iff_iff, h.shows, h'.shows]
    simp only [checked, Meets, edges]
  have nodes (externals : Bool) (i : Nat) : g'.showsAt externals i = g''.showsAt externals i := by
    rw [h.showsAt_eq, h'.showsAt_eq, shown]
  refine ⟨fun externals => ?_, nodes, edges⟩
  rw [h.visibleNodes_eq, h'.visibleNodes_eq, funext (nodes externals)]

end Pruned

theorem WellFormed.showsAt_hideAt (h : g.WellFormed) {i : Nat} (lt : i < g.size) (externals : Bool)
    (j : Nat) : showsAt { g with visibility := g.visibility.hide (g.nameAt i) } externals j = true ↔
      g.showsAt externals j = true ∧ j ≠ i := by
  by_cases inside : j < g.size
  · have after : showsAt { g with visibility := g.visibility.hide (g.nameAt i) } externals j =
        ((externals || !g.isExternalAt j) && (g.visibility.hide (g.nameAt i)).shows (g.nameAt j)) :=
      showsAt_eq externals (g := { g with visibility := g.visibility.hide (g.nameAt i) }) inside
    have other : g.nameAt j ≠ g.nameAt i ↔ j ≠ i :=
      not_congr ⟨h.nameAt_inj inside lt, fun eq => eq ▸ rfl⟩
    rw [after, shows_hide, showsAt_eq externals inside, ← Bool.and_assoc, Bool.and_eq_true, bne_iff_ne,
      other]
  · refine iff_of_false (fun shown => inside ?_) (fun shown => inside (lt_size_of_showsAt shown.1))
    exact lt_size_of_showsAt (g := { g with visibility := g.visibility.hide (g.nameAt i) }) shown

theorem WellFormed.pruned_hideIfAlone (h : g.WellFormed) {i : Nat} (lt : i < g.size) :
    g.Pruned (g.hideIfAlone i) [i] := by
  rw [hideIfAlone]
  split
  · rename_i joined
    refine ⟨⟨_, rfl⟩, fun j => (and_iff_left ?_).symm, fun _ _ => id, fun _ _ _ => id⟩
    intro hj
    rw [List.mem_singleton.mp hj]
    exact isJoinedAt_iff.mp joined
  · rename_i alone
    refine ⟨⟨_, rfl⟩, fun j => ?_, fun _ _ => id, fun _ _ _ => id⟩
    rw [h.showsAt_hideAt lt, List.mem_singleton]
    refine and_congr_right fun _ => ⟨fun other same => absurd same other, fun joined same => ?_⟩
    rw [same] at joined
    exact alone (isJoinedAt_iff.mpr (joined rfl))

theorem WellFormed.pruned_foldl_hideIfAlone (h : g.WellFormed) {is : List Nat}
    (range : ∀ i ∈ is, i < g.size) : g.Pruned (is.foldl hideIfAlone g) is := by
  induction is generalizing g with
  | nil => exact .refl g
  | cons i is ih =>
    obtain ⟨first, rest⟩ := List.forall_mem_cons.mp range
    have one := h.pruned_hideIfAlone first
    obtain ⟨v, same⟩ := one.same
    have others : (g.hideIfAlone i).Pruned (is.foldl hideIfAlone (g.hideIfAlone i)) is := by
      rw [same]
      exact ih (h.of_eq rfl rfl) rest
    exact one.trans others

theorem cut_eq (g : Graph) (c : Cut) : g.cut c = (g.checked c).foldl hideIfAlone (g.mark c) := by
  cases c with
  | callers name =>
    rw [cut, cutCallers, checked]
    cases g.resolve? name with
    | none => rfl
    | some i => exact congrArg (List.foldl _ _) (List.append_nil _).symm
  | callees name =>
    rw [cut, cutCallees, checked]
    cases g.resolve? name with
    | none => rfl
    | some i => exact congrArg (List.foldl _ _) (List.append_nil _).symm

theorem exists_visibility_cut (g : Graph) (c : Cut) : ∃ v, g.cut c = { g with visibility := v } := by
  cases c with
  | callers name => exact g.exists_visibility_cutCallers name
  | callees name => exact g.exists_visibility_cutCallees name

theorem showsAt_mark (g : Graph) (c : Cut) (externals : Bool) (i : Nat) :
    (g.mark c).showsAt externals i = g.showsAt externals i := by
  cases c <;> rfl

theorem cuts_mark (g : Graph) (c : Cut) (i j : Nat) :
    (g.mark c).visibility.cuts (g.nameAt i) (g.nameAt j) =
      (g.visibility.cuts (g.nameAt i) (g.nameAt j) || g.severs i j c) := by
  rw [Bool.eq_iff_iff]
  cases c with
  | callers name | callees name =>
    simp only [mark, severs, Visibility.cuts, decide_eq_true_eq, Bool.or_eq_true, beq_iff_eq,
      NameSet.mem_insert]
    tauto

theorem showsEdgeAt_mark (g : Graph) (c : Cut) (refs : Bool) (i j : Nat) :
    (g.mark c).showsEdgeAt refs i j = (g.showsEdgeAt refs i j && !g.severs i j c) := by
  have cut := g.cuts_mark c i j
  cases c <;> exact showsEdgeAt_of_cuts refs cut

theorem showsEdgeAt_foldl_hideIfAlone (g : Graph) (is : List Nat) (refs : Bool) (i j : Nat) :
    (is.foldl hideIfAlone g).showsEdgeAt refs i j = g.showsEdgeAt refs i j := by
  obtain ⟨v, same⟩ := g.exists_visibility_foldl_hideIfAlone is
  have cuts := g.cuts_foldl_hideIfAlone is (g.nameAt i) (g.nameAt j)
  rw [same] at cuts ⊢
  exact (showsEdgeAt_of_cuts refs (cuts.trans (Bool.or_false _).symm)).trans (Bool.and_true _)

theorem showsEdgeAt_cut (g : Graph) (c : Cut) (refs : Bool) (i j : Nat) :
    (g.cut c).showsEdgeAt refs i j = (g.showsEdgeAt refs i j && !g.severs i j c) := by
  rw [cut_eq, showsEdgeAt_foldl_hideIfAlone, showsEdgeAt_mark]

theorem WellFormed.lt_size_of_mem_checked (h : g.WellFormed) {c : Cut} {i : Nat}
    (hi : i ∈ g.checked c) : i < g.size := by
  cases c with
  | callers name =>
    obtain ⟨j, found, hi⟩ := List.mem_flatMap.mp hi
    rcases List.mem_cons.mp hi with rfl | hi
    · exact lt_size_of_resolve? (Option.mem_toList.mp found)
    · exact h.lt_size_of_mem_callersAt hi
  | callees name =>
    obtain ⟨j, found, hi⟩ := List.mem_flatMap.mp hi
    rcases List.mem_cons.mp hi with rfl | hi
    · exact lt_size_of_resolve? (Option.mem_toList.mp found)
    · exact h.lt_size_of_mem_calleesAt hi

theorem WellFormed.mem_checked_of_severs (h : g.WellFormed) {c : Cut} {refs : Bool} {i j : Nat}
    (edge : g.showsEdgeAt refs i j = true) (severed : g.severs i j c = true) :
    i ∈ g.checked c ∧ j ∈ g.checked c := by
  have callee := mem_calleesAt_of_showsEdgeAt edge
  obtain ⟨e, he, rfl, rfl⟩ := mem_calleesAt.mp callee
  have inside := h.edges_lt e he
  cases c with
  | callers name =>
    have found := (h.canonical_eq_nameAt inside.2).mp (beq_iff_eq.mp severed).symm
    rw [checked, found]
    simp [mem_callersAt_iff.mpr callee]
  | callees name =>
    have found := (h.canonical_eq_nameAt inside.1).mp (beq_iff_eq.mp severed).symm
    rw [checked, found]
    simp [callee]

/-- Of the nodes that a cut checks, those disappear that are left alone. -/
theorem WellFormed.pruned_cut (h : g.WellFormed) (c : Cut) : g.Pruned (g.cut c) (g.checked c) := by
  have marked : (g.mark c).WellFormed := by cases c <;> exact h.of_eq rfl rfl
  have size : (g.mark c).size = g.size := by cases c <;> rfl
  have checks : (g.mark c).Pruned (g.cut c) (g.checked c) := by
    rw [cut_eq]
    exact marked.pruned_foldl_hideIfAlone fun i hi => size ▸ h.lt_size_of_mem_checked hi
  have after (i j : Nat) : (g.cut c).Meets i j ↔
      (g.showsEdgeAt true i j = true ∧ g.severs i j c = false) ∨
        (g.showsEdgeAt true j i = true ∧ g.severs j i c = false) := by
    simp only [Meets, showsEdgeAt_cut, Bool.and_eq_true, Bool.not_eq_true']
  refine ⟨g.exists_visibility_cut c, fun i => ?_, fun i j m => ?_, fun i j out m => ?_⟩
  · simpa only [showsAt_mark] using checks.shows i
  · exact ((after i j).mp m).imp And.left And.left
  · rw [after]
    refine m.imp (fun edge => ⟨edge, ?_⟩) (fun edge => ⟨edge, ?_⟩)
    · exact Bool.eq_false_iff.mpr fun severed => out (h.mem_checked_of_severs edge severed).1
    · exact Bool.eq_false_iff.mpr fun severed => out (h.mem_checked_of_severs edge severed).2

theorem exists_visibility_foldl_cut (g : Graph) (cs : List Cut) :
    ∃ v, cs.foldl cut g = { g with visibility := v } := by
  induction cs generalizing g with
  | nil => exact ⟨_, rfl⟩
  | cons c cs ih =>
    obtain ⟨v, same⟩ := g.exists_visibility_cut c
    rw [List.foldl_cons, same]
    exact ih { g with visibility := v }

theorem WellFormed.pruned_foldl_cut (h : g.WellFormed) (cs : List Cut) :
    g.Pruned (cs.foldl cut g) (cs.flatMap g.checked) := by
  induction cs generalizing g with
  | nil => exact .refl g
  | cons c cs ih =>
    refine (h.pruned_cut c).trans ?_
    obtain ⟨v, same⟩ := g.exists_visibility_cut c
    rw [List.foldl_cons, same]
    have rest := ih (g := { g with visibility := v }) (h.of_eq rfl rfl)
    have unmoved : checked { g with visibility := v } = g.checked := by
      funext c
      cases c <;> rfl
    rwa [unmoved] at rest

theorem showsEdgeAt_foldl_cut (g : Graph) (cs : List Cut) (refs : Bool) (i j : Nat) :
    (cs.foldl cut g).showsEdgeAt refs i j = (g.showsEdgeAt refs i j && !cs.any (g.severs i j)) := by
  induction cs generalizing g with
  | nil => simp
  | cons c cs ih =>
    obtain ⟨v, same⟩ := g.exists_visibility_cut c
    have unmoved : severs (g.cut c) i j = g.severs i j := by
      rw [same]
      funext c
      cases c <;> rfl
    rw [List.foldl_cons, ih, unmoved, showsEdgeAt_cut, List.any_cons, Bool.not_or, Bool.and_assoc]

theorem showsEdgeAt_foldl_cut_of_mem_iff {cs ds : List Cut} (same : ∀ c, c ∈ cs ↔ c ∈ ds) (refs : Bool)
    (i j : Nat) : (cs.foldl cut g).showsEdgeAt refs i j = (ds.foldl cut g).showsEdgeAt refs i j := by
  have severed : cs.any (g.severs i j) = ds.any (g.severs i j) := by
    rw [Bool.eq_iff_iff, List.any_eq_true, List.any_eq_true]
    simp only [same]
  rw [showsEdgeAt_foldl_cut, showsEdgeAt_foldl_cut, severed]

/-- Cuts can be made in any order and any number of times: the same nodes and edges stay in view. -/
theorem WellFormed.foldl_cut_of_mem_iff (h : g.WellFormed) {cs ds : List Cut}
    (same : ∀ c, c ∈ cs ↔ c ∈ ds) : (cs.foldl cut g).ShowsLike (ds.foldl cut g) := by
  have checked (i : Nat) : i ∈ cs.flatMap g.checked ↔ i ∈ ds.flatMap g.checked := by
    simp only [List.mem_flatMap, same]
  exact (h.pruned_foldl_cut cs).showsLike (h.pruned_foldl_cut ds) checked
    (showsEdgeAt_foldl_cut_of_mem_iff same)

def carousel : Graph := ofHistory
  [.add (.define "a" {}), .add (.define "b" ⟨some "u", none, none⟩), .add (.define "c" {}),
    .add (.edge "a" "b" .call), .add (.edge "b" "a" .call), .add (.edge "a" "c" .call),
    .add (.edge "c" "c" .ref)]

theorem showsLike_carousel : carousel.WellFormed ∧
    (∀ c, c ∈ [Cut.callers "u", .callees "a", .callers "a"] ↔
        c ∈ [Cut.callers "a", .callers "u", .callees "a", .callers "u"]) ∧
      ([Cut.callers "u", .callees "a", .callers "a"].foldl cut carousel).ShowsLike
        ([Cut.callers "a", .callers "u", .callees "a", .callers "u"].foldl cut carousel) ∧
      ([Cut.callers "u", .callees "a", .callers "a"].foldl cut carousel).visibleNodes true = ["c"] := by
  have wf : carousel.WellFormed := Built.wellFormed ⟨_, rfl⟩
  have same : ∀ c, c ∈ [Cut.callers "u", .callees "a", .callers "a"] ↔
      c ∈ [Cut.callers "a", .callers "u", .callees "a", .callers "u"] := by
    simp only [List.mem_cons, List.not_mem_nil, or_false]
    tauto
  exact ⟨wf, same, wf.foldl_cut_of_mem_iff same, by with_unfolding_all decide⟩

def cutsOf (g : Graph) (reach : Reach) (name : String) : List Cut :=
  (g.reachedCallers reach name).map .callers ++ (g.reachedCallees reach name).map .callees

theorem hideReach_eq_foldl_cut (g : Graph) {reach : Reach}
    (asked : (reach.callers || reach.callees) = true) (name : String) :
    hideReach reach g name = (g.cutsOf reach name).foldl cut g := by
  rw [hideReach, if_pos asked, cutsOf, List.foldl_append, List.foldl_map, List.foldl_map]
  rfl

theorem hideAll_eq_foldl_cut (g : Graph) {reach : Reach}
    (asked : (reach.callers || reach.callees) = true) (names : List String) :
    g.hideAll reach names = (names.flatMap (g.cutsOf reach)).foldl cut g := by
  rw [hideAll]
  induction names generalizing g with
  | nil => rfl
  | cons name names ih =>
    obtain ⟨v, same⟩ := g.exists_visibility_foldl_cut (g.cutsOf reach name)
    rw [List.foldl_cons, List.flatMap_cons, List.foldl_append, hideReach_eq_foldl_cut g asked, same]
    exact ih { g with visibility := v }

theorem WellFormed.hideAll_of_mem_iff (h : g.WellFormed) {reach : Reach}
    (asked : (reach.callers || reach.callees) = true) {names others : List String}
    (same : ∀ name, name ∈ names ↔ name ∈ others) :
    (g.hideAll reach names).ShowsLike (g.hideAll reach others) := by
  have cuts (c : Cut) : c ∈ names.flatMap (g.cutsOf reach) ↔ c ∈ others.flatMap (g.cutsOf reach) := by
    simp only [List.mem_flatMap, same]
  rw [hideAll_eq_foldl_cut g asked, hideAll_eq_foldl_cut g asked]
  refine (h.pruned_foldl_cut _).showsLike (h.pruned_foldl_cut _) (fun i => ?_)
    (showsEdgeAt_foldl_cut_of_mem_iff cuts)
  rw [List.mem_flatMap, List.mem_flatMap]
  simp only [cuts]

theorem WellFormed.keepsJoined_cut (h : g.WellFormed) (c : Cut) {near : Nat → Prop}
    {left : Nat → Nat → Prop} (checked : ∀ i, near i ↔ i ∈ g.checked c)
    (edges : ∀ i j, (g.cut c).showsEdgeAt true i j = true ↔ left i j) :
    g.KeepsJoined (g.cut c) near left := by
  have shows (i : Nat) : (g.cut c).showsAt true i = true ↔ g.showsAt true i = true ∧
      (¬ near i ∨ ∃ j, g.showsAt true j = true ∧ (left j i ∨ left i j)) := by
    rw [(h.pruned_cut c).shows, checked, ← imp_iff_not_or]
    simp only [Meets, edges, or_comm]
  refine ⟨edges, shows, fun i away => ?_, fun i j edge hi hj => ⟨?_, ?_⟩⟩
  · rw [Bool.eq_iff_iff, shows]
    exact and_iff_left (.inl away)
  · exact (shows i).mpr ⟨hi, .inr ⟨j, hj, .inr edge⟩⟩
  · exact (shows j).mpr ⟨hj, .inr ⟨i, hi, .inl edge⟩⟩

theorem WellFormed.nameAt_beq_canonical (h : g.WellFormed) {name : String} {i j : Nat}
    (found : g.resolve? name = some i) (lt : j < g.size) :
    (g.nameAt j == g.canonical name) = true ↔ j = i := by
  rw [beq_iff_eq, eq_comm, h.canonical_eq_nameAt lt, found, Option.some_inj, eq_comm]

/-- A node, its callers and its callees stay in view if they have an edge left that joins them with a node
that was visible: after a cut of the edges into the node, and after one of the edges out of it. -/
theorem WellFormed.keepsJoined_cuts (h : g.WellFormed) {name : String} {n : Nat}
    (found : g.resolve? name = some n) :
    g.KeepsJoined (g.cutCallers name) (fun i => i = n ∨ i ∈ g.callersAt n)
        (fun i j => g.showsEdgeAt true i j = true ∧ j ≠ n) ∧
      g.KeepsJoined (g.cutCallees name) (fun i => i = n ∨ i ∈ g.calleesAt n)
        (fun i j => g.showsEdgeAt true i j = true ∧ i ≠ n) := by
  have inside {i j : Nat} (edge : g.showsEdgeAt true i j = true) : i < g.size ∧ j < g.size := by
    obtain ⟨e, he, rfl, rfl⟩ := mem_calleesAt.mp (mem_calleesAt_of_showsEdgeAt edge)
    exact h.edges_lt e he
  constructor
  · refine h.keepsJoined_cut (.callers name) (fun i => ?_) (fun i j => ?_)
    · simp [checked, found]
    · rw [showsEdgeAt_cut, Bool.and_eq_true, Bool.not_eq_true', ← Bool.not_eq_true]
      exact and_congr_right fun edge => not_congr (h.nameAt_beq_canonical found (inside edge).2)
  · refine h.keepsJoined_cut (.callees name) (fun i => ?_) (fun i j => ?_)
    · simp [checked, found]
    · rw [showsEdgeAt_cut, Bool.and_eq_true, Bool.not_eq_true', ← Bool.not_eq_true]
      exact and_congr_right fun edge => not_congr (h.nameAt_beq_canonical found (inside edge).1)

/-- Only kept nodes are shown. The first one calls itself and is used by two others, of which one calls a
fourth node and the other refers to an external one. -/
def gathering : Graph := ofHistory
  ([.add (.define "a" {}), .add (.define "b" {}), .add (.define "c" {}), .add (.define "d" {}),
      .add (.edge "a" "a" .call), .add (.edge "b" "a" .call), .add (.edge "c" "a" .ref),
      .add (.edge "b" "d" .call), .add (.edge "c" "x" .ref), .setDefault false] ++
    ["a", "b", "c", "d", "x"].map .keep)

theorem keepsJoined_gathering : gathering.WellFormed ∧ gathering.resolve? "a" = some 0 ∧
    gathering.KeepsJoined (gathering.cutCallers "a") (fun i => i = 0 ∨ i ∈ gathering.callersAt 0)
      (fun i j => gathering.showsEdgeAt true i j = true ∧ j ≠ 0) ∧
    gathering.visibleNodes true = ["a", "b", "c", "d", "x"] ∧
    (gathering.cutCallers "a").visibleNodes true = ["b", "d", "x"] := by
  have wf : gathering.WellFormed := Built.wellFormed ⟨_, rfl⟩
  have found : gathering.resolve? "a" = some 0 := by with_unfolding_all decide
  exact ⟨wf, found, (wf.keepsJoined_cuts found).1, by with_unfolding_all decide⟩

end CallAtlas.Graph
