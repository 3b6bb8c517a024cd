import CallAtlas.Proofs.Graph.Lookup
/-!
Walks with a stack and walks by recursion. The walk through a graph keeps the nodes that are still to be
visited on a stack, where a node may wait several times; the recursive walk visits a node, then with each
successor in turn all that is new below it. Main statements: `walk_eq_preorder`, both list the same nodes in
the same order, and `Built.listsTour_both_ways`.
-/
namespace CallAtlas

variable {next : Nat → List Nat} {n : Nat}

theorem Walk.unseen_union_le (n : Nat) (seen below : IndexSet) :
    unseen n (seen ∪ below) ≤ unseen n seen := by
  refine List.countP_mono_left fun q _ missing => ?_
  simp only [IndexSet.mem_union, not_or, decide_eq_true_eq] at missing ⊢
  exact missing.1

/-- The recursive walk among the indices below `n`: a node that is new, then the walk through its
successors, and after that the walk through its siblings, to which all the nodes below it are known. -/
def preorder (next : Nat → List Nat) (n : Nat) (seen : IndexSet) (siblings : List Nat) : List Nat :=
  match siblings with
  | [] => []
  | q :: rest =>
    if _h : q < n ∧ q ∉ seen then
      let below := preorder next n (seen.insert q) (next q)
      q :: below ++ preorder next n (seen.insert q ∪ .ofList below) rest
    else preorder next n seen rest
termination_by (Walk.unseen n seen, siblings.length)
decreasing_by
  · exact Prod.Lex.left _ _ (Walk.unseen_insert_lt _h.1 _h.2)
  · exact Prod.Lex.left _ _ (Nat.lt_of_le_of_lt (Walk.unseen_union_le ..)
      (Walk.unseen_insert_lt _h.1 _h.2))
  · exact Prod.Lex.right _ (Nat.lt_succ_self _)

theorem walk_append (seen : IndexSet) (above below : List Nat) :
    walk next n seen (above ++ below) = walk next n seen above ++
      walk next n (seen ∪ .ofList (walk next n seen above)) below := by
  fun_induction walk next n seen above with
  | case1 seen =>
    have none : seen ∪ .ofList [] = seen := by
      ext q
      simp
    rw [List.nil_append, List.nil_append, none]
  | case2 seen q rest fresh ih =>
    have known (visited : List Nat) :
        seen ∪ .ofList (q :: visited) = seen.insert q ∪ .ofList visited := by
      ext r
      simp only [IndexSet.mem_union, IndexSet.mem_ofList, IndexSet.mem_insert, List.mem_cons]
      tauto
    rw [List.cons_append, walk, dif_pos fresh, ← List.append_assoc, ih, known]
    rfl
  | case3 seen q rest stale ih =>
    rw [List.cons_append, walk, dif_neg stale]
    exact ih

/-- The stack makes the walk go as the recursion goes. -/
theorem walk_eq_preorder (seen : IndexSet) (pending : List Nat) :
    walk next n seen pending = preorder next n seen pending := by
  fun_induction preorder next n seen pending with
  | case1 seen => rw [walk]
  | case2 seen q rest fresh below ihBelow ihRest =>
    have walked : walk next n (seen.insert q) (next q) = below := ihBelow
    rw [walk, dif_pos fresh, walk_append, walked, ihRest]
    rfl
  | case3 seen q rest stale ih =>
    rw [walk, dif_neg stale]
    exact ih

namespace Graph

variable {g : Graph}

def tour (g : Graph) (next : Nat → List Nat) (x : Nat) : List Nat := preorder next g.size ∅ [x]

/-- The names show the nodes that `next` leads to from `x`, each once and as the recursive walk comes to
them, `x` first. -/
structure ListsTour (g : Graph) (next : Nat → List Nat) (x : Nat) (names : List String) : Prop where
  names_eq : names = (g.tour next x).map g.displayAt
  head?_eq : (g.tour next x).head? = some x
  nodup : (g.tour next x).Nodup
  mem_iff : ∀ {i}, i ∈ g.tour next x ↔ Reaches next x i

theorem tour_eq (g : Graph) (next : Nat → List Nat) (x : Nat) :
    g.tour next x = walk next g.size ∅ [x] := (walk_eq_preorder ∅ [x]).symm

theorem mem_tour (range : ∀ p < g.size, ∀ q ∈ next p, q < g.size) {x i : Nat} (lt : x < g.size) :
    i ∈ g.tour next x ↔ Reaches next x i := by
  rw [tour_eq, mem_walk_empty range (by simpa using lt)]
  simp

theorem listsTour_walk (range : ∀ p < g.size, ∀ q ∈ next p, q < g.size) {name : String} {x : Nat}
    (found : g.resolve? name = some x) :
    g.ListsTour next x ((walk next g.size ∅ (g.resolve? name).toList).map g.displayAt) := by
  have lt := lt_size_of_resolve? found
  constructor
  case names_eq => rw [found, Option.toList_some, tour_eq]
  case head?_eq =>
    have new : x < g.size ∧ x ∉ (∅ : IndexSet) := ⟨lt, IndexSet.not_mem_empty x⟩
    rw [tour_eq, walk, dif_pos new]
    rfl
  case nodup =>
    rw [tour_eq]
    exact nodup_walk ∅ [x]
  case mem_iff => exact mem_tour range lt

/-- All that a symbol leads to and all that leads to it is listed by recursive walks, whatever is visible;
one symbol is in the walk along the edges from another when that one is in the walk back from it. -/
theorem Built.listsTour_both_ways (h : g.Built) {name other : String} {x y : Nat}
    (found : g.resolve? name = some x) (found' : g.resolve? other = some y) :
    g.ListsTour g.calleesAt x (g.allCallees name) ∧ g.ListsTour g.callersAt x (g.allCallers name) ∧
      (y ∈ g.tour g.calleesAt x ↔ x ∈ g.tour g.callersAt y) := by
  have along : ∀ p < g.size, ∀ q ∈ g.calleesAt p, q < g.size := fun _ _ _ hq =>
    h.wellFormed.lt_size_of_mem_calleesAt hq
  have back : ∀ p < g.size, ∀ q ∈ g.callersAt p, q < g.size := fun _ _ _ hq =>
    h.wellFormed.lt_size_of_mem_callersAt hq
  refine ⟨listsTour_walk along found, listsTour_walk back found, ?_⟩
  rw [mem_tour along (lt_size_of_resolve? found), mem_tour back (lt_size_of_resolve? found'),
    reaches_callersAt]

def roundabout : Graph := ofHistory
  [.add (.define "main" { username := some "main()" }), .add (.define "f" {}), .add (.define "g" {}),
    .add (.edge "main" "x" .ref), .add (.edge "main" "f" .ref), .add (.edge "f" "f" .call),
    .add (.edge "f" "g" .call), .add (.edge "g" "main" .call), .add (.edge "g" "x" .call),
    .setDefault false, .keep "g"]

theorem listsTour_roundabout : roundabout.Built ∧
    (roundabout.resolve? "g" = some 2 ∧ roundabout.resolve? "main()" = some 0) ∧
    roundabout.ListsTour roundabout.calleesAt 2 (roundabout.allCallees "g") ∧
    roundabout.ListsTour roundabout.callersAt 2 (roundabout.allCallers "g") ∧
    (0 ∈ roundabout.tour roundabout.calleesAt 2 ↔ 2 ∈ roundabout.tour roundabout.callersAt 0) ∧
    roundabout.allCallees "g" = ["g", "main()", "x", "f"] ∧
    roundabout.visibleNodes true = ["g"] := by
  have built : roundabout.Built := ⟨_, rfl⟩
  have found : roundabout.resolve? "g" = some 2 ∧ roundabout.resolve? "main()" = some 0 := by
    with_unfolding_all decide
  have next : roundabout.calleesAt 0 = [3, 1] ∧ roundabout.calleesAt 1 = [1, 2] ∧
      roundabout.calleesAt 2 = [0, 3] ∧ roundabout.calleesAt 3 = [] := by with_unfolding_all decide
  have size : roundabout.size = 4 := by with_unfolding_all decide
  have order : roundabout.tour roundabout.calleesAt 2 = [2, 0, 3, 1] := by
    simp [tour_eq, size, walk, next]
  obtain ⟨callees, callers, dual⟩ := built.listsTour_both_ways found.1 found.2
  refine ⟨built, found, callees, callers, dual, ?_, by with_unfolding_all decide⟩
  rw [callees.names_eq, order]
  with_unfolding_all decide

end Graph

end CallAtlas
