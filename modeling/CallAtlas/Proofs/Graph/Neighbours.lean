import CallAtlas.Proofs.Graph.Addresses
import CallAtlas.Proofs.Graph.Engines
/-!
Three ways to ask for an edge: who is called, who calls, and which paths have two nodes. The answers are
names, and each way looks at nodes and edges in an order of its own; only the callees and the paths can leave
external nodes out, but an external node calls nobody. Main statements: `Addressed.mem_callees` and
`Addressed.mem_callers`, what the answers say of positions, and `Built.neighbours_agree`.
-/
namespace CallAtlas.Graph

variable {g : Graph} {scope : Scope} {refs : Bool} {i j : Nat}

theorem Addressed.displayAt_inj (addressed : g.Addressed) (hi : i < g.size) (hj : j < g.size)
    (alike : g.displayAt i = g.displayAt j) : i = j := by
  have first := addressed i hi
  rw [alike, addressed j hj] at first
  exact (Option.some.inj first).symm

theorem Addressed.mem_map_displayAt (addressed : g.Addressed) {is : List Nat}
    (inside : ∀ i ∈ is, i < g.size) (lt : j < g.size) :
    g.displayAt j ∈ is.map g.displayAt ↔ j ∈ is := by
  rw [List.mem_map]
  constructor
  · rintro ⟨i, hi, alike⟩
    rwa [← addressed.displayAt_inj (inside i hi) lt alike]
  · intro hj
    exact ⟨j, hj, rfl⟩

theorem Addressed.map_displayAt_inj (addressed : g.Addressed) {path other : List Nat}
    (inside : ∀ i ∈ path, i < g.size) (inside' : ∀ i ∈ other, i < g.size)
    (alike : path.map g.displayAt = other.map g.displayAt) : path = other := by
  induction path generalizing other with
  | nil => exact (List.map_eq_nil_iff.mp alike.symm).symm
  | cons i path ih =>
    obtain ⟨j, rest, rfl, first, later⟩ := List.map_eq_cons_iff.mp alike.symm
    obtain ⟨hi, hpath⟩ := List.forall_mem_cons.mp inside
    obtain ⟨hj, hrest⟩ := List.forall_mem_cons.mp inside'
    rw [addressed.displayAt_inj hi hj first.symm, ih hpath hrest later.symm]

def shownCallees (g : Graph) (scope : Scope) (i : Nat) : List Nat :=
  (g.calleesAt i).filter fun j => g.showsAt scope.externals j && g.showsEdgeAt scope.refs i j

theorem mem_shownCallees : j ∈ g.shownCallees scope i ↔
    g.showsAt scope.externals j = true ∧ g.showsEdgeAt scope.refs i j = true := by
  rw [shownCallees, List.mem_filter, Bool.and_eq_true]
  exact and_iff_right_of_imp fun shown => mem_calleesAt_of_showsEdgeAt shown.2

theorem Addressed.callees_displayAt (addressed : g.Addressed) (lt : i < g.size) (scope : Scope) :
    g.callees scope (g.displayAt i) = (g.shownCallees scope i).map g.displayAt := by
  rw [callees, addressed i lt]
  rfl

theorem Addressed.mem_callees (addressed : g.Addressed) (hi : i < g.size) (hj : j < g.size) :
    g.displayAt j ∈ g.callees scope (g.displayAt i) ↔
      g.showsAt scope.externals j = true ∧ g.showsEdgeAt scope.refs i j = true := by
  have inside : ∀ k ∈ g.shownCallees scope i, k < g.size :=
    fun k hk => g.lt_size_of_showsAt (mem_shownCallees.mp hk).1
  rw [addressed.callees_displayAt hi, addressed.mem_map_displayAt inside hj, mem_shownCallees]

theorem Addressed.mem_callers (addressed : g.Addressed) (hi : i < g.size) (hj : j < g.size) :
    g.displayAt i ∈ g.callers refs (g.displayAt j) ↔
      g.showsAt true i = true ∧ g.showsEdgeAt refs i j = true := by
  rw [callers, addressed j hj]
  dsimp only
  rw [addressed.mem_map_displayAt _ hi, List.mem_filter, Bool.and_eq_true]
  · refine and_iff_right_of_imp fun shown => ?_
    exact mem_callersAt_iff.mpr (mem_calleesAt_of_showsEdgeAt shown.2)
  · intro k hk
    exact g.lt_size_of_showsAt (Bool.and_eq_true_iff.mp (List.mem_filter.mp hk).2).1

theorem Consistent.showsAt_caller (h : g.Consistent) (edge : g.showsEdgeAt refs i j = true)
    (shown : g.showsAt true i = true) (externals : Bool) : g.showsAt externals i = true := by
  obtain ⟨e, he, rfl, -⟩ := mem_calleesAt.mp (mem_calleesAt_of_showsEdgeAt edge)
  obtain ⟨lt, defined⟩ := (h.mem_definitions _).mp (h.callers_defined e he)
  rw [showsAt_eq true lt, Bool.true_or, Bool.true_and] at shown
  rw [showsAt_eq externals lt, defined, shown]
  simp

def anyTwo : PathExpr Predicate := .seq [.one fun _ => true, .one fun _ => true]

theorem mem_language_anyTwo {word : List String} :
    word ∈ anyTwo.language ↔ ∃ first second, word = [first, second] := by
  have any (word : List String) :
      word ∈ (PathExpr.one fun _ => true).language ↔ ∃ name, word = [name] := by
    show (∃ name, true = true ∧ word = [name]) ↔ _
    simp
  rw [anyTwo, PathExpr.language, PathExpr.languages, PathExpr.languages, PathExpr.languages,
    List.prod_cons, List.prod_cons, List.prod_nil, mul_one, Language.mem_mul]
  simp only [any]
  constructor
  · rintro ⟨_, ⟨first, rfl⟩, _, ⟨second, rfl⟩, rfl⟩
    exact ⟨first, second, rfl⟩
  · rintro ⟨first, second, rfl⟩
    exact ⟨_, ⟨first, rfl⟩, _, ⟨second, rfl⟩, rfl⟩

theorem isPath_pair : g.IsPath scope [i, j] ↔ i ≠ j ∧ g.showsAt scope.externals i = true ∧
    g.showsAt scope.externals j = true ∧ g.showsEdgeAt scope.refs i j = true := by
  constructor
  · rintro ⟨-, nodup, shown, joined⟩
    refine ⟨?_, shown i (by simp), shown j (by simp), ?_⟩
    · simpa using nodup
    · simpa using joined
  · rintro ⟨apart, first, second, joined⟩
    refine ⟨by simp, by simpa using apart, ?_, by simpa using joined⟩
    simpa using ⟨first, second⟩

theorem Addressed.mem_trails (addressed : g.Addressed) {found : List (List Nat)}
    (listed : ∀ path, path ∈ found ↔ g.IsPath scope path ∧ path.map g.displayAt ∈ anyTwo.language)
    (hi : i < g.size) (hj : j < g.size) :
    (⟨[g.displayAt j, g.displayAt i]⟩ : Trail) ∈ found.map g.trailOf ↔ g.IsPath scope [i, j] := by
  rw [List.mem_map]
  constructor
  · rintro ⟨path, hp, spelled⟩
    have isPath := ((listed path).mp hp).1
    have names : path.map g.displayAt = [i, j].map g.displayAt := by
      have reversed : (path.map g.displayAt).reverse = [g.displayAt j, g.displayAt i] :=
        congrArg Trail.names spelled
      rw [← List.reverse_reverse (path.map g.displayAt), reversed]
      rfl
    have inside : ∀ k ∈ path, k < g.size := fun k hk => g.lt_size_of_showsAt (isPath.shown k hk)
    rwa [addressed.map_displayAt_inj inside (by simpa using ⟨hi, hj⟩) names] at isPath
  · intro isPath
    exact ⟨[i, j], (listed _).mpr ⟨isPath, mem_language_anyTwo.mpr ⟨_, _, rfl⟩⟩, rfl⟩

/-- The callees of a name, the callers of a name and the search for paths of two nodes, by each kind of
machine, all tell of an edge between two visible nodes if and only if that edge is visible. -/
theorem Built.neighbours_agree (built : g.Built) (addressed : g.Addressed) (scope : Scope) {x y : Nat}
    (apart : x ≠ y) (shownX : g.showsAt true x = true) (shownY : g.showsAt scope.externals y = true) :
    ∃ trails, g.FindsByEach anyTwo scope none trails ∧
      (g.displayAt y ∈ g.callees scope (g.displayAt x) ↔
        g.displayAt x ∈ g.callers scope.refs (g.displayAt y)) ∧
      (g.displayAt x ∈ g.callers scope.refs (g.displayAt y) ↔
        (⟨[g.displayAt y, g.displayAt x]⟩ : Trail) ∈ trails) ∧
      (g.displayAt y ∈ g.callees scope (g.displayAt x) ↔ g.showsEdgeAt scope.refs x y = true) := by
  have hx := g.lt_size_of_showsAt shownX
  have hy := g.lt_size_of_showsAt shownY
  obtain ⟨found, listed, finds⟩ := g.paths_of_expression anyTwo scope
  have callees : g.displayAt y ∈ g.callees scope (g.displayAt x) ↔
      g.showsEdgeAt scope.refs x y = true := by
    rw [addressed.mem_callees hx hy]
    exact and_iff_right shownY
  have callers : g.displayAt x ∈ g.callers scope.refs (g.displayAt y) ↔
      g.showsEdgeAt scope.refs x y = true := by
    rw [addressed.mem_callers hx hy]
    exact and_iff_right shownX
  have paths : (⟨[g.displayAt y, g.displayAt x]⟩ : Trail) ∈ found.map g.trailOf ↔
      g.showsEdgeAt scope.refs x y = true := by
    rw [addressed.mem_trails listed hx hy, isPath_pair]
    constructor
    · exact fun path => path.2.2.2
    · intro edge
      exact ⟨apart, built.consistent.showsAt_caller edge shownX _, shownY, edge⟩
  exact ⟨_, finds none, callees.trans callers.symm, callers.trans paths.symm, callees⟩

def crossing : Graph := ofHistory
  [.add (.define "a" { username := some "a()" }), .add (.define "b" {}), .add (.edge "a" "b" .ref),
    .add (.edge "a" "x" .call), .add (.edge "b" "a" .call), .add (.edge "b" "x" .ref),
    .cutCallees "b", .keep "b"]

theorem neighbours_agree_crossing : crossing.Built ∧ crossing.Addressed ∧ 0 ≠ 2 ∧
    crossing.showsAt true 0 = true ∧ crossing.showsAt true 2 = true ∧
    ∃ trails, crossing.FindsByEach anyTwo ⟨true, true⟩ none trails ∧
      "x" ∈ crossing.callees ⟨true, true⟩ "a()" ∧ "a()" ∈ crossing.callers true "x" ∧
      (⟨["x", "a()"]⟩ : Trail) ∈ trails := by
  have built : crossing.Built := ⟨_, rfl⟩
  have addressed : crossing.Addressed := built.addressed_iff.mpr (by with_unfolding_all decide)
  have apart : 0 ≠ 2 := by decide
  have caller : crossing.showsAt true 0 = true := by with_unfolding_all decide
  have callee : crossing.showsAt true 2 = true := by with_unfolding_all decide
  have names : crossing.displayAt 0 = "a()" ∧ crossing.displayAt 2 = "x" := by
    with_unfolding_all decide
  obtain ⟨trails, finds, both, path, edge⟩ :=
    built.neighbours_agree addressed ⟨true, true⟩ apart caller callee
  rw [names.1, names.2] at both path edge
  have called := edge.mpr (by with_unfolding_all decide)
  exact ⟨built, addressed, apart, caller, callee, trails, finds, called, both.mp called,
    path.mp (both.mp called)⟩

end CallAtlas.Graph
