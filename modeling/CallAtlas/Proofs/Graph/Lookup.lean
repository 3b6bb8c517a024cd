import CallAtlas.Graph.Query
import CallAtlas.Proofs.Graph.History
/-!
What names stand for and where edges lead. Main statements: `WellFormed.canonical_eq_nameAt`, canonical
names tell nodes apart, and `WellFormed.mem_allCallees` and `WellFormed.mem_allCallers`, the walks list
what is reachable in either direction.
-/
namespace CallAtlas.Graph

/-- The name under which each node is shown stands for that node. -/
def Addressed (g : Graph) : Prop := ∀ i < g.size, g.resolve? (g.displayAt i) = some i

variable {g : Graph}

theorem mem_calleesAt {i j : Nat} :
    j ∈ g.calleesAt i ↔ ∃ e ∈ g.edges, e.caller = i ∧ e.callee = j := by
  simp [calleesAt, and_assoc]

theorem mem_callersAt {i j : Nat} :
    j ∈ g.callersAt i ↔ ∃ e ∈ g.edges, e.callee = i ∧ e.caller = j := by
  simp [callersAt, and_assoc]

theorem mem_callersAt_iff {i j : Nat} : j ∈ g.callersAt i ↔ i ∈ g.calleesAt j := by
  rw [mem_callersAt, mem_calleesAt]
  simp only [and_comm]

theorem WellFormed.lt_size_of_mem_calleesAt (h : g.WellFormed) {i j : Nat} (hj : j ∈ g.calleesAt i) :
    j < g.size := by
  obtain ⟨e, he, -, rfl⟩ := mem_calleesAt.mp hj
  exact (h.edges_lt e he).2

theorem WellFormed.lt_size_of_mem_callersAt (h : g.WellFormed) {i j : Nat} (hj : j ∈ g.callersAt i) :
    j < g.size := by
  obtain ⟨e, he, -, rfl⟩ := mem_callersAt.mp hj
  exact (h.edges_lt e he).1

theorem reaches_callersAt {i j : Nat} :
    Reaches g.callersAt i j ↔ Reaches g.calleesAt j i := by
  constructor
  · intro h
    induction h with
    | refl => exact .refl _
    | step hq _ ih => exact ih.trans (.step (mem_callersAt_iff.mp hq) (.refl _))
  · intro h
    induction h with
    | refl => exact .refl _
    | step hq _ ih => exact ih.trans (.step (mem_callersAt_iff.mpr hq) (.refl _))

theorem find?_eq_findIdx? (g : Graph) (name : String) :
    g.find? name = (g.nodes.toList.map Node.name).findIdx? (· == name) := by
  rw [List.findIdx?_map]
  exact List.findIdx?_toArray _ g.nodes.toList

theorem find?_eq_none {name : String} :
    g.find? name = none ↔ name ∉ g.nodes.toList.map Node.name := by
  rw [find?, Array.findIdx?_eq_none_iff]
  simp

theorem getElem?_of_findUsername? {username : String} {i : Nat}
    (h : g.findUsername? username = some i) :
    ∃ node, g.nodes[i]? = some node ∧ node.username = some username := by
  have found := List.find?_some h
  rwa [beq_iff_eq, Option.bind_eq_some_iff] at found

theorem getElem?_of_resolve? {name : String} {i : Nat} (h : g.resolve? name = some i) :
    ∃ node, g.nodes[i]? = some node ∧ (node.name = name ∨ node.username = some name) := by
  rcases Option.or_eq_some_iff.mp h with h | ⟨-, h⟩
  · obtain ⟨node, hn, eq⟩ := getElem?_of_findUsername? h
    exact ⟨node, hn, .inr eq⟩
  · obtain ⟨node, hn, eq⟩ := getElem?_of_find? h
    exact ⟨node, hn, .inl eq⟩

theorem lt_size_of_resolve? {name : String} {i : Nat} (h : g.resolve? name = some i) :
    i < g.size := by
  obtain ⟨node, hn, -⟩ := getElem?_of_resolve? h
  exact (Array.getElem?_eq_some_iff.mp hn).1

theorem nameAt_eq {i : Nat} (lt : i < g.size) : g.nameAt i = g.nodes[i].name := by
  rw [nameAt, Array.getElem?_eq_getElem lt]
  rfl

theorem WellFormed.nameAt_inj (h : g.WellFormed) {i j : Nat} (hi : i < g.size) (hj : j < g.size)
    (eq : g.nameAt i = g.nameAt j) : i = j := by
  have lt : i < (g.nodes.toList.map Node.name).length := by
    rw [List.length_map, Array.length_toList]
    exact hi
  have listed (k : Nat) (hk : k < g.size) :
      (g.nodes.toList.map Node.name)[k]? = some (g.nameAt k) := by
    rw [nameAt_eq hk, List.getElem?_map, Array.getElem?_toList, Array.getElem?_eq_getElem hk]
    rfl
  exact (List.getElem?_inj lt h.names_nodup).mp (by rw [listed i hi, listed j hj, eq])

theorem isSome_find?_nameAt {i : Nat} (lt : i < g.size) : (g.find? (g.nameAt i)).isSome := by
  rw [find?, Array.findIdx?_isSome, Array.any_eq_true]
  exact ⟨i, lt, by rw [nameAt_eq lt]; simp⟩

theorem WellFormed.find?_nameAt (h : g.WellFormed) {i : Nat} (lt : i < g.size) :
    g.find? (g.nameAt i) = some i := by
  obtain ⟨j, found⟩ := Option.isSome_iff_exists.mp (isSome_find?_nameAt lt)
  obtain ⟨node, hn, named⟩ := getElem?_of_find? found
  have eq : g.nameAt j = g.nameAt i := by
    rw [nameAt, hn]
    exact named
  rw [found, h.nameAt_inj (Array.getElem?_eq_some_iff.mp hn).1 lt eq]

theorem WellFormed.find?_of_getElem? (h : g.WellFormed) {i : Nat} {node : Node}
    (here : g.nodes[i]? = some node) : g.find? node.name = some i := by
  obtain ⟨lt, rfl⟩ := Array.getElem?_eq_some_iff.mp here
  rw [← nameAt_eq lt]
  exact h.find?_nameAt lt

theorem WellFormed.eq_of_getElem? (h : g.WellFormed) {i j : Nat} {node : Node}
    (hi : g.nodes[i]? = some node) (hj : g.nodes[j]? = some node) : i = j := by
  obtain ⟨lt, rfl⟩ := Array.getElem?_eq_some_iff.mp hi
  obtain ⟨lt', eq⟩ := Array.getElem?_eq_some_iff.mp hj
  refine h.nameAt_inj lt lt' ?_
  rw [nameAt_eq lt, nameAt_eq lt', eq]

theorem isExternalAt_eq {i : Nat} {node : Node} (h : g.nodes[i]? = some node) :
    g.isExternalAt i = node.isExternal := by
  rw [isExternalAt, h]
  rfl

theorem WellFormed.canonical_eq_nameAt (h : g.WellFormed) {name : String} {i : Nat}
    (lt : i < g.size) : g.canonical name = g.nameAt i ↔ g.resolve? name = some i := by
  rw [canonical]
  cases found : g.resolve? name with
  | none =>
    constructor
    · rintro rfl
      have missing : g.find? (g.nameAt i) = none := (Option.or_eq_none_iff.mp found).2
      have := isSome_find?_nameAt lt
      rw [missing] at this
      cases this
    · nofun
  | some j =>
    have lt' := lt_size_of_resolve? found
    constructor
    · intro eq
      rw [h.nameAt_inj lt' lt eq]
    · rintro ⟨⟩
      rfl

theorem mem_visibleNodes {externals : Bool} {name : String} : name ∈ g.visibleNodes externals ↔
    ∃ i < g.size, g.displayAt i = name ∧ g.showsAt externals i = true := by
  simp only [visibleNodes, List.mem_map, List.mem_filter, List.mem_range]
  constructor
  · rintro ⟨i, ⟨lt, shown⟩, rfl⟩
    exact ⟨i, lt, rfl, shown⟩
  · rintro ⟨i, lt, rfl, shown⟩
    exact ⟨i, ⟨lt, shown⟩, rfl⟩

theorem showsAt_of_showsAt {externals : Bool} {i : Nat} (h : g.showsAt externals i = true) :
    g.showsAt true i = true := by
  unfold showsAt at h ⊢
  split at h
  · cases h
  · exact (Bool.and_eq_true_iff.mp h).2

theorem mem_visibleNodes_of_mem_callers {refs : Bool} {name other : String}
    (h : other ∈ g.callers refs name) : other ∈ g.visibleNodes true := by
  unfold callers at h
  split at h
  · cases h
  · obtain ⟨j, picked, rfl⟩ := List.mem_map.mp h
    have shown := (Bool.and_eq_true_iff.mp (List.mem_filter.mp picked).2).1
    exact mem_visibleNodes.mpr ⟨j, g.lt_size_of_showsAt shown, rfl, shown⟩

theorem mem_visibleNodes_of_mem_callees {scope : Scope} {name other : String}
    (h : other ∈ g.callees scope name) : other ∈ g.visibleNodes true := by
  unfold callees at h
  split at h
  · cases h
  · obtain ⟨j, picked, rfl⟩ := List.mem_map.mp h
    have shown := (Bool.and_eq_true_iff.mp (List.mem_filter.mp picked).2).1
    exact mem_visibleNodes.mpr ⟨j, g.lt_size_of_showsAt shown, rfl, showsAt_of_showsAt shown⟩

theorem mem_map_walk {next : Nat → List Nat} (range : ∀ p < g.size, ∀ q ∈ next p, q < g.size)
    {name other : String} :
    other ∈ (walk next g.size ∅ (g.resolve? name).toList).map g.displayAt ↔
      ∃ j, g.resolve? name = some j ∧ ∃ i < g.size, Reaches next j i ∧ g.displayAt i = other := by
  have start : ∀ p ∈ (g.resolve? name).toList, p < g.size := by
    intro p hp
    exact lt_size_of_resolve? (Option.mem_toList.mp hp)
  rw [List.mem_map]
  constructor
  · rintro ⟨i, hi, rfl⟩
    obtain ⟨j, hj, reached⟩ := (mem_walk_empty range start).mp hi
    exact ⟨j, Option.mem_toList.mp hj, i, (not_mem_seen_of_mem_walk hi).1, reached, rfl⟩
  · rintro ⟨j, hj, i, -, reached, rfl⟩
    exact ⟨i, (mem_walk_empty range start).mpr ⟨j, Option.mem_toList.mpr hj, reached⟩, rfl⟩

theorem WellFormed.mem_allCallees (h : g.WellFormed) {name other : String} :
    other ∈ g.allCallees name ↔ ∃ j, g.resolve? name = some j ∧
      ∃ i < g.size, Reaches g.calleesAt j i ∧ g.displayAt i = other := by
  exact mem_map_walk fun _ _ _ hq => h.lt_size_of_mem_calleesAt hq

theorem WellFormed.mem_allCallers (h : g.WellFormed) {name other : String} :
    other ∈ g.allCallers name ↔ ∃ j, g.resolve? name = some j ∧
      ∃ i < g.size, Reaches g.calleesAt i j ∧ g.displayAt i = other := by
  rw [allCallers, mem_map_walk fun _ _ _ hq => h.lt_size_of_mem_callersAt hq]
  simp only [reaches_callersAt]

end CallAtlas.Graph
