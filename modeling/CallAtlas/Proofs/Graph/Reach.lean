import CallAtlas.Graph.Reach
import CallAtlas.Proofs.Graph.Lookup
/-!
What names cover in a graph: the nodes that they stand for, and with these all that leads to them or all
that they lead to. Main statement: `showsAt_keepAll`, keeping names while nothing is shown by default
shows the kept nodes and those that the names cover.
-/
namespace CallAtlas.Graph

/-- Some name stands for the node, or for one that it reaches or that reaches it, as far as that counts. -/
def Covers (g : Graph) (reach : Reach) (names : List String) (i : Nat) : Prop :=
  ∃ name ∈ names, ∃ j, g.resolve? name = some j ∧
    (i = j ∨ (reach.callers = true ∧ Reaches g.calleesAt i j) ∨
      (reach.callees = true ∧ Reaches g.calleesAt j i))

/-- What is left in view when everything is hidden but the kept nodes and what names cover. -/
def Remains (g : Graph) (reach : Reach) (names : List String) (i : Nat) : Prop :=
  g.nameAt i ∈ g.visibility.kept ∨ g.Covers reach names i

variable {g : Graph}

theorem foldl_keep_eq (g : Graph) (names : List String) : names.foldl keep g =
    { g with visibility := (names.map g.canonical).foldl Visibility.keep g.visibility } := by
  induction names generalizing g with
  | nil => rfl
  | cons name names ih =>
    rw [List.foldl_cons, ih (g.keep name)]
    rfl

def reached (g : Graph) (reach : Reach) (name : String) : List String :=
  name :: (g.reachedCallers reach name ++ g.reachedCallees reach name)

theorem keepAll_eq (g : Graph) (reach : Reach) (names : List String) : g.keepAll reach names =
    { g with visibility :=
      ((names.flatMap (g.reached reach)).map g.canonical).foldl Visibility.keep g.visibility } := by
  rw [keepAll]
  induction names generalizing g with
  | nil => rfl
  | cons name names ih =>
    have first : keepReach reach g name = { g with visibility :=
        ((g.reached reach name).map g.canonical).foldl Visibility.keep g.visibility } :=
      g.foldl_keep_eq (g.reached reach name)
    rw [List.foldl_cons, ih, first, List.flatMap_cons, List.map_append, List.foldl_append]
    rfl

theorem mem_kept_foldl_keep {names : List String} {v : Visibility} {name : String} :
    name ∈ (names.foldl Visibility.keep v).kept ↔ name ∈ v.kept ∨ name ∈ names := by
  induction names generalizing v with
  | nil => simp
  | cons other names ih =>
    have one : name ∈ (v.keep other).kept ↔ name = other ∨ name ∈ v.kept := NameSet.mem_insert
    rw [List.foldl_cons, ih, one, List.mem_cons]
    tauto

theorem shownByDefault_foldl_keep (names : List String) (v : Visibility) :
    (names.foldl Visibility.keep v).shownByDefault = v.shownByDefault := by
  induction names generalizing v with
  | nil => rfl
  | cons other names ih => exact ih _

theorem shows_iff_of_hidden {v : Visibility} (h : v.shownByDefault = false) {name : String} :
    v.shows name = true ↔ name ∈ v.kept := by
  unfold Visibility.shows
  split
  · simp_all
  · split <;> simp_all

theorem WellFormed.covers_iff (h : g.WellFormed) (addressed : g.Addressed) {reach : Reach}
    {names : List String} {i : Nat} (lt : i < g.size) : g.Covers reach names i ↔
      ∃ name ∈ names.flatMap (g.reached reach), g.resolve? name = some i := by
  constructor
  · rintro ⟨name, hn, j, found, covered⟩
    have added {other : String} (ho : other ∈ g.reached reach name) :
        other ∈ names.flatMap (g.reached reach) := List.mem_flatMap.mpr ⟨name, hn, ho⟩
    rcases covered with rfl | ⟨callers, reached⟩ | ⟨callees, reached⟩
    · exact ⟨name, added List.mem_cons_self, found⟩
    · have listed := h.mem_allCallers.mpr ⟨j, found, i, lt, reached, rfl⟩
      refine ⟨g.displayAt i, added ?_, addressed i lt⟩
      rw [Graph.reached, reachedCallers, if_pos callers]
      exact List.mem_cons_of_mem _ (List.mem_append_left _ listed)
    · have listed := h.mem_allCallees.mpr ⟨j, found, i, lt, reached, rfl⟩
      refine ⟨g.displayAt i, added ?_, addressed i lt⟩
      rw [Graph.reached, reachedCallees, if_pos callees]
      exact List.mem_cons_of_mem _ (List.mem_append_right _ listed)
  · rintro ⟨other, ho, found⟩
    obtain ⟨name, hn, ho⟩ := List.mem_flatMap.mp ho
    have back {k : Nat} (hk : k < g.size) (shown : g.displayAt k = other) : k = i := by
      have own := addressed k hk
      rw [shown, found] at own
      exact (Option.some.inj own).symm
    rcases List.mem_cons.mp ho with rfl | ho
    · exact ⟨other, hn, i, found, .inl rfl⟩
    · rcases List.mem_append.mp ho with ho | ho
      · rw [reachedCallers] at ho
        split at ho
        · rename_i callers
          obtain ⟨j, start, k, hk, reached, shown⟩ := h.mem_allCallers.mp ho
          obtain rfl := back hk shown
          exact ⟨name, hn, j, start, .inr (.inl ⟨callers, reached⟩)⟩
        · cases ho
      · rw [reachedCallees] at ho
        split at ho
        · rename_i callees
          obtain ⟨j, start, k, hk, reached, shown⟩ := h.mem_allCallees.mp ho
          obtain rfl := back hk shown
          exact ⟨name, hn, j, start, .inr (.inr ⟨callees, reached⟩)⟩
        · cases ho

theorem showsAt_true_iff {i : Nat} :
    g.showsAt true i = true ↔ i < g.size ∧ g.visibility.shows (g.nameAt i) = true := by
  unfold showsAt
  split
  · rename_i missing
    have out : ¬ i < g.size := Nat.not_lt_of_le (Array.getElem?_eq_none_iff.mp missing)
    simp [out]
  · rename_i node found
    obtain ⟨lt, rfl⟩ := Array.getElem?_eq_some_iff.mp found
    rw [nameAt_eq lt]
    simp [show i < g.size from lt]

theorem WellFormed.showsAt_keepAll (h : g.WellFormed) (addressed : g.Addressed)
    (hidden : g.visibility.shownByDefault = false) {reach : Reach} {names : List String} {i : Nat} :
    (g.keepAll reach names).showsAt true i = true ↔ i < g.size ∧ g.Remains reach names i := by
  rw [keepAll_eq, showsAt_true_iff]
  refine and_congr_right fun lt => ?_
  have lt : i < g.size := lt
  rw [shows_iff_of_hidden ((shownByDefault_foldl_keep _ _).trans hidden), mem_kept_foldl_keep,
    Remains, h.covers_iff addressed lt]
  refine or_congr Iff.rfl ?_
  rw [List.mem_map]
  refine exists_congr fun name => and_congr_right fun _ => ?_
  exact h.canonical_eq_nameAt lt

end CallAtlas.Graph
