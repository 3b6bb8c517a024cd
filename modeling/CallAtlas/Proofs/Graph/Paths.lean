import CallAtlas.Graph.Search
import CallAtlas.Proofs.Graph.Lookup
import Mathlib.Data.List.Chain
/-!
Simple paths through the visible part of a graph, and their enumeration in depth-first preorder. The
enumeration knows no automaton, no stack and no limit; searches are compared with it. Main statements:
`mem_continuations`, it lists the paths and nothing else, and `pairwise_continuations`, in preorder.
-/
namespace CallAtlas

namespace Graph

/-- A path as positions, oldest first. -/
structure IsPath (g : Graph) (scope : Scope) (path : List Nat) : Prop where
  ne_nil : path ≠ []
  nodup : path.Nodup
  shown : ∀ i ∈ path, g.showsAt scope.externals i = true
  joined : path.IsChain fun i j => g.showsEdgeAt scope.refs i j = true

def trailOf (g : Graph) (path : List Nat) : Trail := ⟨(path.map g.displayAt).reverse⟩

/-- Depth-first preorder of paths that begin with one of the candidates: a path stands before the paths
that extend it, and where two paths part the order of the candidates, or of the callees, decides. -/
inductive Precedes (g : Graph) : (candidates path other : List Nat) → Prop
  | extended {candidates : List Nat} (i : Nat) (rest : List Nat) :
    Precedes g candidates [] (i :: rest)
  | earlier {candidates : List Nat} {i j : Nat} (h : [i, j].Sublist candidates)
    (path other : List Nat) : Precedes g candidates (i :: path) (j :: other)
  | later {candidates : List Nat} {i : Nat} {path other : List Nat}
    (h : Precedes g (g.calleesAt i) path other) :
    Precedes g candidates (i :: path) (i :: other)

def allows (g : Graph) (scope : Scope) (last : Option Nat) (i : Nat) : Bool :=
  (last.all fun l => g.showsEdgeAt scope.refs l i) && g.showsAt scope.externals i

theorem lt_size_of_allows {g : Graph} {scope : Scope} {last : Option Nat} {i : Nat}
    (h : g.allows scope last i = true) : i < g.size :=
  g.lt_size_of_showsAt (Bool.and_eq_true_iff.mp h).2

/-- What a path with the nodes `visited` that ends at `last` can be continued with, when one of the
candidates comes next. -/
def continuations (g : Graph) (scope : Scope) (visited : IndexSet) (last : Option Nat)
    (candidates : List Nat) : List (List Nat) :=
  match candidates with
  | [] => []
  | i :: rest =>
    if _h : i ∉ visited ∧ g.allows scope last i = true then
      [i] :: (continuations g scope (visited.insert i) (some i) (g.calleesAt i)).map (i :: ·) ++
        continuations g scope visited last rest
    else continuations g scope visited last rest
termination_by (Walk.unseen g.size visited, candidates.length)
decreasing_by
  · exact Prod.Lex.left _ _ (Walk.unseen_insert_lt (lt_size_of_allows _h.2) _h.1)
  · exact Prod.Lex.right _ (Nat.lt_succ_self _)
  · exact Prod.Lex.right _ (Nat.lt_succ_self _)

theorem continuations_skip {g : Graph} {scope : Scope} {visited : IndexSet} {last : Option Nat} {i : Nat}
    (h : ¬ (i ∉ visited ∧ g.allows scope last i = true)) (rest : List Nat) :
    g.continuations scope visited last (i :: rest) = g.continuations scope visited last rest := by
  rw [continuations, dif_neg h]

theorem continuations_enter {g : Graph} {scope : Scope} {visited : IndexSet} {last : Option Nat} {i : Nat}
    (h : i ∉ visited ∧ g.allows scope last i = true) (rest : List Nat) :
    g.continuations scope visited last (i :: rest) =
      [i] :: (g.continuations scope (visited.insert i) (some i) (g.calleesAt i)).map (i :: ·) ++
        g.continuations scope visited last rest := by
  rw [continuations, dif_pos h]

theorem mem_calleesAt_of_showsEdgeAt {g : Graph} {refs : Bool} {i j : Nat}
    (h : g.showsEdgeAt refs i j = true) : j ∈ g.calleesAt i := by
  unfold showsEdgeAt at h
  split at h
  · cases h
  · rename_i kind eq
    obtain ⟨e, found, -⟩ := Option.map_eq_some_iff.mp eq
    have ends := Array.find?_some found
    simp only [Bool.and_eq_true, beq_iff_eq] at ends
    exact mem_calleesAt.mpr ⟨e, Array.mem_of_find?_eq_some found, ends⟩

structure Continues (g : Graph) (scope : Scope) (visited : IndexSet) (last : Option Nat)
    (path : List Nat) : Prop where
  isPath : g.IsPath scope path
  fresh : ∀ i ∈ path, i ∉ visited
  reached : ∀ l ∈ last, ∀ i ∈ path.head?, g.showsEdgeAt scope.refs l i = true

theorem continues_cons {g : Graph} {scope : Scope} {visited : IndexSet} {last : Option Nat} {i : Nat}
    {rest : List Nat} : g.Continues scope visited last (i :: rest) ↔
      (i ∉ visited ∧ g.allows scope last i = true) ∧
        (rest = [] ∨ g.Continues scope (visited.insert i) (some i) rest) := by
  have allowed : g.allows scope last i = true ↔
      (∀ l ∈ last, g.showsEdgeAt scope.refs l i = true) ∧ g.showsAt scope.externals i = true := by
    simp [allows, Option.all_eq_true]
  rw [allowed]
  constructor
  · rintro ⟨⟨-, nodup, shown, joined⟩, fresh, reached⟩
    have ⟨new, nodup'⟩ := List.nodup_cons.mp nodup
    refine ⟨⟨fresh i (by simp), fun l hl => reached l hl i rfl, shown i (by simp)⟩, ?_⟩
    refine or_iff_not_imp_left.mpr fun ne => ?_
    refine ⟨⟨ne, nodup', fun j hj => shown j (by simp [hj]), joined.tail⟩, fun j hj => ?_, ?_⟩
    · rw [IndexSet.mem_insert]
      rintro (rfl | hv)
      · exact new hj
      · exact fresh j (by simp [hj]) hv
    · rintro l hl j hj
      cases hl
      exact (List.isChain_cons.mp joined).1 j hj
  · rintro ⟨⟨new, reached, shown⟩, rfl | ⟨⟨ne, nodup, shown', joined⟩, fresh, reached'⟩⟩
    · refine ⟨⟨by simp, by simp, by simpa using shown, by simp⟩, by simpa using new, ?_⟩
      intro l hl j hj
      cases hj
      exact reached l hl
    · have other : ∀ j ∈ rest, j ≠ i ∧ j ∉ visited := by
        intro j hj
        simpa using fresh j hj
      refine ⟨⟨by simp, ?_, ?_, ?_⟩, ?_, ?_⟩
      · exact List.nodup_cons.mpr ⟨fun hi => (other i hi).1 rfl, nodup⟩
      · simpa using ⟨shown, shown'⟩
      · exact List.isChain_cons.mpr ⟨fun j hj => reached' i rfl j hj, joined⟩
      · simpa using ⟨new, fun j hj => (other j hj).2⟩
      · intro l hl j hj
        cases hj
        exact reached l hl

theorem mem_continuations {g : Graph} {scope : Scope} {visited : IndexSet} {last : Option Nat}
    {candidates path : List Nat} : path ∈ g.continuations scope visited last candidates ↔
      g.Continues scope visited last path ∧ ∃ i ∈ candidates, path.head? = some i := by
  fun_induction continuations g scope visited last candidates generalizing path with
  | case1 => simp
  | case2 visited last i rest h ihBelow ihRest =>
    have below : path ∈ (g.continuations scope (visited.insert i) (some i) (g.calleesAt i)).map
        (i :: ·) ↔ ∃ tail, path = i :: tail ∧ g.Continues scope (visited.insert i) (some i) tail := by
      rw [List.mem_map]
      constructor
      · rintro ⟨tail, ht, rfl⟩
        exact ⟨tail, rfl, (ihBelow.mp ht).1⟩
      · rintro ⟨tail, rfl, ht⟩
        refine ⟨tail, ihBelow.mpr ⟨ht, ?_⟩, rfl⟩
        obtain ⟨j, more, rfl⟩ := List.exists_cons_of_ne_nil ht.isPath.ne_nil
        exact ⟨j, mem_calleesAt_of_showsEdgeAt (ht.reached i rfl j rfl), rfl⟩
    rw [List.cons_append, List.mem_cons, List.mem_append, below, ihRest]
    constructor
    · rintro (rfl | ⟨tail, rfl, ht⟩ | ⟨hp, j, hj, head⟩)
      · exact ⟨continues_cons.mpr ⟨h, .inl rfl⟩, i, by simp, rfl⟩
      · exact ⟨continues_cons.mpr ⟨h, .inr ht⟩, i, by simp, rfl⟩
      · exact ⟨hp, j, by simp [hj], head⟩
    · rintro ⟨hp, j, hj, head⟩
      rcases List.mem_cons.mp hj with rfl | hj
      · obtain ⟨tail, rfl⟩ : ∃ tail, path = j :: tail := by
          cases path with
          | nil => cases head
          | cons k tail => cases head; exact ⟨tail, rfl⟩
        rcases (continues_cons.mp hp).2 with rfl | ht
        · exact .inl rfl
        · exact .inr (.inl ⟨tail, rfl, ht⟩)
      · exact .inr (.inr ⟨hp, j, hj, head⟩)
  | case3 visited last i rest h ih =>
    rw [ih]
    constructor
    · rintro ⟨hp, j, hj, head⟩
      exact ⟨hp, j, by simp [hj], head⟩
    · rintro ⟨hp, j, hj, head⟩
      rcases List.mem_cons.mp hj with rfl | hj
      · cases path with
        | nil => cases head
        | cons k tail =>
          cases head
          exact absurd (continues_cons.mp hp).1 h
      · exact ⟨hp, j, hj, head⟩

theorem Precedes.mono {g : Graph} {candidates more path other : List Nat}
    (h : g.Precedes candidates path other) (sub : candidates.Sublist more) :
    g.Precedes more path other := by
  cases h with
  | extended i rest => exact .extended i rest
  | earlier h path other => exact .earlier (h.trans sub) path other
  | later h => exact .later h

theorem pairwise_continuations (g : Graph) (scope : Scope) (visited : IndexSet) (last : Option Nat)
    (candidates : List Nat) :
    (g.continuations scope visited last candidates).Pairwise (g.Precedes candidates) := by
  fun_induction continuations g scope visited last candidates with
  | case1 => exact .nil
  | case2 visited last i rest h ihBelow ihRest =>
    have lifted := ihRest.imp fun h => h.mono (List.sublist_cons_self i rest)
    have apart : ∀ tail, ∀ other ∈ g.continuations scope visited last rest,
        g.Precedes (i :: rest) (i :: tail) other := by
      intro tail other ho
      obtain ⟨-, j, hj, head⟩ := mem_continuations.mp ho
      cases other with
      | nil => cases head
      | cons k more =>
        cases head
        exact .earlier (.cons_cons i (List.singleton_sublist.mpr hj)) tail more
    rw [List.cons_append, List.pairwise_cons, List.pairwise_append, List.pairwise_map]
    refine ⟨?_, ihBelow.imp .later, lifted, ?_⟩
    · intro other ho
      rcases List.mem_append.mp ho with ho | ho
      · obtain ⟨tail, ht, rfl⟩ := List.mem_map.mp ho
        obtain ⟨j, more, rfl⟩ :=
          List.exists_cons_of_ne_nil (mem_continuations.mp ht).1.isPath.ne_nil
        exact .later (.extended j more)
      · exact apart [] other ho
    · intro path hp other ho
      obtain ⟨tail, -, rfl⟩ := List.mem_map.mp hp
      exact apart tail other ho
  | case3 visited last i rest h ih => exact ih.imp fun h => h.mono (List.sublist_cons_self i rest)

theorem WellFormed.nodup_calleesAt {g : Graph} (h : g.WellFormed) (i : Nat) :
    (g.calleesAt i).Nodup := by
  have apart := List.pairwise_map.mp h.edges_nodup
  rw [calleesAt, List.Nodup, List.pairwise_map]
  refine (apart.filter _).imp_of_mem ?_
  intro e f he hf ne eq
  have callers : e.caller = f.caller := by
    have := (List.mem_filter.mp he).2
    have := (List.mem_filter.mp hf).2
    simp_all
  exact ne (by rw [callers, eq])

theorem not_sublist_swap {l : List Nat} (nodup : l.Nodup) {i j : Nat} (h : [i, j].Sublist l) :
    ¬ [j, i].Sublist l := by
  intro h'
  induction l with
  | nil => cases h
  | cons a l ih =>
    have ⟨new, nodup'⟩ := List.nodup_cons.mp nodup
    cases h with
    | cons _ h =>
      cases h' with
      | cons _ h' => exact ih nodup' h h'
      | cons_cons => exact new (h.subset (by simp))
    | cons_cons _ h =>
      cases h' with
      | cons _ h' => exact new (h'.subset (by simp))
      | cons_cons => exact new (h.subset (by simp))

theorem Precedes.asymm {g : Graph} (wf : g.WellFormed) {candidates path other : List Nat}
    (nodup : candidates.Nodup) (h : g.Precedes candidates path other) :
    ¬ g.Precedes candidates other path := by
  induction h with
  | extended => exact nofun
  | earlier h path other =>
    intro h'
    cases h' with
    | earlier h' => exact not_sublist_swap nodup h h'
    | later => simpa using nodup.sublist h
  | @later _ i _ _ _ ih =>
    intro h'
    cases h' with
    | earlier h' => simpa using nodup.sublist h'
    | later h' => exact ih (wf.nodup_calleesAt i) h'

theorem Precedes.ne {g : Graph} (wf : g.WellFormed) {candidates path other : List Nat}
    (nodup : candidates.Nodup) (h : g.Precedes candidates path other) : path ≠ other := by
  rintro rfl
  exact h.asymm wf nodup h

end Graph

end CallAtlas
