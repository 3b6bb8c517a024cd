import CallAtlas.Dump.Entry
import CallAtlas.Graph.Filter
import Mathlib.Data.List.Nodup
/-!
Graphs as histories make them. A history is any sequence of additions, labels and changes of visibility;
an addition that is refused changes nothing. Main statement: `Built.wellFormed`, in every graph that a
history makes no two nodes share a canonical name, no two edges join the same nodes in the same
direction, and all edges are between nodes.
-/
namespace CallAtlas.Graph

inductive Change where
  | add (entry : Entry)
  | resetLabels
  | hide (name : String)
  | keep (name : String)
  | cutCallers (name : String)
  | cutCallees (name : String)
  | resetVisibility
  | setDefault (shown : Bool)
deriving DecidableEq, Repr

def apply (g : Graph) : Change → Graph
  | .add entry =>
    match g.add entry with
    | .ok g' => g'
    | .error _ => g
  | .resetLabels => g.resetLabels
  | .hide name => g.hide name
  | .keep name => g.keep name
  | .cutCallers name => g.cutCallers name
  | .cutCallees name => g.cutCallees name
  | .resetVisibility => g.resetVisibility
  | .setDefault shown => g.setDefault shown

/-- The graph after a history, the earliest change first. -/
def ofHistory (history : List Change) : Graph := history.foldl apply {}

/-- Some history makes the graph. -/
def Built (g : Graph) : Prop := ∃ history, g = ofHistory history

theorem Built.empty : Built {} := ⟨[], rfl⟩

theorem Built.apply {g : Graph} (h : g.Built) (change : Change) : (g.apply change).Built := by
  obtain ⟨history, rfl⟩ := h
  refine ⟨history ++ [change], ?_⟩
  rw [ofHistory, ofHistory, List.foldl_append]
  rfl

structure WellFormed (g : Graph) : Prop where
  names_nodup : (g.nodes.toList.map Node.name).Nodup
  edges_lt : ∀ e ∈ g.edges, e.caller < g.size ∧ e.callee < g.size
  edges_nodup : (g.edges.toList.map fun e => (e.caller, e.callee)).Nodup

variable {g : Graph}

namespace WellFormed

theorem of_eq {g' : Graph} (h : g.WellFormed) (nodes : g'.nodes = g.nodes)
    (edges : g'.edges = g.edges) : g'.WellFormed := by
  constructor
  · rw [nodes]
    exact h.names_nodup
  · rw [edges, size, nodes]
    exact h.edges_lt
  · rw [edges]
    exact h.edges_nodup

end WellFormed

theorem nodup_map_push {α β : Type} {f : α → β} {xs : Array α} {x : α}
    (h : (xs.toList.map f).Nodup) (fresh : ∀ y ∈ xs, f y ≠ f x) :
    ((xs.push x).toList.map f).Nodup := by
  rw [Array.toList_push, List.map_append, List.nodup_append]
  refine ⟨h, by simp, fun a ha b hb => ?_⟩
  obtain ⟨y, hy, rfl⟩ := List.mem_map.mp ha
  rw [List.mem_singleton.mp hb]
  exact fresh y (Array.mem_toList_iff.mp hy)

theorem map_setIfInBounds_of_eq {α β : Type} {f : α → β} {xs : Array α} {i : Nat} {x y : α}
    (h : xs[i]? = some x) (same : f y = f x) :
    (xs.setIfInBounds i y).toList.map f = xs.toList.map f := by
  apply List.ext_getElem?
  intro j
  rw [Array.toList_setIfInBounds, List.map_set, List.getElem?_set]
  split
  · rename_i eq
    subst eq
    obtain ⟨lt, rfl⟩ := Array.getElem?_eq_some_iff.mp h
    simp [lt, same]
  · rfl

theorem getElem?_of_find? {g : Graph} {name : String} {i : Nat} (h : g.find? name = some i) :
    ∃ node, g.nodes[i]? = some node ∧ node.name = name := by
  obtain ⟨lt, eq, -⟩ := Array.findIdx?_eq_some_iff_getElem.mp h
  exact ⟨g.nodes[i], Array.getElem?_eq_getElem lt, by simpa using eq⟩

theorem getElem?_mention (g : Graph) (name : String) :
    ∃ node, (g.mention name).2.nodes[(g.mention name).1]? = some node ∧ node.name = name := by
  unfold mention
  split
  · rename_i i h
    exact getElem?_of_find? h
  · exact ⟨{ name }, by simp [size], rfl⟩

theorem size_le_size_mention (g : Graph) (name : String) : g.size ≤ (g.mention name).2.size := by
  unfold mention
  split
  · exact Nat.le_refl _
  · simp [size]

theorem mention_lt_size (g : Graph) (name : String) :
    (g.mention name).1 < (g.mention name).2.size := by
  obtain ⟨node, h, -⟩ := g.getElem?_mention name
  exact (Array.getElem?_eq_some_iff.mp h).1

theorem join_eq (g : Graph) (i j : Nat) (kind : EdgeKind) :
    g.join i j kind = { g with edges := (g.join i j kind).edges } := by
  unfold join
  split
  · rfl
  · split <;> rfl

theorem join_cases (g : Graph) (i j : Nat) (kind : EdgeKind) :
    (∀ e ∈ g.edges, ¬(e.caller = i ∧ e.callee = j)) ∧
        (g.join i j kind).edges = g.edges.push ⟨i, j, kind⟩ ∨
      ∃ k old, g.edges[k]? = some old ∧ old.caller = i ∧ old.callee = j ∧
        (kind = .call ∧ (g.join i j kind).edges = g.edges.setIfInBounds k ⟨i, j, .call⟩ ∨
          kind = .ref ∧ (g.join i j kind).edges = g.edges) := by
  unfold join
  split
  · rename_i missing
    refine .inl ⟨fun e he => ?_, rfl⟩
    simpa using Array.findIdx?_eq_none_iff.mp missing e he
  · rename_i k found
    obtain ⟨lt, ends, -⟩ := Array.findIdx?_eq_some_iff_getElem.mp found
    simp only [Bool.and_eq_true, beq_iff_eq] at ends
    refine .inr ⟨k, g.edges[k], Array.getElem?_eq_getElem lt, ends.1, ends.2, ?_⟩
    cases kind with
    | call => exact .inl ⟨rfl, rfl⟩
    | ref => exact .inr ⟨rfl, rfl⟩

namespace WellFormed

theorem empty : WellFormed {} := ⟨List.nodup_nil, by simp, List.nodup_nil⟩

theorem mention (h : g.WellFormed) (name : String) : (g.mention name).2.WellFormed := by
  unfold Graph.mention
  split
  · exact h
  · rename_i missing
    refine ⟨nodup_map_push h.names_nodup fun node hn => ?_, fun e he => ?_, h.edges_nodup⟩
    · simpa using Array.findIdx?_eq_none_iff.mp missing node hn
    · have := h.edges_lt e he
      simp only [size, Array.size_push] at this ⊢
      omega

theorem define (h : g.WellFormed) (name : String) (d : Definition) :
    (g.define name d).2.WellFormed := by
  obtain ⟨node, hn, eq⟩ := g.getElem?_mention name
  have mentioned := h.mention name
  unfold Graph.define
  dsimp only
  split
  · refine ⟨?_, by simpa [size] using mentioned.edges_lt, mentioned.edges_nodup⟩
    rw [map_setIfInBounds_of_eq hn eq.symm]
    exact mentioned.names_nodup
  · exact mentioned

theorem join (h : g.WellFormed) {i j : Nat} (hi : i < g.size) (hj : j < g.size)
    (kind : EdgeKind) : (g.join i j kind).WellFormed := by
  rw [join_eq]
  rcases g.join_cases i j kind with ⟨fresh, eq⟩ | ⟨k, old, there, rfl, rfl, ⟨-, eq⟩ | ⟨-, eq⟩⟩
  · rw [eq]
    refine ⟨h.names_nodup, fun e he => ?_, nodup_map_push h.edges_nodup fun e he same => ?_⟩
    · rcases Array.mem_push.mp he with he | rfl
      · exact h.edges_lt e he
      · exact ⟨hi, hj⟩
    · cases same
      exact fresh e he ⟨rfl, rfl⟩
  · rw [eq]
    refine ⟨h.names_nodup, fun e he => ?_, ?_⟩
    · rcases Array.mem_or_eq_of_mem_setIfInBounds he with he | rfl
      · exact h.edges_lt e he
      · exact ⟨hi, hj⟩
    · rw [map_setIfInBounds_of_eq (f := fun e => (e.caller, e.callee))
        (y := ⟨old.caller, old.callee, .call⟩) there rfl]
      exact h.edges_nodup
  · rw [eq]
    exact h

theorem connect (h : g.WellFormed) {g' : Graph} {caller callee : String} {kind : EdgeKind}
    (eq : g.connect caller callee kind = .ok g') : g'.WellFormed := by
  unfold Graph.connect at eq
  split at eq
  · cases eq
  · rename_i i found
    split at eq
    · cases eq
    · cases eq
      obtain ⟨node, hn, -⟩ := getElem?_of_find? found
      have lt : i < g.size := (Array.getElem?_eq_some_iff.mp hn).1
      exact (h.mention callee).join (Nat.lt_of_lt_of_le lt (g.size_le_size_mention callee))
        (g.mention_lt_size callee) kind

theorem add (h : g.WellFormed) {g' : Graph} {entry : Entry} (eq : g.add entry = .ok g') :
    g'.WellFormed := by
  cases entry with
  | mention name =>
    cases eq
    exact h.mention name
  | define name d =>
    cases eq
    exact h.define name d
  | label l name =>
    cases eq
    exact h.of_eq rfl rfl
  | edge caller callee kind => exact h.connect eq

end WellFormed

theorem exists_visibility_foldl_hideIfAlone (g : Graph) (is : List Nat) :
    ∃ v, is.foldl hideIfAlone g = { g with visibility := v } := by
  induction is generalizing g with
  | nil => exact ⟨g.visibility, rfl⟩
  | cons i is ih =>
    rw [List.foldl_cons, hideIfAlone]
    split
    · exact ih g
    · exact ih { g with visibility := g.visibility.hide (g.nameAt i) }

theorem exists_visibility_cutCallers (g : Graph) (name : String) :
    ∃ v, g.cutCallers name = { g with visibility := v } := by
  unfold cutCallers
  dsimp only
  split
  · exact ⟨_, rfl⟩
  · exact exists_visibility_foldl_hideIfAlone _ _

theorem exists_visibility_cutCallees (g : Graph) (name : String) :
    ∃ v, g.cutCallees name = { g with visibility := v } := by
  unfold cutCallees
  dsimp only
  split
  · exact ⟨_, rfl⟩
  · exact exists_visibility_foldl_hideIfAlone _ _

theorem apply_of_not_add (g : Graph) {change : Change} (h : ∀ entry, change ≠ .add entry) :
    ∃ labels visibility, g.apply change = { g with labels, visibility } ∧
      (labels = g.labels ∨ labels = ∅) := by
  cases change with
  | add entry => exact absurd rfl (h entry)
  | resetLabels => exact ⟨_, _, rfl, .inr rfl⟩
  | cutCallers name =>
    obtain ⟨v, eq⟩ := g.exists_visibility_cutCallers name
    exact ⟨g.labels, v, eq, .inl rfl⟩
  | cutCallees name =>
    obtain ⟨v, eq⟩ := g.exists_visibility_cutCallees name
    exact ⟨g.labels, v, eq, .inl rfl⟩
  | hide | keep | resetVisibility | setDefault => exact ⟨_, _, rfl, .inl rfl⟩

theorem apply_cases (g : Graph) (change : Change) :
    (∃ entry, change = .add entry ∧ g.add entry = .ok (g.apply change)) ∨
      (∃ entry e, change = .add entry ∧ g.add entry = .error e ∧ g.apply change = g) ∨
      (∀ entry, change ≠ .add entry) ∧
        ∃ labels visibility, g.apply change = { g with labels, visibility } ∧
          (labels = g.labels ∨ labels = ∅) := by
  cases change with
  | add entry =>
    cases added : g.add entry with
    | ok g' => exact .inl ⟨entry, rfl, by rw [Graph.apply, added]⟩
    | error e => exact .inr (.inl ⟨entry, e, rfl, added, by rw [Graph.apply, added]⟩)
  | _ => exact .inr (.inr ⟨nofun, g.apply_of_not_add nofun⟩)

theorem WellFormed.apply {g : Graph} (h : g.WellFormed) (change : Change) :
    (g.apply change).WellFormed := by
  rcases g.apply_cases change with ⟨entry, -, added⟩ | ⟨_, _, -, -, same⟩ |
      ⟨-, _, _, same, -⟩
  · exact h.add added
  · rwa [same]
  · rw [same]
    exact h.of_eq rfl rfl

/-- What an empty graph has and every change keeps, every graph with a history has. -/
theorem Built.induction {P : Graph → Prop} (h : g.Built) (empty : P {})
    (apply : ∀ (g : Graph) (change : Change), P g → P (g.apply change)) : P g := by
  obtain ⟨history, rfl⟩ := h
  have run : ∀ g : Graph, P g → P (history.foldl Graph.apply g) := by
    induction history with
    | nil => exact fun _ h => h
    | cons change history ih => exact fun g h => ih _ (apply g change h)
  exact run {} empty

theorem Built.wellFormed {g : Graph} (h : g.Built) : g.WellFormed :=
  h.induction .empty fun _ change held => held.apply change

end CallAtlas.Graph
