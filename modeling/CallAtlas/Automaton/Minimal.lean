import CallAtlas.Automaton.Subset
/-!
Reversal, trimming and minimization of tables. A trimmed table has only states that some accepted
word passes through; reversing such a table twice gives the smallest table of its language. Moves into a
set are found by search here, and by a table of predecessors in `Predecessors`.
-/
namespace CallAtlas

namespace Dfa

def successors (d : Dfa) (q : Nat) : List Nat := (d.row q).entries.map (·.2)

def predecessors (d : Dfa) (q : Nat) : List Nat :=
  (List.range d.size).filter fun p => q ∈ d.successors p

def namesInto (d : Dfa) (S : IndexSet) : NameSet :=
  .ofList (d.rows.toList.flatMap fun row => (row.entries.filter (·.2 ∈ S)).map (·.1))

def movingInto (d : Dfa) (S : IndexSet) (a : String) : IndexSet :=
  .ofList ((List.range d.size).filter fun p => (d.move? p a).any (· ∈ S))

/-- Moves read backwards: on a name, a set leads to the states that move into it, by ascending
name. -/
def backward (d : Dfa) : SetMoves d.size where
  out S := (d.namesInto S).toList.map fun a => (a, d.movingInto S a)
  below := by
    intro S move h p hp
    obtain ⟨a, _, rfl⟩ := List.mem_map.mp h
    rw [movingInto, IndexSet.mem_ofList, List.mem_filter, List.mem_range] at hp
    exact hp.1

def reverse (d : Dfa) : Dfa := d.backward.table d.finals d.finals_below (0 ∈ ·)

/-- The states that are reached from state 0 and reach a final state, ascending. -/
def useful (d : Dfa) : List Nat :=
  let reached := IndexSet.ofList (walk d.successors d.size ∅ [0])
  let live := IndexSet.ofList (walk d.predecessors d.size ∅ d.finals.toList)
  (List.range d.size).filter fun q => q ∈ reached ∧ q ∈ live

/-- The part of the table on the states in `qs`, renumbered by position. -/
def restrict (d : Dfa) (qs : List Nat) : Dfa where
  rows := (qs.map fun q => (d.row q).filterMap fun _ t => qs.idxOf? t).toArray
  finals := .ofList ((List.range qs.length).filter fun i => qs[i]?.any (· ∈ d.finals))
  in_range := by
    intro row h a t ht
    obtain ⟨q, _, rfl⟩ := List.mem_map.mp (List.mem_toArray.mp h)
    rw [NameMap.get?_filterMap] at ht
    obtain ⟨u, _, hu⟩ := Option.bind_eq_some_iff.mp ht
    obtain ⟨lt, _⟩ := List.idxOf?_eq_some_iff.mp hu
    simpa using lt
  finals_below := by
    intro i h
    rw [IndexSet.mem_ofList, List.mem_filter, List.mem_range] at h
    simpa using h.1

/-- Drop the states that no accepted word passes through; the others keep their order. -/
def trim (d : Dfa) : Dfa := if 0 ∈ d.useful then d.restrict d.useful else .empty

def minimal (d : Dfa) : Dfa := d.trim.reverse.reverse

end Dfa

end CallAtlas
