import CallAtlas.Automaton.Dfa
import CallAtlas.Automaton.Numbering
/-!
The subset construction: a table whose states are the sets of states that moves between sets reach,
numbered breadth first. It makes a table from a nondeterministic automaton, and from a table read
backwards. Main statement: `rows_size_complete`, every set that was met has its row. Closures are computed
afresh here; `Simulation.determinize` looks up those that are known.
-/
namespace CallAtlas

/-- Moves between sets of indices below `n`, in the order in which they are followed. -/
structure SetMoves (n : Nat) where
  out : IndexSet → List (String × IndexSet)
  below : ∀ S, ∀ move ∈ out S, move.2.Below n

/-- A table under construction: the sets met so far, and the rows of the first of them. -/
structure Subsets (n : Nat) where
  states : Numbering
  rows : Array (NameMap Nat)
  below : ∀ S ∈ states.sets, S.Below n
  rows_le : rows.size ≤ states.size
  in_range : ∀ row ∈ rows, ∀ a t, row.get? a = some t → t < states.size

namespace Subsets

/-- Turn moves to sets into moves to numbers, numbering the sets that are new. -/
def numberAll (ν : Numbering) (row : NameMap Nat) :
    List (String × IndexSet) → NameMap Nat × Numbering
  | [] => (row, ν)
  | (a, S) :: rest => numberAll (ν.number S).2 (row.put a (ν.number S).1) rest

theorem size_le_numberAll (ν : Numbering) (row : NameMap Nat) (moves : List (String × IndexSet)) :
    ν.size ≤ (numberAll ν row moves).2.size := by
  induction moves generalizing ν row with
  | nil => exact Nat.le_refl _
  | cons move rest ih => exact Nat.le_trans (ν.size_le_size_number move.2) (ih ..)

theorem numberAll_in_range {ν : Numbering} {row : NameMap Nat}
    (h : ∀ a t, row.get? a = some t → t < ν.size) (moves : List (String × IndexSet)) :
    ∀ a t, (numberAll ν row moves).1.get? a = some t → t < (numberAll ν row moves).2.size := by
  induction moves generalizing ν row with
  | nil => exact h
  | cons move rest ih =>
    refine ih fun a t ht => ?_
    rw [NameMap.get?_put] at ht
    split at ht
    · exact Option.some.inj ht ▸ ν.number_lt_size move.2
    · exact Nat.lt_of_lt_of_le (h a t ht) (ν.size_le_size_number move.2)

theorem mem_numberAll {ν : Numbering} {row : NameMap Nat} {moves : List (String × IndexSet)}
    {T : IndexSet} : T ∈ (numberAll ν row moves).2.sets ↔ T ∈ ν.sets ∨ ∃ a, (a, T) ∈ moves := by
  induction moves generalizing ν row with
  | nil => simp [numberAll]
  | cons move rest ih =>
    obtain ⟨a, S⟩ := move
    rw [numberAll, ih, Numbering.mem_number]
    constructor
    · rintro ((h | rfl) | ⟨b, h⟩)
      · exact .inl h
      · exact .inr ⟨a, by simp⟩
      · exact .inr ⟨b, by simp [h]⟩
    · rintro (h | ⟨b, h⟩)
      · exact .inl (.inl h)
      · rcases List.mem_cons.mp h with h | h
        · exact .inl (.inr (Prod.mk.inj h).2)
        · exact .inr ⟨b, h⟩

def initial {n : Nat} (S : IndexSet) (h : S.Below n) : Subsets n where
  states := (Numbering.empty.number S).2
  rows := #[]
  below := by
    intro T hT
    rcases Numbering.mem_number.mp hT with hT | rfl
    · simp [Numbering.empty] at hT
    · exact h
  rows_le := Nat.zero_le _
  in_range := by
    intro row h
    simp at h

def next {n : Nat} (c : Subsets n) (h : c.rows.size < c.states.size) : IndexSet :=
  c.states.sets[c.rows.size]

def expandBy {n : Nat} (c : Subsets n) (moves : List (String × IndexSet))
    (within : ∀ move ∈ moves, move.2.Below n) (h : c.rows.size < c.states.size) : Subsets n where
  states := (numberAll c.states ∅ moves).2
  rows := c.rows.push (numberAll c.states ∅ moves).1
  below := by
    intro T hT
    rcases mem_numberAll.mp hT with hT | ⟨a, hT⟩
    · exact c.below T hT
    · exact within _ hT
  rows_le := by
    rw [Array.size_push]
    exact Nat.le_trans h (size_le_numberAll ..)
  in_range := by
    intro row hrow a t ht
    rcases Array.mem_push.mp hrow with hrow | rfl
    · exact Nat.lt_of_lt_of_le (c.in_range row hrow a t ht) (size_le_numberAll ..)
    · exact numberAll_in_range (by simp) _ a t ht

def expand {n : Nat} (c : Subsets n) (moves : SetMoves n) (h : c.rows.size < c.states.size) :
    Subsets n :=
  c.expandBy (moves.out (c.next h)) (moves.below _) h

/-- Give every set its row, those met on the way included. There are at most two to the power of `n` sets. -/
def complete {n : Nat} (moves : SetMoves n) (c : Subsets n) : Subsets n :=
  if h : c.rows.size < c.states.size then complete moves (c.expand moves h) else c
termination_by (1 <<< n) - c.rows.size
decreasing_by
  have bound := Numbering.size_le_two_pow c.below
  have grown : (c.expand moves h).rows.size = c.rows.size + 1 := Array.size_push _
  omega

theorem rows_size_complete {n : Nat} (moves : SetMoves n) (c : Subsets n) :
    (c.complete moves).rows.size = (c.complete moves).states.size := by
  fun_induction complete moves c with
  | case1 c h ih => exact ih
  | case2 c h => exact Nat.le_antisymm c.rows_le (Nat.le_of_not_lt h)

def toDfa {n : Nat} (c : Subsets n) (done : c.rows.size = c.states.size)
    (final : IndexSet → Bool) : Dfa where
  rows := c.rows
  finals := .ofList ((List.range c.rows.size).filter fun i => (c.states.get? i).any final)
  in_range := by
    rw [done]
    exact c.in_range
  finals_below := by
    intro i h
    rw [IndexSet.mem_ofList, List.mem_filter, List.mem_range] at h
    exact h.1

end Subsets

def SetMoves.table {n : Nat} (moves : SetMoves n) (S : IndexSet) (h : S.Below n)
    (final : IndexSet → Bool) : Dfa :=
  ((Subsets.initial S h).complete moves).toDfa (Subsets.rows_size_complete ..) final

/-- Moves between configurations, for the names of an alphabet in its order; a name that no move
accepts is left out. -/
def Nfa.setMoves (n : Nfa) (alphabet : List String) : SetMoves n.size where
  out S := alphabet.filterMap fun a =>
    let qs := n.targets S a
    if qs.isEmpty then none else some (a, n.closure qs)
  below := by
    intro S move h
    obtain ⟨a, _, h⟩ := List.mem_filterMap.mp h
    dsimp only at h
    split at h
    · cases h
    · cases h
      exact n.closure_below _

/-- A table that reads the names of the alphabet as the automaton does, and no other name. -/
def Nfa.determinize (n : Nfa) (alphabet : List String) : Dfa :=
  if n.size = 0 then .empty
  else (n.setMoves alphabet).table n.initial (n.closure_below _) n.accepting

end CallAtlas
