import CallAtlas.Automaton.Basic
import CallAtlas.Walk
/-!
Nondeterministic automata with silent moves. State 0 is initial. A configuration is the set of states
the machine may be in, closed under silent moves. Main statements: `mem_closure`, and that
configurations stay within the states of the machine.
-/
namespace CallAtlas

inductive MissingState where
  /-- the state a move should enter, or that should become final -/
  | target (q : Nat)
  /-- the state a move should leave, or that should be closed -/
  | source (q : Nat)
deriving DecidableEq, Repr

/-- What leaves one state: moves that read a name, and silent moves, in the order they were added. -/
structure Nfa.Row where
  moves : List (Predicate × Nat) := []
  silent : List Nat := []

instance : Inhabited Nfa.Row := ⟨{}⟩

def Nfa.Row.InRange (row : Nfa.Row) (n : Nat) : Prop :=
  (∀ move ∈ row.moves, move.2 < n) ∧ ∀ q ∈ row.silent, q < n

theorem Nfa.Row.InRange.mono {row : Nfa.Row} {m n : Nat} (h : row.InRange m) (le : m ≤ n) :
    row.InRange n :=
  ⟨fun move hm => Nat.lt_of_lt_of_le (h.1 move hm) le,
    fun q hq => Nat.lt_of_lt_of_le (h.2 q hq) le⟩

structure Nfa where
  rows : Array Nfa.Row := #[]
  finals : IndexSet := ∅
  /-- every move enters a state of the machine -/
  in_range : ∀ row ∈ rows, row.InRange rows.size := by intro row h; simp at h

namespace Nfa

def empty : Nfa := {}

instance : Inhabited Nfa := ⟨empty⟩

def size (n : Nfa) : Nat := n.rows.size

def row (n : Nfa) (q : Nat) : Row := n.rows[q]?.getD {}

def silent (n : Nfa) (q : Nat) : List Nat := (n.row q).silent

def moves (n : Nfa) (q : Nat) : List (Predicate × Nat) := (n.row q).moves

theorem row_in_range (n : Nfa) (q : Nat) : (n.row q).InRange n.size := by
  unfold row
  cases h : n.rows[q]? with
  | none => exact ⟨by simp, by simp⟩
  | some row => exact n.in_range row (Array.mem_of_getElem? h)

def addState (n : Nfa) : Nfa where
  rows := n.rows.push {}
  finals := n.finals
  in_range := by
    intro row h
    rcases Array.mem_push.mp h with h | rfl
    · exact (n.in_range row h).mono (by simp)
    · exact ⟨by simp, by simp⟩

def setRow (n : Nfa) (q : Nat) (row : Row) (h : row.InRange n.size) : Nfa where
  rows := n.rows.setIfInBounds q row
  finals := n.finals
  in_range := by
    intro row' h'
    rw [Array.size_setIfInBounds]
    rcases Array.mem_or_eq_of_mem_setIfInBounds h' with h' | rfl
    · exact n.in_range row' h'
    · exact h

/-- Add a move from `q` to `t` on the names that `p` accepts. Without state `t`, or without state
`q`, the machine stays as it is. -/
def addMove (n : Nfa) (q : Nat) (p : Predicate) (t : Nat) : Nfa :=
  if ht : t < n.size then
    n.setRow q { n.row q with moves := (n.row q).moves ++ [(p, t)] } (by
      refine ⟨fun move h => ?_, (n.row_in_range q).2⟩
      rcases List.mem_append.mp h with h | h
      · exact (n.row_in_range q).1 move h
      · rw [List.mem_singleton.mp h]
        exact ht)
  else n

/-- Add a silent move from `q` to `t`. Without state `t`, or without state `q`, the machine stays as
it is. -/
def addSilent (n : Nfa) (q t : Nat) : Nfa :=
  if ht : t < n.size then
    n.setRow q { n.row q with silent := (n.row q).silent ++ [t] } (by
      refine ⟨(n.row_in_range q).1, fun r h => ?_⟩
      rcases List.mem_append.mp h with h | h
      · exact (n.row_in_range q).2 r h
      · rw [List.mem_singleton.mp h]
        exact ht)
  else n

def markFinal (n : Nfa) (q : Nat) : Nfa := { n with finals := n.finals.insert q }

/-- The states reached from `qs` by silent moves alone, those of `qs` included. -/
def closure (n : Nfa) (qs : List Nat) : IndexSet := .ofList (walk n.silent n.size ∅ qs)

def targets (n : Nfa) (S : IndexSet) (a : String) : List Nat :=
  S.toList.flatMap fun q => ((n.moves q).filter fun move => move.1 a).map (·.2)

def initial (n : Nfa) : IndexSet := n.closure [0]

def after (n : Nfa) (S : IndexSet) (a : String) : IndexSet := n.closure (n.targets S a)

def accepting (n : Nfa) (S : IndexSet) : Bool := S.toList.any (· ∈ n.finals)

def run (n : Nfa) (word : List String) : IndexSet := word.foldl n.after n.initial

theorem moves_lt (n : Nfa) {q : Nat} {move : Predicate × Nat} (h : move ∈ n.moves q) :
    move.2 < n.size := (n.row_in_range q).1 move h

theorem silent_lt (n : Nfa) {q t : Nat} (h : t ∈ n.silent q) : t < n.size :=
  (n.row_in_range q).2 t h

theorem targets_lt (n : Nfa) {S : IndexSet} {a : String} {t : Nat} (h : t ∈ n.targets S a) :
    t < n.size := by
  obtain ⟨q, _, h⟩ := List.mem_flatMap.mp h
  obtain ⟨move, hm, rfl⟩ := List.mem_map.mp h
  exact n.moves_lt (List.mem_filter.mp hm).1

theorem closure_below (n : Nfa) (qs : List Nat) : (n.closure qs).Below n.size := fun _ h =>
  (not_mem_seen_of_mem_walk (IndexSet.mem_ofList.mp h)).1

theorem mem_closure (n : Nfa) {qs : List Nat} (h : ∀ q ∈ qs, q < n.size) {r : Nat} :
    r ∈ n.closure qs ↔ ∃ q ∈ qs, Reaches n.silent q r := by
  rw [closure, IndexSet.mem_ofList, mem_walk_empty (fun p _ q hq => n.silent_lt hq) h]

theorem closure_cons (n : Nfa) {q : Nat} {qs : List Nat} (h : ∀ p ∈ q :: qs, p < n.size) :
    n.closure (q :: qs) = n.closure [q] ∪ n.closure qs := by
  ext r
  rw [IndexSet.mem_union, n.mem_closure h, n.mem_closure (by simpa using h q (by simp)),
    n.mem_closure fun p hp => h p (by simp [hp])]
  simp

end Nfa

end CallAtlas
