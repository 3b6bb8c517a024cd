import CallAtlas.Proofs.Automaton.Interpretation
import CallAtlas.Automaton.Subset
/-!
The subset construction by a machine that remembers closures: each set of targets is closed by the machine as
it is after the sets before. Main statement: `Simulation.determinize_eq`, what is remembered does not show in
the table.
-/
namespace CallAtlas

namespace Simulation

def movesFrom (s : Simulation) (S : IndexSet) : List String → List (String × IndexSet) × Simulation
  | [] => ([], s)
  | a :: alphabet =>
    let qs := s.nfa.targets S a
    if qs.isEmpty then s.movesFrom S alphabet
    else
      let (T, s) := s.closeAll qs
      let (moves, s) := s.movesFrom S alphabet
      ((a, T) :: moves, s)

theorem nfa_movesFrom (s : Simulation) (S : IndexSet) (alphabet : List String) :
    (s.movesFrom S alphabet).2.nfa = s.nfa := by
  induction alphabet generalizing s with
  | nil => rfl
  | cons a alphabet ih =>
    rw [movesFrom]
    split
    · exact ih s
    · exact (ih _).trans (s.closeAll_nfa _)

theorem movesFrom_eq (s : Simulation) (S : IndexSet) (alphabet : List String) :
    (s.movesFrom S alphabet).1 = (s.nfa.setMoves alphabet).out S := by
  induction alphabet generalizing s with
  | nil => rfl
  | cons a alphabet ih =>
    rw [movesFrom]
    dsimp only [Nfa.setMoves] at ih ⊢
    rw [List.filterMap_cons]
    split
    · exact ih s
    · have closed := s.closeAll_eq fun q hq => s.nfa.targets_lt (S := S) (a := a) hq
      have later := ih (s.closeAll (s.nfa.targets S a)).2
      simp only [closed, later, closeAll_nfa]

variable {n : Nfa} {alphabet : List String}

theorem below_movesFrom {s : Simulation} (same : s.nfa = n) (alphabet : List String) (S : IndexSet) :
    ∀ move ∈ (s.movesFrom S alphabet).1, move.2.Below n.size := by
  subst same
  rw [movesFrom_eq]
  exact (s.nfa.setMoves alphabet).below S

def complete (n : Nfa) (alphabet : List String) (s : Simulation) (same : s.nfa = n)
    (c : Subsets n.size) : Subsets n.size × Simulation :=
  if h : c.rows.size < c.states.size then
    let next := s.movesFrom (c.next h) alphabet
    complete n alphabet next.2 ((nfa_movesFrom ..).trans same)
      (c.expandBy next.1 (below_movesFrom same alphabet _) h)
  else (c, s)
termination_by (1 <<< n.size) - c.rows.size
decreasing_by
  have bound := Numbering.size_le_two_pow c.below
  have grown : (c.expandBy _ (below_movesFrom same alphabet (c.next h)) h).rows.size = c.rows.size + 1 :=
    Array.size_push _
  omega

theorem complete_eq (alphabet : List String) (s : Simulation) (same : s.nfa = n) (c : Subsets n.size) :
    (complete n alphabet s same c).1 = c.complete (n.setMoves alphabet) ∧
      (complete n alphabet s same c).2.nfa = n := by
  fun_induction complete n alphabet s same c with
  | case1 s same c h next ih =>
    have row : c.expandBy next.1 (below_movesFrom same alphabet _) h = c.expand (n.setMoves alphabet) h := by
      unfold Subsets.expand
      congr 1
      subst same
      exact s.movesFrom_eq _ _
    rw [Subsets.complete, dif_pos h, ← row]
    exact ih
  | case2 s same c h =>
    rw [Subsets.complete, dif_neg h]
    exact ⟨rfl, same⟩

theorem rows_size_complete (s : Simulation) (same : s.nfa = n) (c : Subsets n.size) :
    (complete n alphabet s same c).1.rows.size = (complete n alphabet s same c).1.states.size := by
  rw [(complete_eq alphabet s same c).1]
  exact Subsets.rows_size_complete ..

theorem below_start (s : Simulation) : (Automaton.start s).1.Below s.nfa.size := by
  rw [start_eq]
  exact s.nfa.closure_below _

def determinize (s : Simulation) (alphabet : List String) : Dfa × Simulation :=
  if s.nfa.size = 0 then (.empty, s)
  else
    let first := Automaton.start s
    let done := complete s.nfa alphabet first.2 (s.closeAll_nfa _) (.initial first.1 s.below_start)
    (done.1.toDfa (rows_size_complete ..) s.nfa.accepting, done.2)

/-- Whatever closures are remembered before, the table is the one that is made without any. -/
theorem determinize_eq (s : Simulation) (alphabet : List String) :
    (s.determinize alphabet).1 = s.nfa.determinize alphabet ∧
      (s.determinize alphabet).2.nfa = s.nfa := by
  unfold determinize Nfa.determinize
  split
  · exact ⟨rfl, rfl⟩
  · have same := complete_eq alphabet (Automaton.start s).2 (s.closeAll_nfa _)
      (.initial (Automaton.start s).1 s.below_start)
    refine ⟨?_, same.2⟩
    dsimp only
    unfold SetMoves.table
    congr 1
    rw [same.1]
    congr 2
    exact s.start_eq

end Simulation

end CallAtlas
