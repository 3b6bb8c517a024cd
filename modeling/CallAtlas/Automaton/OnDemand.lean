import CallAtlas.Automaton.Numbering
import CallAtlas.Automaton.Simulation
import Std.Data.HashMap
/-!
A deterministic automaton built from a nondeterministic one while it is used: a configuration gets a
number when it is first reached, and a step is taken at most once. The dead state is `none`. That
every remembered step leads where the configurations say is part of the type. Numbers and finality are
found by search here; `Tables` keeps them in tables and says the same.
-/
namespace CallAtlas

/-- State `none` stands for the empty configuration, a number for the set it numbers. -/
def Numbering.Stands (ν : Numbering) : Option Nat → IndexSet → Prop
  | none, S => S = ∅
  | some i, S => ν.get? i = some S

structure OnDemand where
  machine : Simulation
  states : Numbering := .empty
  /-- the steps taken so far, by state and name -/
  steps : Std.HashMap (Nat × String) (Option Nat) := {}
  inhabited : ∀ S ∈ states.sets, S ≠ ∅ := by intro S h; simp [Numbering.empty] at h
  steps_sound : ∀ i a r, steps[(i, a)]? = some r →
    ∃ S, states.get? i = some S ∧ states.Stands r (machine.nfa.after S a) := by
      intro i a r h; simp at h

namespace OnDemand

def ofSimulation (s : Simulation) : OnDemand := { machine := s }

instance : Inhabited OnDemand := ⟨ofSimulation .empty⟩

def size (m : OnDemand) : Nat := m.states.size

/-- The state that stands for a configuration, numbered now if it was not before. -/
def stateFor (ν : Numbering) (S : IndexSet) : Option Nat × Numbering :=
  if S = ∅ then (none, ν) else (some (ν.number S).1, (ν.number S).2)

theorem stands_stateFor (ν : Numbering) (S : IndexSet) :
    (stateFor ν S).2.Stands (stateFor ν S).1 S := by
  unfold stateFor
  split
  · assumption
  · exact ν.get?_number S

theorem stands_stateFor_of_stands {ν : Numbering} {r : Option Nat} {S : IndexSet}
    (h : ν.Stands r S) (T : IndexSet) : (stateFor ν T).2.Stands r S := by
  unfold stateFor
  split
  · exact h
  · cases r with
    | none => exact h
    | some i => exact Numbering.get?_number_of_get? h T

theorem inhabited_stateFor {ν : Numbering} (h : ∀ S ∈ ν.sets, S ≠ ∅) (T : IndexSet) :
    ∀ S ∈ (stateFor ν T).2.sets, S ≠ ∅ := by
  intro S hS
  unfold stateFor at hS
  split at hS
  · exact h S hS
  · rename_i ne
    rcases Numbering.mem_number.mp hS with hS | rfl
    · exact h S hS
    · exact ne

def meet (m : OnDemand) (machine : Simulation) (same : machine.nfa = m.machine.nfa)
    (S : IndexSet) : OnDemand where
  machine := machine
  states := (stateFor m.states S).2
  steps := m.steps
  inhabited := inhabited_stateFor m.inhabited S
  steps_sound := by
    intro i a r h
    obtain ⟨T, hT, hr⟩ := m.steps_sound i a r h
    rw [same]
    exact ⟨T, stands_stateFor_of_stands (r := some i) hT S, stands_stateFor_of_stands hr S⟩

def learn (m : OnDemand) (i : Nat) (a : String) (r : Option Nat)
    (h : ∃ S, m.states.get? i = some S ∧ m.states.Stands r (m.machine.nfa.after S a)) :
    OnDemand where
  machine := m.machine
  states := m.states
  steps := m.steps.insert (i, a) r
  inhabited := m.inhabited
  steps_sound := by
    intro j b t ht
    rw [Std.HashMap.getElem?_insert] at ht
    split at ht
    · rename_i eq
      obtain ⟨rfl, rfl⟩ := Prod.mk.inj (eq_of_beq eq)
      exact Option.some.inj ht ▸ h
    · exact m.steps_sound j b t ht

theorem step_nfa (s : Simulation) (S : IndexSet) (a : String) :
    (Automaton.step s S a).2.nfa = s.nfa := s.closeAll_nfa _

theorem step_eq (s : Simulation) (S : IndexSet) (a : String) :
    (Automaton.step s S a).1 = s.nfa.after S a :=
  s.closeAll_eq fun _ h => s.nfa.targets_lt h

def take (m : OnDemand) (i : Nat) (S : IndexSet) (h : m.states.get? i = some S) (a : String) :
    Option Nat × OnDemand :=
  let next := Automaton.step m.machine S a
  let r := (stateFor m.states next.1).1
  (r, (m.meet next.2 (step_nfa ..) next.1).learn i a r (by
    refine ⟨S, stands_stateFor_of_stands (r := some i) h next.1, ?_⟩
    show (stateFor m.states next.1).2.Stands r (next.2.nfa.after S a)
    rw [show next.2.nfa = m.machine.nfa from step_nfa .., ← step_eq m.machine S a]
    exact stands_stateFor m.states next.1))

def step (m : OnDemand) : Option Nat → String → Option Nat × OnDemand
  | none, _ => (none, m)
  | some i, a =>
    match m.steps[(i, a)]? with
    | some r => (r, m)
    | none =>
      match h : m.states.get? i with
      | none => (none, m)
      | some S => m.take i S h a

def start (m : OnDemand) : Option Nat × OnDemand :=
  let S := Automaton.start m.machine
  ((stateFor m.states S.1).1, m.meet S.2 (Simulation.closeAll_nfa ..) S.1)

def accepts (m : OnDemand) : Option Nat → Bool
  | none => false
  | some i => (m.states.get? i).any m.machine.nfa.accepting

instance : Automaton OnDemand (Option Nat) where
  start := start
  step := step
  accepts := accepts
  dead _ := Option.isNone

end OnDemand

end CallAtlas
