import CallAtlas.Automaton.Dfa
import CallAtlas.Automaton.OnDemand
/-!
What the states of a machine stand for. A machine remembers what it computes, so it changes while it
runs; an interpretation gives each of its states the words that lead to it, and no later step takes such
a word away. Main statement: `Interpretation.recognizes_eq`; the three kinds of machines get their
interpretations below, whatever they remember.
-/
namespace CallAtlas

namespace Automaton

variable {M σ : Type} [Automaton M σ]

/-- In the machines that `m₀` becomes, `Stands m s word` holds of the states that `word` leads to. -/
structure Interpretation (m₀ : M) (language : List String → Bool)
    (Stands : M → σ → List String → Prop) : Prop where
  stands_start : Stands (start m₀).2 (start m₀).1 []
  stands_step {m : M} {s : σ} {word : List String} (h : Stands m s word) (a : String) :
    Stands (step m s a).2 (step m s a).1 (word ++ [a])
  /-- What a state stands for outlives the steps taken from other states. -/
  stands_of_step {m : M} {s t : σ} {word other : List String} (h : Stands m s word)
    (h' : Stands m t other) (a : String) : Stands (step m s a).2 t other
  accepts_eq {m : M} {s : σ} {word : List String} (h : Stands m s word) :
    accepts m s = language word
  of_dead {m : M} {s : σ} {word : List String} (h : Stands m s word) (hd : dead m s = true)
    (rest : List String) : language (word ++ rest) = false

namespace Interpretation

variable {m₀ : M} {language : List String → Bool} {Stands : M → σ → List String → Prop}

theorem read_eq (meaning : Interpretation m₀ language Stands) {m : M} {s : σ} {word : List String}
    (h : Stands m s word) (rest : List String) :
    (read m s rest).1 = language (word ++ rest) := by
  induction rest generalizing m s word with
  | nil =>
    rw [List.append_nil]
    exact meaning.accepts_eq h
  | cons a rest ih =>
    rw [read]
    split
    · rename_i hd
      exact (meaning.of_dead h hd (a :: rest)).symm
    · have next := ih (meaning.stands_step h a)
      rwa [List.append_assoc] at next

theorem stands_of_read (meaning : Interpretation m₀ language Stands) {m : M} {s t : σ}
    {word other : List String} (h : Stands m s word) (h' : Stands m t other) (rest : List String) :
    Stands (read m s rest).2 t other := by
  induction rest generalizing m s word with
  | nil => exact h'
  | cons a rest ih =>
    rw [read]
    split
    · exact h'
    · exact ih (meaning.stands_step h a) (meaning.stands_of_step h h' a)

theorem recognizes_eq (meaning : Interpretation m₀ language Stands) (word : List String) :
    (recognizes m₀ word).1 = language word :=
  meaning.read_eq meaning.stands_start word

end Interpretation

end Automaton

open Automaton (Interpretation)

namespace Nfa

def language (n : Nfa) (word : List String) : Bool := n.accepting (n.run word)

theorem run_append (n : Nfa) (word rest : List String) :
    n.run (word ++ rest) = rest.foldl n.after (n.run word) := List.foldl_append

theorem targets_empty (n : Nfa) (a : String) : n.targets ∅ a = [] := by
  have none : (∅ : IndexSet).toList = [] := by
    apply List.eq_nil_iff_forall_not_mem.mpr
    intro q
    rw [IndexSet.mem_toList]
    exact IndexSet.not_mem_empty q
  rw [targets, none, List.flatMap_nil]

theorem closure_nil (n : Nfa) : n.closure [] = ∅ := by
  rw [closure, walk]
  rfl

theorem after_empty (n : Nfa) (a : String) : n.after ∅ a = ∅ := by
  rw [after, targets_empty, closure_nil]

theorem foldl_after_empty (n : Nfa) (rest : List String) : rest.foldl n.after ∅ = ∅ := by
  induction rest with
  | nil => rfl
  | cons a rest ih => rw [List.foldl_cons, after_empty, ih]

theorem accepting_empty (n : Nfa) : n.accepting ∅ = false := by
  rw [accepting, List.any_eq_false]
  intro q hq
  exact absurd (IndexSet.mem_toList.mp hq) (IndexSet.not_mem_empty q)

theorem language_of_run_eq_empty {n : Nfa} {word : List String} (h : n.run word = ∅)
    (rest : List String) : n.language (word ++ rest) = false := by
  rw [language, run_append, h, foldl_after_empty, accepting_empty]

end Nfa

namespace Simulation

theorem start_eq (s : Simulation) : (Automaton.start s).1 = s.nfa.initial := by
  by_cases inhabited : 0 < s.nfa.size
  · exact s.closeAll_eq (by simpa using inhabited)
  · have left : (s.closeAll [0]).1 = ∅ := by
      simp only [closeAll, closure, dif_neg inhabited]
      rfl
    have right : s.nfa.initial = ∅ := by
      rw [Nfa.initial, Nfa.closure, walk, dif_neg (fun h => inhabited h.1), walk]
      rfl
    exact left.trans right.symm

theorem interpretation (m : Simulation) :
    Interpretation m m.nfa.language fun s S word => s.nfa = m.nfa ∧ S = m.nfa.run word where
  stands_start := ⟨m.closeAll_nfa _, m.start_eq⟩
  stands_step := by
    rintro s S word ⟨same, rfl⟩ a
    refine ⟨(OnDemand.step_nfa s _ a).trans same, ?_⟩
    rw [OnDemand.step_eq, same, Nfa.run_append]
    rfl
  stands_of_step := by
    rintro s S T word other ⟨same, -⟩ ⟨-, rfl⟩ a
    exact ⟨(OnDemand.step_nfa s S a).trans same, rfl⟩
  accepts_eq := by
    rintro s S word ⟨same, rfl⟩
    exact congrArg (Nfa.accepting · _) same
  of_dead := by
    rintro s S word ⟨-, rfl⟩ hd rest
    apply Nfa.language_of_run_eq_empty
    ext q
    simpa using IndexSet.isEmpty_iff.mp hd q

end Simulation

namespace OnDemand

def Follows (n : Nfa) (m : OnDemand) (s : Option Nat) (word : List String) : Prop :=
  m.machine.nfa = n ∧ m.states.Stands s (n.run word)

theorem step_some (m : OnDemand) {i : Nat} {S : IndexSet} (h : m.states.get? i = some S)
    (a : String) : m.step (some i) a =
      match m.steps[(i, a)]? with
      | some r => (r, m)
      | none => m.take i S h a := by
  cases known : m.steps[(i, a)]? with
  | some r => simp only [step, known]
  | none =>
    simp only [step, known]
    split
    · rename_i missing
      cases missing.symm.trans h
    · rename_i T hT
      cases Option.some.inj (hT.symm.trans h)
      rfl

theorem stands_take (m : OnDemand) {i : Nat} {S : IndexSet} (h : m.states.get? i = some S)
    (a : String) :
    (m.take i S h a).2.states.Stands (m.take i S h a).1 (m.machine.nfa.after S a) := by
  rw [← step_eq]
  exact stands_stateFor m.states _

theorem Follows.step {n : Nfa} {m : OnDemand} {s : Option Nat} {word : List String}
    (h : Follows n m s word) (a : String) :
    Follows n (m.step s a).2 (m.step s a).1 (word ++ [a]) := by
  obtain ⟨rfl, stands⟩ := h
  have run_snoc : m.machine.nfa.run (word ++ [a]) = m.machine.nfa.after (m.machine.nfa.run word) a :=
    m.machine.nfa.run_append word [a]
  cases s with
  | none =>
    refine ⟨rfl, ?_⟩
    have none : m.machine.nfa.run word = ∅ := stands
    show m.machine.nfa.run (word ++ [a]) = ∅
    rw [run_snoc, none, Nfa.after_empty]
  | some i =>
    have numbered : m.states.get? i = some (m.machine.nfa.run word) := stands
    rw [m.step_some numbered]
    split
    · rename_i r known
      obtain ⟨S, hS, hr⟩ := m.steps_sound i a r known
      cases Option.some.inj (hS.symm.trans numbered)
      exact ⟨rfl, run_snoc ▸ hr⟩
    · exact ⟨step_nfa m.machine _ a, run_snoc ▸ m.stands_take numbered a⟩

theorem Follows.lasting {n : Nfa} {m : OnDemand} {s t : Option Nat} {word other : List String}
    (h : Follows n m s word) (h' : Follows n m t other) (a : String) :
    Follows n (m.step s a).2 t other := by
  obtain ⟨same, stands⟩ := h'
  cases s with
  | none => exact ⟨same, stands⟩
  | some i =>
    have numbered : m.states.get? i = some (n.run word) := h.2
    rw [m.step_some numbered]
    split
    · exact ⟨same, stands⟩
    · exact ⟨(step_nfa m.machine _ a).trans same, stands_stateFor_of_stands stands _⟩

theorem interpretation (m : OnDemand) :
    Interpretation m m.machine.nfa.language (Follows m.machine.nfa) where
  stands_start := by
    refine ⟨m.machine.closeAll_nfa _, ?_⟩
    rw [show m.machine.nfa.run [] = (Automaton.start m.machine).1 from m.machine.start_eq.symm]
    exact stands_stateFor m.states _
  stands_step h a := h.step a
  stands_of_step h h' a := h.lasting h' a
  accepts_eq := by
    rintro m' s word ⟨same, stands⟩
    cases s with
    | none =>
      have none : m.machine.nfa.run word = ∅ := stands
      rw [Nfa.language, none, Nfa.accepting_empty]
      rfl
    | some i =>
      have numbered : m'.states.get? i = some (m.machine.nfa.run word) := stands
      show (m'.states.get? i).any m'.machine.nfa.accepting = _
      rw [numbered, same]
      rfl
  of_dead := by
    rintro m' s word ⟨-, stands⟩ hd rest
    cases s with
    | none => exact Nfa.language_of_run_eq_empty stands rest
    | some i => cases hd

end OnDemand

namespace Dfa

/-- The state after a word; a word that leaves the table has none. -/
def run (d : Dfa) (word : List String) : Option Nat :=
  word.foldl (fun s a => s.bind fun q => d.move? q a) (if 0 < d.size then some 0 else none)

def language (d : Dfa) (word : List String) : Bool := (d.run word).any (· ∈ d.finals)

theorem run_append (d : Dfa) (word rest : List String) :
    d.run (word ++ rest) = rest.foldl (fun s a => s.bind fun q => d.move? q a) (d.run word) :=
  List.foldl_append

theorem run_snoc (d : Dfa) (word : List String) (a : String) :
    d.run (word ++ [a]) = (d.run word).bind fun q => d.move? q a := d.run_append word [a]

theorem foldl_move?_none (d : Dfa) (rest : List String) :
    rest.foldl (fun s a => s.bind fun q => d.move? q a) none = none := by
  induction rest with
  | nil => rfl
  | cons a rest ih => exact ih

theorem run_empty (word : List String) : Dfa.empty.run word = none := foldl_move?_none _ word

theorem interpretation (d : Dfa) :
    Interpretation d d.language fun d' s word => d' = d ∧ s = d.run word where
  stands_start := ⟨rfl, rfl⟩
  stands_step := by
    rintro d' s word ⟨rfl, rfl⟩ a
    exact ⟨rfl, (d'.run_snoc word a).symm⟩
  stands_of_step := by
    rintro d' s t word other ⟨rfl, -⟩ ⟨-, rfl⟩ a
    exact ⟨rfl, rfl⟩
  accepts_eq := by
    rintro d' s word ⟨rfl, rfl⟩
    rfl
  of_dead := by
    rintro d' s word ⟨rfl, rfl⟩ hd rest
    have none : d'.run word = none := Option.isNone_iff_eq_none.mp hd
    rw [language, run_append, none, foldl_move?_none]
    rfl

theorem recognizes_eq_language (d : Dfa) (word : List String) :
    (Automaton.recognizes d word).1 = d.language word := d.interpretation.recognizes_eq word

end Dfa

end CallAtlas
