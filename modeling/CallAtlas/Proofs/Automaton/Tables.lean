import CallAtlas.Proofs.Automaton.Interpretation
/-!
A machine that is built on demand, kept in tables: the number of each configuration, the numbers that are
final, and a row of steps for each number. Main statements: `Mirrors.step`, a step that reads and writes the
tables leads where it leads without them, and `Mirrors.traceFrom` and `Mirrors.recognizes`, so does a word.
-/
namespace CallAtlas

structure Tables where
  machine : Simulation
  sets : Array IndexSet := #[]
  rows : Array (Std.HashMap String (Option Nat)) := #[]
  numbers : Std.HashMap IndexSet Nat := {}
  finals : IndexSet := ∅

namespace Tables

/-- The number of a configuration. One that has none is entered in every table. -/
def stateFor (x : Tables) (S : IndexSet) : Option Nat × Tables :=
  if S = ∅ then (none, x)
  else
    match x.numbers[S]? with
    | some i => (some i, x)
    | none =>
      let i := x.sets.size
      (some i, { x with
        sets := x.sets.push S
        rows := x.rows.push {}
        numbers := x.numbers.insert S i
        finals := if x.machine.nfa.accepting S then x.finals.insert i else x.finals })

def known? (x : Tables) (i : Nat) (a : String) : Option (Option Nat) :=
  x.rows[i]?.bind fun row => row[a]?

def learn (x : Tables) (i : Nat) (a : String) (r : Option Nat) : Tables :=
  { x with rows := x.rows.modify i (·.insert a r) }

def start (x : Tables) : Option Nat × Tables :=
  let (S, machine) := Automaton.start x.machine
  stateFor { x with machine } S

def step (x : Tables) : Option Nat → String → Option Nat × Tables
  | none, _ => (none, x)
  | some i, a =>
    match x.known? i a with
    | some r => (r, x)
    | none =>
      match x.sets[i]? with
      | none => (none, x)
      | some S =>
        let (T, machine) := Automaton.step x.machine S a
        let (r, x) := stateFor { x with machine } T
        (r, x.learn i a r)

def accepts (x : Tables) : Option Nat → Bool
  | none => false
  | some i => i ∈ x.finals

instance : Automaton Tables (Option Nat) where
  start := start
  step := step
  accepts := accepts
  dead _ := Option.isNone

/-- The tables say what the machine finds by search. -/
structure Mirrors (x : Tables) (m : OnDemand) : Prop where
  machine : x.machine = m.machine
  sets : x.sets = m.states.sets
  rows_size : x.rows.size = m.states.size
  known : ∀ i a, x.known? i a = m.steps[(i, a)]?
  numbers : ∀ S i, x.numbers[S]? = some i ↔ m.states.get? i = some S
  finals : ∀ i, i ∈ x.finals ↔ (m.states.get? i).any m.machine.nfa.accepting = true

variable {x : Tables} {m : OnDemand}

theorem mirrors_ofSimulation (s : Simulation) : Mirrors { machine := s } (.ofSimulation s) where
  machine := rfl
  sets := rfl
  rows_size := rfl
  known i a := by simp [known?, OnDemand.ofSimulation]
  numbers S i := by simp [OnDemand.ofSimulation, Numbering.get?, Numbering.empty]
  finals i := by simp [OnDemand.ofSimulation, Numbering.get?, Numbering.empty]

theorem Mirrors.of_states (h : x.Mirrors m) {machine : Simulation} (same : machine.nfa = m.machine.nfa)
    {m' : OnDemand} (states : m'.states = m.states) (steps : m'.steps = m.steps)
    (turned : m'.machine = machine) : Mirrors { x with machine } m' where
  machine := turned.symm
  sets := by rw [states]; exact h.sets
  rows_size := by rw [states]; exact h.rows_size
  known := by rw [steps]; exact h.known
  numbers := by rw [states]; exact h.numbers
  finals := by rw [states, turned, same]; exact h.finals

theorem not_mem_of_getElem?_eq_none (h : x.Mirrors m) {S : IndexSet} (fresh : x.numbers[S]? = none) :
    S ∉ m.states.sets := by
  intro there
  obtain ⟨i, found⟩ := Array.mem_iff_getElem?.mp there
  rw [(h.numbers S i).mpr found] at fresh
  cases fresh

theorem Mirrors.push (h : x.Mirrors m) {machine : Simulation} (same : machine.nfa = m.machine.nfa)
    {S : IndexSet} (fresh : x.numbers[S]? = none) {m' : OnDemand}
    (states : m'.states.sets = m.states.sets.push S) (steps : m'.steps = m.steps)
    (turned : m'.machine = machine) :
    Mirrors { x with
      machine
      sets := x.sets.push S
      rows := x.rows.push {}
      numbers := x.numbers.insert S x.sets.size
      finals := if machine.nfa.accepting S then x.finals.insert x.sets.size else x.finals } m' := by
  have missing := not_mem_of_getElem?_eq_none h fresh
  have size : x.sets.size = m.states.sets.size := congrArg Array.size h.sets
  have out : m.states.get? m.states.sets.size = none := Array.getElem?_eq_none (Nat.le_refl _)
  have get (i : Nat) : m'.states.get? i =
      if i = m.states.sets.size then some S else m.states.get? i := by
    rw [Numbering.get?, states, Array.getElem?_push, Numbering.get?]
  constructor
  case machine => exact turned.symm
  case sets => rw [states, h.sets]
  case rows_size =>
    rw [Array.size_push, h.rows_size, Numbering.size, Numbering.size, states, Array.size_push]
  case known =>
    intro i a
    rw [steps, ← h.known i a, known?, known?, Array.getElem?_push]
    split
    · rename_i last
      rw [last, Array.getElem?_eq_none (Nat.le_refl _)]
      exact Std.HashMap.getElem?_empty
    · rfl
  case numbers =>
    intro T i
    rw [Std.HashMap.getElem?_insert, get, size]
    by_cases last : i = m.states.sets.size <;> by_cases same : S = T
    · simp [last, same]
    · have unused : x.numbers[T]? ≠ some m.states.sets.size := fun used => by
        rw [h.numbers, out] at used
        cases used
      simp [last, same, unused]
    · have elsewhere : m.states.get? i ≠ some T := fun found =>
        missing (same ▸ Array.mem_of_getElem? found)
      simp [last, same, Ne.symm last, elsewhere]
    · simp [last, same, h.numbers]
  case finals =>
    intro i
    have unused : m.states.sets.size ∉ x.finals := by
      rw [h.finals, out]
      exact Bool.false_ne_true
    rw [get, turned, size, same]
    by_cases last : i = m.states.sets.size <;> cases final : m.machine.nfa.accepting S <;>
      simp [last, final, unused, h.finals]

theorem Mirrors.stateFor (h : x.Mirrors m) (machine : Simulation) (same : machine.nfa = m.machine.nfa)
    (S : IndexSet) : (stateFor { x with machine } S).1 = (OnDemand.stateFor m.states S).1 ∧
      (stateFor { x with machine } S).2.Mirrors (m.meet machine same S) := by
  by_cases empty : S = ∅
  · have met : OnDemand.stateFor m.states S = (none, m.states) := if_pos empty
    rw [Tables.stateFor, if_pos empty, met]
    exact ⟨rfl, h.of_states same (congrArg Prod.snd met) rfl rfl⟩
  · have met : OnDemand.stateFor m.states S = (some (m.states.number S).1, (m.states.number S).2) :=
      if_neg empty
    rw [Tables.stateFor, if_neg empty, met]
    dsimp only
    cases known : x.numbers[S]? with
    | some i =>
      have numbered := Numbering.number_of_get? ((h.numbers S i).mp known)
      rw [numbered] at met ⊢
      exact ⟨rfl, h.of_states same (congrArg Prod.snd met) rfl rfl⟩
    | none =>
      have numbered := Numbering.number_of_not_mem (not_mem_of_getElem?_eq_none h known)
      rw [numbered] at met ⊢
      have size : x.sets.size = m.states.size := congrArg Array.size h.sets
      exact ⟨congrArg some size, h.push same known (congrArg (·.2.sets) met) rfl rfl⟩

theorem Mirrors.learn (h : x.Mirrors m) {i : Nat} (lt : i < m.states.size) (a : String) (r : Option Nat)
    {m' : OnDemand} (machine : m'.machine = m.machine) (states : m'.states = m.states)
    (steps : m'.steps = m.steps.insert (i, a) r) : Mirrors (x.learn i a r) m' where
  machine := h.machine.trans machine.symm
  sets := by rw [states]; exact h.sets
  rows_size := by rw [states]; exact Array.size_modify.trans h.rows_size
  known j b := by
    obtain ⟨row, there⟩ : ∃ row, x.rows[i]? = some row :=
      ⟨_, Array.getElem?_eq_getElem (h.rows_size ▸ lt)⟩
    show ((x.rows.modify i (·.insert a r))[j]?).bind (fun row => row[b]?) = _
    rw [steps, Array.getElem?_modify, Std.HashMap.getElem?_insert, ← h.known j b, known?]
    by_cases here : i = j
    · subst here
      rw [there]
      simp [Std.HashMap.getElem?_insert]
    · simp [here]
  numbers := by rw [states]; exact h.numbers
  finals := by rw [states, machine]; exact h.finals

theorem Mirrors.start (h : x.Mirrors m) : (Automaton.start x).1 = (Automaton.start m).1 ∧
    (Automaton.start x).2.Mirrors (Automaton.start m).2 := by
  show (Tables.start x).1 = m.start.1 ∧ (Tables.start x).2.Mirrors m.start.2
  rw [Tables.start, OnDemand.start, h.machine]
  exact h.stateFor (Automaton.start m.machine).2 (Simulation.closeAll_nfa ..) (Automaton.start m.machine).1

/-- A step with tables leads where the step without them leads, and leaves tables that are as good. -/
theorem Mirrors.step (h : x.Mirrors m) (s : Option Nat) (a : String) :
    (Automaton.step x s a).1 = (Automaton.step m s a).1 ∧
      (Automaton.step x s a).2.Mirrors (Automaton.step m s a).2 := by
  show (Tables.step x s a).1 = (m.step s a).1 ∧ (Tables.step x s a).2.Mirrors (m.step s a).2
  cases s with
  | none => exact ⟨rfl, h⟩
  | some i =>
    have sets : x.sets[i]? = m.states.get? i := by rw [h.sets, Numbering.get?]
    cases known : m.steps[(i, a)]? with
    | some r =>
      simp only [Tables.step, OnDemand.step, h.known, known]
      exact ⟨trivial, h⟩
    | none =>
      cases found : m.states.get? i with
      | none =>
        have stuck : m.step (some i) a = (none, m) := by
          simp only [OnDemand.step, known]
          split
          · rfl
          · simp_all
        simp only [stuck, Tables.step, h.known, known, sets, found]
        exact ⟨trivial, h⟩
      | some S =>
        obtain ⟨same, met⟩ := h.stateFor (Automaton.step m.machine S a).2 (OnDemand.step_nfa ..)
          (Automaton.step m.machine S a).1
        have lt : i < (OnDemand.stateFor m.states (Automaton.step m.machine S a).1).2.size :=
          Numbering.lt_size_of_get? (OnDemand.stands_stateFor_of_stands (r := some i) found _)
        simp only [m.step_some found, Tables.step, h.known, known, sets, found, h.machine, same]
        exact ⟨rfl, met.learn lt a _ rfl rfl rfl⟩

theorem Mirrors.visit (h : x.Mirrors m) (s : Option Nat) :
    Automaton.visit x s = Automaton.visit m s := by
  have accepts : Tables.accepts x s = m.accepts s := by
    cases s with
    | none => rfl
    | some i =>
      rw [Tables.accepts, OnDemand.accepts, Bool.eq_iff_iff, decide_eq_true_eq]
      exact h.finals i
  exact congrArg (Automaton.Visit.mk s · s.isNone) accepts

theorem Mirrors.traceFrom (h : x.Mirrors m) (s : Option Nat) (word : List String) :
    (Automaton.traceFrom x s word).1 = (Automaton.traceFrom m s word).1 ∧
      (Automaton.traceFrom x s word).2.Mirrors (Automaton.traceFrom m s word).2 := by
  induction word generalizing x m s with
  | nil => exact ⟨congrArg (fun visit => [visit]) (h.visit s), h⟩
  | cons a word ih =>
    rw [Automaton.traceFrom, Automaton.traceFrom, h.visit s]
    have next := h.step s a
    revert next
    obtain ⟨t, x'⟩ := Automaton.step x s a
    obtain ⟨t', m'⟩ := Automaton.step m s a
    rintro ⟨rfl, next⟩
    obtain ⟨visits, last⟩ := ih next t
    exact ⟨congrArg (Automaton.visit m s :: ·) visits, last⟩

theorem Mirrors.read (h : x.Mirrors m) (s : Option Nat) (word : List String) :
    (Automaton.read x s word).1 = (Automaton.read m s word).1 ∧
      (Automaton.read x s word).2.Mirrors (Automaton.read m s word).2 := by
  induction word generalizing x m s with
  | nil => exact ⟨congrArg Automaton.Visit.accepted (h.visit s), h⟩
  | cons a word ih =>
    rw [Automaton.read, Automaton.read]
    cases s with
    | none => exact ⟨rfl, h⟩
    | some i =>
      have next := h.step (some i) a
      revert next
      obtain ⟨t, x'⟩ := Automaton.step x (some i) a
      obtain ⟨t', m'⟩ := Automaton.step m (some i) a
      rintro ⟨rfl, next⟩
      exact ih next t

theorem Mirrors.recognizes (h : x.Mirrors m) (word : List String) :
    (Automaton.recognizes x word).1 = (Automaton.recognizes m word).1 ∧
      (Automaton.recognizes x word).2.Mirrors (Automaton.recognizes m word).2 := by
  rw [Automaton.recognizes, Automaton.recognizes]
  have begun := h.start
  revert begun
  obtain ⟨s, x'⟩ := Automaton.start x
  obtain ⟨s', m'⟩ := Automaton.start m
  rintro ⟨rfl, begun⟩
  exact begun.read s word

theorem recognizes_eq (s : Simulation) (word : List String) :
    (Automaton.recognizes ({ machine := s } : Tables) word).1 = s.nfa.language word :=
  ((mirrors_ofSimulation s).recognizes word).1.trans
    ((OnDemand.ofSimulation s).interpretation.recognizes_eq word)

end Tables

end CallAtlas
