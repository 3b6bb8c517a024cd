import CallAtlas.Proofs.Automaton.Interpretation
import Mathlib.Data.List.Infix
/-!
One machine built on demand that is asked many things in any order: for its start state, for a step from
a state it returned at any time before, whether it recognizes a word. Main statements: `Sound.ask`, one
question leaves every state returned before with its meaning, and `faithful_hold`, whatever was asked,
states and verdicts are those of the nondeterministic automaton.
-/
namespace CallAtlas

namespace Automaton

variable {M σ : Type} [Automaton M σ] {m₀ m : M} {language : List String → Bool}
  {Stands : M → σ → List String → Prop} {s : σ} {word : List String}

theorem Interpretation.map_traceFrom (meaning : Interpretation m₀ language Stands) {β : Type}
    (seen : Visit σ → β) (expected : List String → β)
    (agrees : ∀ {m : M} {s : σ} {word : List String}, Stands m s word →
      seen (visit m s) = expected word) (h : Stands m s word) (rest : List String) :
    (traceFrom m s rest).1.map seen = rest.inits.map fun u => expected (word ++ u) := by
  induction rest generalizing m s word with
  | nil => simp [traceFrom, agrees h]
  | cons a rest ih =>
    have tail := ih (meaning.stands_step h a)
    simp [traceFrom, agrees h, tail, Function.comp_def]

theorem Interpretation.map_trace (meaning : Interpretation m₀ language Stands) (word : List String) :
    (trace m₀ word).1.map Visit.accepted = word.inits.map language := by
  have seen := meaning.map_traceFrom Visit.accepted language (fun h => meaning.accepts_eq h)
    meaning.stands_start word
  simpa [trace] using seen

end Automaton

namespace OnDemand

variable {n : Nfa} {m : OnDemand} {s t : Option Nat} {word other : List String}

theorem ne_empty_of_get? (m : OnDemand) {i : Nat} {S : IndexSet} (h : m.states.get? i = some S) :
    S ≠ ∅ := m.inhabited S (Array.mem_of_getElem? h)

theorem Follows.eq_none_iff (h : Follows n m s word) : s = none ↔ n.run word = ∅ := by
  cases s with
  | none => exact ⟨fun _ => h.2, fun _ => rfl⟩
  | some i => exact ⟨nofun, fun empty => absurd empty (m.ne_empty_of_get? h.2)⟩

theorem Follows.eq_iff (h : Follows n m s word) (h' : Follows n m t other) :
    s = t ↔ n.run word = n.run other := by
  constructor
  · rintro rfl
    cases s with
    | none => exact h.2.trans h'.2.symm
    | some i => exact Option.some.inj (h.2.symm.trans h'.2)
  · intro same
    cases s with
    | none => exact (h'.eq_none_iff.mpr (same ▸ h.2)).symm
    | some i =>
      cases t with
      | none => exact h.eq_none_iff.mpr (same.trans h'.2)
      | some j =>
        have stands : m.states.get? j = some (n.run word) := same ▸ h'.2
        exact congrArg some (Numbering.eq_of_get? h.2 stands)

theorem Follows.restart (h : Follows n m s word) : Follows n m.start.2 s word :=
  ⟨(m.machine.closeAll_nfa _).trans h.1, stands_stateFor_of_stands h.2 _⟩

end OnDemand

/-- Something to ask of a machine. A step is taken from a state that was returned before; states are
counted from the newest. -/
inductive Query where
  | start
  | step (k : Nat) (a : String)
  | recognize (word : List String)
deriving DecidableEq, Repr

structure Dialogue where
  machine : OnDemand
  /-- the states it returned, each with the word it was returned for -/
  returned : List (List String × Option Nat) := []
  /-- the words it was given as a whole, and whether it recognized them -/
  verdicts : List (List String × Bool) := []

namespace Dialogue

/-- Where no such state was returned, no step is taken. -/
def ask (d : Dialogue) : Query → Dialogue
  | .start =>
    let (s, m) := Automaton.start d.machine
    { d with machine := m, returned := ([], s) :: d.returned }
  | .step k a =>
    match d.returned[k]? with
    | none => d
    | some (word, s) =>
      let (t, m) := Automaton.step d.machine s a
      { d with machine := m, returned := (word ++ [a], t) :: d.returned }
  | .recognize word =>
    let (verdict, m) := Automaton.recognizes d.machine word
    { d with machine := m, verdicts := (word, verdict) :: d.verdicts }

def hold (s : Simulation) (queries : List Query) : Dialogue :=
  queries.foldl ask { machine := .ofSimulation s }

/-- The machine is one of `n`, each returned state stands in it for the configuration of its word, and
each verdict was right. -/
structure Sound (n : Nfa) (d : Dialogue) : Prop where
  nfa_eq : d.machine.machine.nfa = n
  follows : ∀ {word s}, (word, s) ∈ d.returned → d.machine.Follows n s word
  verdict_eq : ∀ {word verdict}, (word, verdict) ∈ d.verdicts → verdict = n.language word

variable {n : Nfa} {d : Dialogue}

theorem Sound.start (h : d.Sound n) : (d.ask .start).Sound n where
  nfa_eq := (d.machine.machine.closeAll_nfa _).trans h.nfa_eq
  follows := by
    intro word s returned
    rcases List.mem_cons.mp returned with new | old
    · cases new
      rw [← h.nfa_eq]
      exact d.machine.interpretation.stands_start
    · exact (h.follows old).restart
  verdict_eq := h.verdict_eq

theorem Sound.step (h : d.Sound n) (k : Nat) (a : String) : (d.ask (.step k a)).Sound n := by
  rw [ask]
  split
  · exact h
  · rename_i word s known
    have from' := h.follows (List.mem_of_getElem? known)
    constructor
    case nfa_eq => exact (from'.step a).1
    case follows =>
      intro other t returned
      rcases List.mem_cons.mp returned with new | old
      · cases new
        exact from'.step a
      · exact from'.lasting (h.follows old) a
    case verdict_eq => exact h.verdict_eq

theorem Sound.recognize (h : d.Sound n) (word : List String) : (d.ask (.recognize word)).Sound n := by
  have meaning := d.machine.interpretation
  have start := meaning.stands_start
  rw [h.nfa_eq] at meaning start
  constructor
  case nfa_eq => exact (meaning.stands_of_read start start word).1
  case follows =>
    intro other t returned
    exact meaning.stands_of_read start (h.follows returned).restart word
  case verdict_eq =>
    intro other verdict given
    rcases List.mem_cons.mp given with new | old
    · cases new
      exact meaning.recognizes_eq word
    · exact h.verdict_eq old

/-- No question takes a state's meaning away. -/
theorem Sound.ask (h : d.Sound n) (query : Query) : (d.ask query).Sound n := by
  cases query with
  | start => exact h.start
  | step k a => exact h.step k a
  | recognize word => exact h.recognize word

theorem Sound.foldl (h : d.Sound n) (queries : List Query) : (queries.foldl Dialogue.ask d).Sound n := by
  induction queries generalizing d with
  | nil => exact h
  | cons query queries ih => exact ih (h.ask query)

theorem sound_hold (s : Simulation) (queries : List Query) : (hold s queries).Sound s.nfa := by
  have fresh : Sound s.nfa { machine := .ofSimulation s } :=
    ⟨rfl, fun h => absurd h List.not_mem_nil, fun h => absurd h List.not_mem_nil⟩
  exact fresh.foldl queries

theorem mem_returned_ask {e : List String × Option Nat} (h : e ∈ d.returned) (query : Query) :
    e ∈ (d.ask query).returned := by
  cases query with
  | start => exact List.mem_cons_of_mem _ h
  | step k a =>
    rw [Dialogue.ask]
    split
    · exact h
    · exact List.mem_cons_of_mem _ h
  | recognize word => exact h

theorem mem_returned_append {s : Simulation} {queries : List Query} {e : List String × Option Nat}
    (h : e ∈ (hold s queries).returned) (more : List Query) :
    e ∈ (hold s (queries ++ more)).returned := by
  rw [hold, List.foldl_append]
  exact List.foldlRecOn (motive := fun d => e ∈ d.returned) more Dialogue.ask h
    fun _ kept query _ => mem_returned_ask kept query

/-- In machine `m` the returned states stand for the configurations of their words: `none` for the empty
one and else one number for one configuration; they are final and dead where the automaton says so. -/
structure Represents (s : Simulation) (m : OnDemand) (returned : List (List String × Option Nat)) :
    Prop where
  stands : ∀ {word q}, (word, q) ∈ returned → m.states.Stands q (s.nfa.run word)
  eq_none_iff : ∀ {word q}, (word, q) ∈ returned → (q = none ↔ s.nfa.run word = ∅)
  eq_iff : ∀ {word q other r}, (word, q) ∈ returned → (other, r) ∈ returned →
    (q = r ↔ s.nfa.run word = s.nfa.run other)
  accepts_eq : ∀ {word q}, (word, q) ∈ returned →
    Automaton.accepts m q = Automaton.accepts s (s.nfa.run word)
  dead_eq : ∀ {word q}, (word, q) ∈ returned →
    Automaton.dead m q = Automaton.dead s (s.nfa.run word)

theorem Sound.represents {s : Simulation} (h : d.Sound s.nfa) : Represents s d.machine d.returned where
  stands known := (h.follows known).2
  eq_none_iff known := (h.follows known).eq_none_iff
  eq_iff known known' := (h.follows known).eq_iff (h.follows known')
  accepts_eq known := by
    have meaning := d.machine.interpretation
    rw [h.nfa_eq] at meaning
    exact meaning.accepts_eq (h.follows known)
  dead_eq {word q} known := by
    have none_iff := (h.follows known).eq_none_iff
    show q.isNone = (s.nfa.run word).isEmpty
    rw [Bool.eq_iff_iff, Option.isNone_iff_eq_none, none_iff, IndexSet.isEmpty_iff]
    exact IndexSet.eq_empty_iff

/-- On every word the two machines agree, and each of them says of every prefix, on the way through the
word, what both say of that prefix as a word. -/
structure Agree (s : Simulation) (m : OnDemand) : Prop where
  recognizes_eq : ∀ word, (Automaton.recognizes m word).1 = (Automaton.recognizes s word).1
  trace_eq : ∀ word, (Automaton.trace m word).1.map Automaton.Visit.accepted =
    word.inits.map fun u => (Automaton.recognizes s u).1
  trace_eq' : ∀ word, (Automaton.trace s word).1.map Automaton.Visit.accepted =
    word.inits.map fun u => (Automaton.recognizes s u).1

theorem Sound.agree {s : Simulation} (h : d.Sound s.nfa) : Agree s d.machine := by
  have left := d.machine.interpretation
  have right := s.interpretation
  rw [h.nfa_eq] at left
  have language : (fun u => (Automaton.recognizes s u).1) = s.nfa.language :=
    funext right.recognizes_eq
  constructor
  case recognizes_eq => exact fun word => (left.recognizes_eq word).trans (right.recognizes_eq word).symm
  case trace_eq => exact fun word => language ▸ left.map_trace word
  case trace_eq' => exact fun word => language ▸ right.map_trace word

/-- Whatever a machine was asked, and is asked later, the states it returned keep the meaning that the
automaton gives to their words, and its verdicts are the automaton's. -/
theorem faithful_hold (s : Simulation) (queries more : List Query) :
    Represents s (hold s (queries ++ more)).machine (hold s queries).returned ∧
      Agree s (hold s queries).machine ∧
      ∀ word verdict, (word, verdict) ∈ (hold s queries).verdicts →
        verdict = (Automaton.recognizes s word).1 := by
  have now := sound_hold s queries
  have later := (sound_hold s (queries ++ more)).represents
  refine ⟨?_, now.agree, ?_⟩
  · exact {
      stands := fun known => later.stands (mem_returned_append known more)
      eq_none_iff := fun known => later.eq_none_iff (mem_returned_append known more)
      eq_iff := fun known known' =>
        later.eq_iff (mem_returned_append known more) (mem_returned_append known' more)
      accepts_eq := fun known => later.accepts_eq (mem_returned_append known more)
      dead_eq := fun known => later.dead_eq (mem_returned_append known more) }
  · intro word verdict given
    exact (now.verdict_eq given).trans (s.interpretation.recognizes_eq word).symm

end Dialogue

end CallAtlas
