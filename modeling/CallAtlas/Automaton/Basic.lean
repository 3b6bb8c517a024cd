/-!
What every automaton over names offers: a start state, a step, acceptance and dead states. A step may
also improve the machine itself, for one that remembers what it has computed.
-/
namespace CallAtlas

abbrev Predicate : Type := String → Bool

/-- A machine `M` that reads names and whose states have type `σ`. -/
class Automaton (M : Type) (σ : outParam Type) where
  start : M → σ × M
  step : M → σ → String → σ × M
  accepts : M → σ → Bool
  /-- From a dead state no word is accepted. -/
  dead : M → σ → Bool

namespace Automaton

variable {M σ : Type} [Automaton M σ]

/-- Read a word from a state. A dead state with names left to read ends the reading. -/
def read (m : M) (s : σ) : List String → Bool × M
  | [] => (accepts m s, m)
  | a :: word =>
    if dead m s then (false, m)
    else
      let (s, m) := step m s a
      read m s word

def recognizes (m : M) (word : List String) : Bool × M :=
  let (s, m) := start m
  read m s word

structure Visit (σ : Type) where
  state : σ
  accepted : Bool
  dead : Bool

def visit (m : M) (s : σ) : Visit σ := ⟨s, accepts m s, Automaton.dead m s⟩

def traceFrom (m : M) (s : σ) : List String → List (Visit σ) × M
  | [] => ([visit m s], m)
  | a :: word =>
    let (t, m') := step m s a
    let (visits, m') := traceFrom m' t word
    (visit m s :: visits, m')

/-- The run of the machine on a word; unlike `recognizes` it goes on through dead states. -/
def trace (m : M) (word : List String) : List (Visit σ) × M :=
  let (s, m) := start m
  traceFrom m s word

end Automaton

end CallAtlas
