import CallAtlas.Automaton.Simulation
import CallAtlas.PathExpr.Basic
/-!
The automaton of a path expression. Each expression is attached to a state of an automaton as a
fragment: new states, and moves among them and from that state, that lead to one new accepting state
along the words of the expression.
-/
namespace CallAtlas

namespace PathExpr

mutual

/-- Attach the fragment of an expression at state `q`; the accepting state is returned. -/
def attach (n : Nfa) (q : Nat) : PathExpr Predicate → Nfa × Nat
  | .empty => (n.addState.addSilent q n.size, n.size)
  | .one p => (n.addState.addMove q p n.size, n.size)
  | .seq [] => (n.addState.addSilent q n.size, n.size)
  | .seq (e :: es) => attachSeq n q (e :: es)
  | .star e =>
    let head := n.size
    let exit := n.size + 1
    let n := (n.addState.addState.addSilent q head).addSilent q exit
    let (n, bodyEnd) := attach n head e
    ((n.addSilent bodyEnd head).addSilent head exit, exit)
  | .alt [] => (n.addState.addSilent q n.size, n.size)
  | .alt (e :: es) => (attachAlt n.addState q n.size (e :: es), n.size)

def attachSeq (n : Nfa) (q : Nat) : List (PathExpr Predicate) → Nfa × Nat
  | [] => (n, q)
  | e :: es =>
    let (n, q) := attach n q e
    attachSeq n q es

/-- Attach expressions as branches from `q` that all end in `exit`. -/
def attachAlt (n : Nfa) (q exit : Nat) : List (PathExpr Predicate) → Nfa
  | [] => n
  | e :: es =>
    let branch := n.size
    let (n, branchEnd) := attach (n.addState.addSilent q branch) branch e
    attachAlt (n.addSilent branchEnd exit) q exit es

end

def nfa (e : PathExpr Predicate) : Nfa :=
  let (n, exit) := attach Nfa.empty.addState 0 e
  n.markFinal exit

/-- How many states a fragment adds before its first move from the state it is attached to. -/
def lead {α : Type} : PathExpr α → Nat
  | .empty | .one _ | .seq [] | .alt [] => 1
  | .star _ | .alt (_ :: _) => 2
  | .seq (e :: _) => lead e

/-- Attach a fragment to an automaton in use. When state `q` is missing, the states that were added
before that came out stay. -/
def attachTo (e : PathExpr Predicate) (s : Simulation) (q : Nat) :
    Except MissingState Nat × Simulation :=
  if q < s.nfa.size + e.lead then
    let (n, exit) := attach s.nfa q e
    (.ok exit, .ofNfa n)
  else (.error (.source q), .ofNfa (Nat.repeat Nfa.addState e.lead s.nfa))

end PathExpr

end CallAtlas
