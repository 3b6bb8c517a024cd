import CallAtlas.Automaton.Basic
import CallAtlas.Graph.Label
import CallAtlas.Graph.Query
import CallAtlas.Selector.Basic
/-!
What selectors select in a graph: as a set of names, and as a test on single names. Patterns and
negations look at visible nodes only, the test looks at the name alone.
-/
namespace CallAtlas

namespace Graph

def follow (g : Graph) : Closure → String → List String
  | .callers, name => g.callers false name
  | .callees, name => g.callees {} name
  | .allCallers, name => g.allCallers name
  | .allCallees, name => g.allCallees name

def extend (g : Graph) (k : Closure) (S : NameSet) : NameSet :=
  .ofList (S.toList.flatMap (g.follow k))

end Graph

namespace Selector

variable [PatternEngine]

def visible (g : Graph) (p : Predicate) : NameSet := .ofList ((g.visibleNodes true).filter p)

mutual

def nodes (g : Graph) : Selector → NameSet
  | name n => .ofList (g.displayName? n).toList
  | pattern p => visible g p.isMatch
  | label l => .ofList (g.labeledNodes l)
  | both [] => .ofList (g.visibleNodes true)
  | both (s :: ss) => commonNodes g (nodes g s) ss
  | either ss => joinedNodes g ss
  | not s =>
    let p := predicate g s
    visible g fun a => !p a
  | closure k s => g.extend k (nodes g s)

def commonNodes (g : Graph) (S : NameSet) : List Selector → NameSet
  | [] => S
  | s :: ss =>
    let T := nodes g s
    commonNodes g (S.filter fun a _ => a ∈ T) ss

def joinedNodes (g : Graph) : List Selector → NameSet
  | [] => ∅
  | s :: ss => (nodes g s).toList.foldl NameSet.insert (joinedNodes g ss)

def predicate (g : Graph) : Selector → Predicate
  | name n =>
    let shown := (g.displayName? n).getD n
    fun a => a == shown
  | pattern p => p.isMatch
  | label l =>
    let S := NameSet.ofList (g.labeledNodes l)
    fun a => a ∈ S
  | both ss =>
    let ps := predicates g ss
    fun a => ps.all (· a)
  | either ss =>
    let ps := predicates g ss
    fun a => ps.any (· a)
  | not s =>
    let p := predicate g s
    fun a => !p a
  | closure k s =>
    let S := g.extend k (nodes g s)
    fun a => a ∈ S

def predicates (g : Graph) : List Selector → List Predicate
  | [] => []
  | s :: ss => predicate g s :: predicates g ss

end

end Selector

end CallAtlas
