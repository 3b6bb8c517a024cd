import CallAtlas.Graph.Basic
/-!
Labels on symbols. A label is stored with canonical names, so it stays with a symbol that is defined
later; a name that is not in the graph can carry labels too.
-/
namespace CallAtlas

def sortNames (names : List String) : List String := names.mergeSort fun a b => !decide (b < a)

namespace Graph

def addLabel (g : Graph) (name label : String) : Graph :=
  let name := g.canonical name
  { g with labels := g.labels.update label fun names => NameSet.insert (names.getD ∅) name }

def labeled (g : Graph) (label : String) : NameSet := (g.labels.get? label).getD ∅

def hasLabel (g : Graph) (name label : String) : Bool := g.canonical name ∈ g.labeled label

/-- The names under which the carriers of a label are shown, ascending. -/
def labeledNodes (g : Graph) (label : String) : List String :=
  sortNames ((g.labeled label).toList.map fun name => (g.displayName? name).getD name)

def labelNames (g : Graph) : List String := g.labels.keys

def labelsOf (g : Graph) (name : String) : List String := g.labelNames.filter (g.hasLabel name)

def resetLabels (g : Graph) : Graph := { g with labels := ∅ }

end Graph

end CallAtlas
