import CallAtlas.Graph.Filter
import CallAtlas.Walk
/-!
Questions about a graph that are answered with names: what is visible, who calls whom, what reaches
what, and how much there is of everything.
-/
namespace CallAtlas

/-- Counts over a whole graph, whatever is visible. -/
structure Census where
  nodes : Nat
  externals : Nat
  edges : Nat
  refs : Nat
  files : Nat
  labels : Nat
deriving DecidableEq, Repr, Inhabited

def Census.summary (c : Census) : String :=
  s!"{c.nodes} nodes ({c.externals} external), {c.edges} edges ({c.refs} ref), " ++
    s!"{c.files} files, {c.labels} labels"

namespace Graph

/-- The visible nodes, in the order in which they were mentioned. -/
def visibleNodes (g : Graph) (externals : Bool) : List String :=
  ((List.range g.size).filter (g.showsAt externals)).map g.displayAt

def fileAt (g : Graph) (i : Nat) : Option String := g.nodes[i]?.bind Node.file

def files (g : Graph) : List String := (NameSet.ofList (g.definitions.filterMap g.fileAt)).toList

/-- The visible nodes of a file, in the order of their definitions. -/
def nodesOfFile (g : Graph) (file : String) : List String :=
  ((g.definitions.reverse.filter fun i => g.fileAt i == some file).filter (g.showsAt false)).map
    g.displayAt

def callers (g : Graph) (refs : Bool) (name : String) : List String :=
  match g.resolve? name with
  | none => []
  | some i =>
    ((g.callersAt i).filter fun j => g.showsAt true j && g.showsEdgeAt refs j i).map g.displayAt

def callees (g : Graph) (scope : Scope) (name : String) : List String :=
  match g.resolve? name with
  | none => []
  | some i =>
    ((g.calleesAt i).filter fun j =>
      g.showsAt scope.externals j && g.showsEdgeAt scope.refs i j).map g.displayAt

/-- A symbol and everything that leads to it, visible or not, in depth-first preorder. -/
def allCallers (g : Graph) (name : String) : List String :=
  (walk g.callersAt g.size ∅ (g.resolve? name).toList).map g.displayAt

/-- A symbol and everything it leads to, visible or not, in depth-first preorder. -/
def allCallees (g : Graph) (name : String) : List String :=
  (walk g.calleesAt g.size ∅ (g.resolve? name).toList).map g.displayAt

def census (g : Graph) : Census where
  nodes := g.size
  externals := g.nodes.countP Node.isExternal
  edges := g.edges.size
  refs := g.edges.countP (·.kind == .ref)
  files := g.files.length
  labels := g.labels.size

end Graph

end CallAtlas
