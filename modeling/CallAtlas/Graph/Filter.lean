import CallAtlas.Graph.Basic
/-!
Which nodes and edges of a graph are visible, and the operations that show and hide them. Cutting the
edges into or out of a node hides it, and the neighbours that are left without any visible edge.
-/
namespace CallAtlas

/-- What a query looks at besides defined nodes and calls. -/
structure Scope where
  externals : Bool := false
  refs : Bool := false
deriving DecidableEq, Repr, Inhabited

namespace Graph

def showsAt (g : Graph) (externals : Bool) (i : Nat) : Bool :=
  match g.nodes[i]? with
  | none => false
  | some node => (externals || !node.isExternal) && g.visibility.shows node.name

theorem lt_size_of_showsAt {g : Graph} {externals : Bool} {i : Nat}
    (h : g.showsAt externals i = true) : i < g.size := by
  unfold showsAt at h
  split at h
  · cases h
  · rename_i node eq
    exact (Array.getElem?_eq_some_iff.mp eq).1

/-- Whether there is a visible edge between two positions. A reference to an external node is never
visible. -/
def showsEdgeAt (g : Graph) (refs : Bool) (caller callee : Nat) : Bool :=
  match g.edge? caller callee with
  | none => false
  | some kind =>
    !g.visibility.cuts (g.nameAt caller) (g.nameAt callee) &&
      (kind == .call || (refs && !g.isExternalAt callee))

def showsNode (g : Graph) (externals : Bool) (name : String) : Bool :=
  (g.resolve? name).any (g.showsAt externals)

def showsEdge (g : Graph) (refs : Bool) (caller callee : String) : Bool :=
  (g.resolve? caller).any fun i => (g.resolve? callee).any fun j => g.showsEdgeAt refs i j

/-- Whether a node has a visible edge to or from a visible node. -/
def isJoinedAt (g : Graph) (i : Nat) : Bool :=
  ((g.callersAt i).any fun j => g.showsAt true j && g.showsEdgeAt true j i) ||
    (g.calleesAt i).any fun j => g.showsAt true j && g.showsEdgeAt true i j

def hideIfAlone (g : Graph) (i : Nat) : Graph :=
  if g.isJoinedAt i then g else { g with visibility := g.visibility.hide (g.nameAt i) }

def hide (g : Graph) (name : String) : Graph :=
  { g with visibility := g.visibility.hide (g.canonical name) }

/-- Show a node whatever the default is. -/
def keep (g : Graph) (name : String) : Graph :=
  { g with visibility := g.visibility.keep (g.canonical name) }

/-- Cut all edges into a node; then hide it and its callers, those of them that are left alone. -/
def cutCallers (g : Graph) (name : String) : Graph :=
  let cut := { g with visibility :=
    { g.visibility with cutCallers := NameSet.insert g.visibility.cutCallers (g.canonical name) } }
  match g.resolve? name with
  | none => cut
  | some i => (i :: g.callersAt i).foldl hideIfAlone cut

/-- Cut all edges out of a node; then hide it and its callees, those of them that are left alone. -/
def cutCallees (g : Graph) (name : String) : Graph :=
  let cut := { g with visibility :=
    { g.visibility with cutCallees := NameSet.insert g.visibility.cutCallees (g.canonical name) } }
  match g.resolve? name with
  | none => cut
  | some i => (i :: g.calleesAt i).foldl hideIfAlone cut

def resetVisibility (g : Graph) : Graph := { g with visibility := {} }

def setDefault (g : Graph) (shown : Bool) : Graph :=
  { g with visibility := { g.visibility with shownByDefault := shown } }

end Graph

end CallAtlas
