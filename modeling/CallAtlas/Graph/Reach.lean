import CallAtlas.Graph.Query
/-!
Hiding and keeping selected nodes together with what leads to them or what they lead to.
-/
namespace CallAtlas

/-- How far a selection of nodes is extended: to all that leads to it, to all that it leads to. -/
structure Reach where
  callers : Bool := false
  callees : Bool := false
deriving DecidableEq, Repr, Inhabited

namespace Graph

/-- The names that a name reaches against the edges, itself included; none if that is not asked for. -/
def reachedCallers (g : Graph) (reach : Reach) (name : String) : List String :=
  if reach.callers then g.allCallers name else []

def reachedCallees (g : Graph) (reach : Reach) (name : String) : List String :=
  if reach.callees then g.allCallees name else []

/-- Hide a node, or cut the edges into all that leads to it and out of all that it leads to. -/
def hideReach (reach : Reach) (g : Graph) (name : String) : Graph :=
  if reach.callers || reach.callees then
    (g.reachedCallees reach name).foldl cutCallees
      ((g.reachedCallers reach name).foldl cutCallers g)
  else g.hide name

def keepReach (reach : Reach) (g : Graph) (name : String) : Graph :=
  (name :: (g.reachedCallers reach name ++ g.reachedCallees reach name)).foldl keep g

def hideAll (g : Graph) (reach : Reach) (names : List String) : Graph :=
  names.foldl (hideReach reach) g

def keepAll (g : Graph) (reach : Reach) (names : List String) : Graph :=
  names.foldl (keepReach reach) g

end Graph

end CallAtlas
