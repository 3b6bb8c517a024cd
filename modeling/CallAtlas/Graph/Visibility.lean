import CallAtlas.NameMap
/-!
What is shown of a graph. Single nodes are kept or hidden by name, all edges into or out of a node can
be cut, and a default holds for every node that is neither kept nor hidden. Nothing here changes the
graph itself.
-/
namespace CallAtlas

/-- Names are canonical. -/
structure Visibility where
  kept : NameSet := ∅
  hidden : NameSet := ∅
  /-- edges into these nodes are cut -/
  cutCallers : NameSet := ∅
  /-- edges out of these nodes are cut -/
  cutCallees : NameSet := ∅
  shownByDefault : Bool := true
deriving DecidableEq, Inhabited

namespace Visibility

def shows (v : Visibility) (name : String) : Bool :=
  if name ∈ v.kept then true else if name ∈ v.hidden then false else v.shownByDefault

def cuts (v : Visibility) (caller callee : String) : Bool :=
  caller ∈ v.cutCallees ∨ callee ∈ v.cutCallers

def hide (v : Visibility) (name : String) : Visibility :=
  { v with kept := v.kept.erase name, hidden := NameSet.insert v.hidden name }

def keep (v : Visibility) (name : String) : Visibility :=
  { v with hidden := v.hidden.erase name, kept := NameSet.insert v.kept name }

end Visibility

end CallAtlas
