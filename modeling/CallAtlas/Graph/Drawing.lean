import CallAtlas.Graph.Query
import CallAtlas.Text.Lines
import CallAtlas.Text.Token
/-!
Drawings of the visible graph in the DOT format. Every visible edge between drawn nodes is drawn, and
every visible defined node that no drawn edge touches stands alone.
-/
namespace CallAtlas

structure Drawing where
  /-- put the nodes of each file into a box -/
  files : Bool := false
  scope : Scope := {}
deriving DecidableEq, Repr, Inhabited

namespace Drawing

/-- A name between double quotes, with a backslash before every quote and every backslash in it. -/
def quoted (name : String) : String := String.ofList ('"' :: (Token.escape name.toList ++ ['"']))

def box (number : Nat) (file : String) (nodes : List String) : List String :=
  ["subgraph cluster_" ++ toString number ++ " \x7b", "label = " ++ quoted file ++ ";"] ++
    nodes.map (fun node => quoted node ++ ";") ++ ["\x7d"]

def boxes (number : Nat) : List (String × List String) → List String
  | [] => []
  | (file, nodes) :: rest => box number file nodes ++ boxes (number + 1) rest

end Drawing

namespace Graph

def visibleFiles (g : Graph) : List (String × List String) :=
  (g.files.map fun file => (file, g.nodesOfFile file)).filter fun entry => !entry.2.isEmpty

def drawnEdges (g : Graph) (scope : Scope) : List (String × String) :=
  (g.visibleNodes false).flatMap fun node => (g.callees scope node).map fun callee => (node, callee)

def lonelyNodes (g : Graph) (scope : Scope) : List String :=
  let edges := g.drawnEdges scope
  (g.visibleNodes false).filter fun node => !edges.any fun e => e.1 == node || e.2 == node

def draw (g : Graph) (drawing : Drawing) : String :=
  Lines.unlines
    ("digraph callgraph \x7b" ::
      ((if drawing.files then Drawing.boxes 0 g.visibleFiles else []) ++
        ((g.drawnEdges drawing.scope).map fun e =>
          Drawing.quoted e.1 ++ " -> " ++ Drawing.quoted e.2 ++ ";") ++
        ((g.lonelyNodes drawing.scope).map fun node => Drawing.quoted node ++ ";") ++ ["\x7d"]))

end Graph

end CallAtlas
