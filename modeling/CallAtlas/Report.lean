import CallAtlas.Selector.Selection
import CallAtlas.Text.Lines
/-!
What a session prints about a graph, line by line. Lines are sorted by the name that they are about.
-/
namespace CallAtlas

/-- The values given to each name, in the order in which they were given. -/
def gather (pairs : List (String × String)) : NameMap (List String) :=
  pairs.foldl (fun m p => m.update p.1 fun values => values.getD [] ++ [p.2]) ∅

namespace Graph

def callersReport (g : Graph) (refs : Bool) (names : List String) : List String :=
  let pairs := names.flatMap fun name => (g.callers refs name).map fun caller => (caller, name)
  (gather pairs).entries.map fun (caller, callees) => ", ".intercalate callees ++ " <- " ++ caller

def calleesReport (g : Graph) (scope : Scope) (names : List String) : List String :=
  let pairs := names.flatMap fun name => (g.callees scope name).map fun callee => (callee, name)
  (gather pairs).entries.map fun (callee, callers) => callee ++ " <- " ++ ", ".intercalate callers

def labelsReport [PatternEngine] (g : Graph) (s : Selector) : List String :=
  let pairs := g.labelNames.flatMap fun l =>
    ((Selector.both [.label l, s]).nodes g).toList.map fun node => (node, l)
  (gather pairs).entries.map fun (node, labels) => node ++ ": " ++ ", ".intercalate labels

end Graph

def Census.json (c : Census) : List String :=
  ["\x7b",
    s!"  \"total_nodes\": {c.nodes},",
    s!"  \"external_nodes\": {c.externals},",
    s!"  \"total_edges\": {c.edges},",
    s!"  \"ref_edges\": {c.refs},",
    s!"  \"file_count\": {c.files},",
    s!"  \"label_count\": {c.labels}",
    "\x7d"]

end CallAtlas
