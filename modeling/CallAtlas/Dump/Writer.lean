import CallAtlas.Dump.Entry
import CallAtlas.Text.Lines
/-!
Dumps from graphs. A dump holds the whole graph, visible or not: the nodes in their order, the labels,
and the edges grouped by caller.
-/
namespace CallAtlas.Graph

def nodeEntries (g : Graph) : List Entry :=
  g.nodes.toList.map fun node =>
    match node.definition with
    | none => .mention node.name
    | some d => .define node.name d

def labelEntries (g : Graph) : List Entry :=
  g.labelNames.flatMap fun label => (g.labeledNodes label).map (.label label)

def edgeEntriesAt (g : Graph) (i : Nat) : List Entry :=
  (g.edges.toList.filter (·.caller == i)).map fun e =>
    .edge (g.nameAt e.caller) (g.nameAt e.callee) e.kind

def edgeEntries (g : Graph) : List Entry := (List.range g.size).flatMap g.edgeEntriesAt

def entries (g : Graph) : List Entry := g.nodeEntries ++ g.labelEntries ++ g.edgeEntries

def dump (g : Graph) : String := Lines.unlines (g.entries.map Entry.line)

end CallAtlas.Graph
