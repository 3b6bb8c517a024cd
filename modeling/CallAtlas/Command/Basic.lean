import CallAtlas.Graph.Drawing
import CallAtlas.Graph.Reach
/-!
The commands of a session.
-/
namespace CallAtlas

inductive Command where
  /-- define a symbol, or mention an external one -/
  | node (external : Bool) (username : Option String) (line : Option UInt32) (name : String)
    (file : Option String)
  | edge (caller callee : String) (kind : EdgeKind)
  /-- label nodes, or list the nodes with a label -/
  | label (l : String) (words : List String)
  /-- run the commands in a file -/
  | source (path : String)
  | hide (reach : Reach) (words : List String)
  | keep (reach : Reach) (words : List String)
  /-- hide all but the kept nodes and these -/
  | only (reach : Reach) (words : List String)
  /-- forget what is hidden and kept, or the labels; without an option both -/
  | reset (filters labels : Bool)
  | callers (refs : Bool) (words : List String)
  | callees (scope : Scope) (words : List String)
  | labels (words : List String)
  | paths (scope : Scope) (limit : Option Nat) (words : List String)
  | stats (json : Bool)
  /-- write the graph as a dump -/
  | save (path : Option String)
  /-- write the visible graph as a drawing -/
  | output (drawing : Drawing) (path : Option String)
deriving DecidableEq, Repr

def Command.path? : Command → Option String
  | source path => some path
  | save path => path
  | output _ path => path
  | _ => none

end CallAtlas
