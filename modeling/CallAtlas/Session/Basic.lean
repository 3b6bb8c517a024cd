import CallAtlas.Automaton.OnDemand
import CallAtlas.Command.Parser
import CallAtlas.Dump.Writer
import CallAtlas.FileTree
import CallAtlas.Graph.Search
import CallAtlas.PathExpr.Fragment
import CallAtlas.PathExpr.Parser
import CallAtlas.Pattern.Engine
import CallAtlas.Report
import CallAtlas.Selector.Words
import CallAtlas.Session.Failure
import CallAtlas.Settings
/-!
A session runs commands on one graph. Commands that fail leave the session as it is, with two
exceptions: what ran before in a sourced file stays done, and so does the default that is set before
the nodes of an `only` command are selected.
-/
namespace CallAtlas

structure Session where
  graph : Graph := {}
  settings : Settings := {}
  files : FileTree := {}
  /-- what was printed -/
  out : String := ""
  /-- how many files are being sourced -/
  depth : Nat := 0
  /-- failures in sourced files that the script which sourced them has not counted yet -/
  unreported : Nat := 0
deriving Inhabited

/-- How a session runs a file: the number of failures, or the failure that ended it. -/
abbrev FileRunner : Type := String → Session → Except Failure Nat × Session

namespace Session

def withGraph (s : Session) (g : Graph) : Session := { s with graph := g }

def print (s : Session) (text : String) : Session := { s with out := s.out ++ text }

def printLines (s : Session) (lines : List String) : Session := s.print (Lines.unlines lines)

/-- What options ask for, and what the settings ask for besides. -/
def widen (s : Session) (scope : Scope) : Scope :=
  ⟨scope.externals || s.settings.scope.externals, scope.refs || s.settings.scope.refs⟩

def select (s : Session) (words : List String) : Except Cause (List String) :=
  (Selector.select s.graph words).mapError .query

def deliver (s : Session) (path : Option String) (text : String) : Except Cause Session :=
  match path with
  | none => .ok (s.print text)
  | some path =>
    match s.files.write? path text.toUTF8 with
    | none => .error (.unwritable path)
    | some files => .ok { s with files }

def addNode (s : Session) (external : Bool) (name : String) (d : Definition) :
    Except Cause Session :=
  if external then
    if d = {} then .ok (s.withGraph (s.graph.mention name).2) else .error .externalDetails
  else .ok (s.withGraph (s.graph.define name d).2)

def addEdge (s : Session) (caller callee : String) (kind : EdgeKind) : Except Cause Session :=
  ((s.graph.connect caller callee kind).mapError Cause.edge).map s.withGraph

/-- Label nodes, or list the nodes with the label if there are no words. -/
def label (s : Session) (l : String) : List String → Except Cause Session
  | [] => .ok (s.printLines (s.graph.labeledNodes l))
  | words => do
    let names ← (Selector.labelTargets s.graph words).mapError Cause.query
    return s.withGraph (names.foldl (fun g name => g.addLabel name l) s.graph)

def hide (s : Session) (reach : Reach) (words : List String) : Except Cause Session := do
  return s.withGraph (s.graph.hideAll reach (← s.select words))

def keep (s : Session) (reach : Reach) (words : List String) : Except Cause Session := do
  return s.withGraph (s.graph.keepAll reach (← s.select words))

/-- Forget visibility, or labels; both if neither is named. -/
def reset (s : Session) (filters labels : Bool) : Session :=
  let g := s.graph
  let g := if filters || !labels then g.resetVisibility else g
  let g := if labels || !filters then g.resetLabels else g
  s.withGraph g

def reportCallers (s : Session) (refs : Bool) (words : List String) : Except Cause Session := do
  return s.printLines (s.graph.callersReport (s.widen ⟨false, refs⟩).refs (← s.select words))

def reportCallees (s : Session) (scope : Scope) (words : List String) : Except Cause Session := do
  return s.printLines (s.graph.calleesReport (s.widen scope) (← s.select words))

def reportLabels (s : Session) (words : List String) : Except Cause Session := do
  let selector ← (Selector.ofWords s.graph words).mapError Cause.query
  return s.printLines (s.graph.labelsReport selector)

def reportPaths (s : Session) (scope : Scope) (limit : Option Nat) (words : List String) :
    Except Cause Session := do
  let e ← (PathExpr.ofText (" ".intercalate words)).mapError Cause.query
  let machine := OnDemand.ofSimulation (.ofNfa (e.map (·.predicate s.graph)).nfa)
  let trails := s.graph.paths machine (s.widen scope) (limit.or s.settings.limit)
  return s.printLines (trails.map Trail.text)

def reportCensus (s : Session) (json : Bool) : Session :=
  if json then s.printLines s.graph.census.json else s.print s.graph.census.summary

def save (s : Session) (path : Option String) : Except Cause Session :=
  s.deliver (path.or s.settings.defaultDump) s.graph.dump

def output (s : Session) (drawing : Drawing) (path : Option String) : Except Cause Session :=
  s.deliver path (s.graph.draw { drawing with scope := s.widen drawing.scope })

/-- The session after a command that changes nothing when it fails. -/
def attempt (s : Session) : Except Cause Session → Except Failure Unit × Session
  | .ok s' => (.ok (), s')
  | .error cause => (.error (.bare cause), s)

def included : Except Failure Nat × Session → Except Failure Unit × Session
  | (.ok failures, s) => (.ok (), { s with unreported := s.unreported + failures })
  | (.error e, s) => (.error e, s)

/-- Execute a command, with a way to run the files that it sources. -/
def executeWith (run : FileRunner) (s : Session) : Command → Except Failure Unit × Session
  | .node external username line name file => s.attempt (s.addNode external name ⟨username, file, line⟩)
  | .edge caller callee kind => s.attempt (s.addEdge caller callee kind)
  | .label l words => s.attempt (s.label l words)
  | .source path => included (run path s)
  | .hide reach words => s.attempt (s.hide reach words)
  | .keep reach words => s.attempt (s.keep reach words)
  | .only reach words =>
    let s := s.withGraph (s.graph.setDefault false)
    s.attempt (s.keep reach words)
  | .reset filters labels => (.ok (), s.reset filters labels)
  | .callers refs words => s.attempt (s.reportCallers refs words)
  | .callees scope words => s.attempt (s.reportCallees scope words)
  | .labels words => s.attempt (s.reportLabels words)
  | .paths scope limit words => s.attempt (s.reportPaths scope limit words)
  | .stats json => (.ok (), s.reportCensus json)
  | .save path => s.attempt (s.save path)
  | .output drawing path => s.attempt (s.output drawing path)

def executeLineWith (run : FileRunner) (s : Session) (line : String) :
    Except Failure Unit × Session :=
  match Token.split line with
  | .error e => (.error (.bare (.split e)), s)
  | .ok [] => (.ok (), s)
  | .ok tokens =>
    match Command.ofTokens tokens with
    | .ok command => s.executeWith run command
    | .error (.help summary) => (.ok (), s.printLines summary)
    | .error e => (.error (.bare (.usage e)), s)

end Session

end CallAtlas
