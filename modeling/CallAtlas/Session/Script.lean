import CallAtlas.Reader
import CallAtlas.Session.Basic
/-!
Scripts: lines of commands, and the files that they source. Files may source each other up to a fixed
depth, and they may be written while they are run; what is written behind the place where a file is read is
run as well. Every script comes to an end.
-/
namespace CallAtlas.Session

def maxDepth : Nat := 32

/-- Run a script of which `n` lines were run before, and `failures` failed. A failure ends it if the settings
say so. -/
def runWith (run : FileRunner) (n failures : Nat) (script : Script) (s : Session) :
    Except Failure Nat × Session :=
  match _next : script.next? s.files with
  | none => (.ok failures, s)
  | some (none, _) => (.error (.bare .notText), s)
  | some (some line, rest) =>
    match s.executeLineWith run line with
    | (result, s) =>
      let failures := failures + s.unreported
      let s := { s with unreported := 0 }
      match result with
      | .ok () => runWith run (n + 1) failures rest s
      | .error e =>
        if s.settings.stopOnError then (.error (e.onLine (n + 1)), s)
        else runWith run (n + 1) (failures + 1) rest s
termination_by script.size
decreasing_by all_goals exact Script.size_lt_of_next? _next

/-- Run a file that may nest `room - 1` others. -/
def sourceWithin : (room : Nat) → FileRunner
  | 0, path, s => (.error (.bare (.tooDeep path)), s)
  | room + 1, path, s =>
    match s.files.open? path with
    | none => (.error (.bare (.unreadable path)), s)
    | some r =>
      match runWith (sourceWithin room) 0 0 (.file r) { s with depth := s.depth + 1 } with
      | (result, s) => (result.mapError (.ofFile path), { s with depth := s.depth - 1 })

def source (s : Session) (path : String) : Except Failure Nat × Session :=
  sourceWithin (maxDepth - s.depth) path s

def execute (s : Session) (command : Command) : Except Failure Unit × Session :=
  s.executeWith (sourceWithin (maxDepth - s.depth)) command

def executeLine (s : Session) (line : String) : Except Failure Unit × Session :=
  s.executeLineWith (sourceWithin (maxDepth - s.depth)) line

def runScript (s : Session) (lines : List Line) : Except Failure Nat × Session :=
  runWith (sourceWithin (maxDepth - s.depth)) 0 0 (.lines lines) s

/-- The file that a line names, if there is a command in it which does. -/
def linePath? (line : String) : Option String :=
  match Token.split line with
  | .ok tokens => (Command.ofTokens tokens).toOption.bind Command.path?
  | .error _ => none

def namedPaths (lines : List Line) : List String := lines.filterMap fun line => line.bind linePath?

end CallAtlas.Session
