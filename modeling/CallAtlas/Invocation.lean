import CallAtlas.Session.Script
import CallAtlas.Settings.File
/-!
A run of the program: its arguments, and what it does with its input and its files.
-/
namespace CallAtlas

structure Invocation where
  /-- the file with the settings -/
  config : String := ".callpath.toml"
  /-- go on after a failure, whatever the settings say -/
  keepGoing : Bool := false
  /-- scripts to run; without any the input is one -/
  scripts : List String := []
deriving DecidableEq, Repr, Inhabited

/-- How a run ends: the number of failures, or the failure that ended it. -/
structure Ending where
  result : Except Failure Nat
  out : String
  files : FileTree

namespace Ending

def status (e : Ending) : Nat :=
  match e.result with
  | .ok 0 => 0
  | _ => 1

def complaint (e : Ending) : Option String :=
  match e.result with
  | .ok 0 => none
  | .ok n => some (toString n ++ " command(s) failed")
  | .error failure => some failure.message

end Ending

def UsageError.status : UsageError → Nat
  | help _ => 0
  | _ => 2

namespace Invocation

def usage : Usage where
  options :=
    [{ name := "config", short := some 'c', kind := some .path },
      { name := "keep-going", short := some 'k' }]
  operands := [{ name := "scripts", kind := some .path, many := true }]

def ofWords (words : List String) : Except UsageError Invocation := do
  let as ← usage.read words
  return {
    config := (Arguments.value? as "config").getD ({} : Invocation).config
    keepGoing := Arguments.has as "keep-going"
    scripts := Arguments.all as "scripts" }

def settings (i : Invocation) (files : FileTree) : Settings :=
  let settings := Settings.load files i.config
  if i.keepGoing then { settings with stopOnError := false } else settings

/-- Run files one after the other; their failures are added up. -/
def runFiles : Nat → List String → Session → Except Failure Nat × Session
  | failures, [], s => (.ok failures, s)
  | failures, path :: rest, s =>
    match s.source path with
    | (.ok n, s) => runFiles (failures + n) rest s
    | (.error e, s) => (.error e, s)

def runSession (i : Invocation) (input : ByteArray) (s : Session) : Except Failure Nat × Session :=
  if i.scripts.isEmpty then s.runScript (Lines.ofBytes input) else runFiles 0 i.scripts s

def run (i : Invocation) (input : ByteArray) (files : FileTree) : Ending :=
  match i.runSession input { settings := i.settings files, files } with
  | (result, s) => ⟨result, s.out, s.files⟩

end Invocation

end CallAtlas
