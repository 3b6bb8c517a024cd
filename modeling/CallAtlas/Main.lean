import CallAtlas.Invocation
/-!
The program. It takes a snapshot of the files that its scripts name, runs on that, and then writes the
files that came out different. A file that is named only by lines which the run itself writes into a script is
not in the snapshot.
-/
namespace CallAtlas.Main

def isDirectory (l : Location) : IO Bool := do
  try
    discard (IO.FS.realPath (l.text ++ "/."))
    return true
  catch _ => return false

def visit (t : FileTree) (l : Location) : IO FileTree := do
  if ← isDirectory l then return t.addDirectory l
  try return t.addFile l (← IO.FS.readBinFile l.text)
  catch _ => return t

def visitAll (t : FileTree) (l : Location) : List String → IO FileTree
  | [] => visit t l
  | part :: rest => do
    let t ← visit t l
    match t.enter l part with
    | none => return t
    | some l => visitAll t l rest

def visitPath (t : FileTree) (path : String) : IO FileTree :=
  match path.toList with
  | '/' :: cs => visitAll t [] (FileTree.parts cs)
  | cs => visitAll t t.here (FileTree.parts cs)

/-- Take files into a tree, and the files that they name, up to a depth. -/
def explore : Nat → FileTree → List String → IO FileTree
  | 0, t, _ => return t
  | _, t, [] => return t
  | depth + 1, t, paths => do
    let t ← paths.foldlM visitPath t
    let contents := paths.filterMap t.read?
    explore depth t (contents.flatMap fun bytes => Session.namedPaths (Lines.ofBytes bytes))

/-- The files that a run may use. -/
def snapshot (i : Invocation) (input : ByteArray) : IO FileTree := do
  let here := ((toString (← IO.currentDir)).splitOn "/").reverse.filter (· ≠ "")
  let t ← visitPath { here } i.config
  let dump := (i.settings t).defaultDump.toList
  let named := Session.namedPaths (Lines.ofBytes input)
  explore (Session.maxDepth + 1) t (dump ++ i.scripts ++ named)

def writeBack (before after : FileTree) : IO Unit :=
  after.files.entries.forM fun (name, contents) => do
    unless (before.files.get? name).any (·.data == contents.data) do
      IO.FS.writeBinFile name contents

def run (i : Invocation) : IO UInt32 := do
  let input ← if i.scripts.isEmpty then (← IO.getStdin).readBinToEnd else pure ByteArray.empty
  let files ← snapshot i input
  let ending := i.run input files
  IO.print ending.out
  (← IO.getStdout).flush
  writeBack files ending.files
  if let some complaint := ending.complaint then IO.eprintln ("Error: " ++ complaint)
  return ending.status.toUInt32

end CallAtlas.Main

def main (args : List String) : IO UInt32 := do
  match CallAtlas.Invocation.ofWords args with
  | .ok i => CallAtlas.Main.run i
  | .error e =>
    match e with
    | .help _ => IO.println (CallAtlas.Invocation.usage.summary "callatlas")
    | e => IO.eprintln e.message
    return e.status.toUInt32
