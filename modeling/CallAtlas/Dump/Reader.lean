import CallAtlas.Dump.Entry
import CallAtlas.Text.Lines
/-!
Graphs from dumps. The entries are added in order; the first line that cannot be used ends the reading.
-/
namespace CallAtlas

inductive LineError where
  | split (e : SplitError)
  | entry (e : EntryError)
  | edge (e : EdgeError)
deriving DecidableEq, Repr

def LineError.message : LineError → String
  | split e => e.message
  | entry e => e.message
  | edge e => e.message

inductive DumpError where
  /-- a line, counted from 1, was refused -/
  | atLine (line : Nat) (cause : LineError)
  | notText
deriving DecidableEq, Repr

namespace Graph

/-- Add what a line says to a graph; blank lines and comments say nothing. -/
def addLine (g : Graph) (line : String) : Except LineError Graph :=
  match Token.split line with
  | .error e => .error (.split e)
  | .ok tokens =>
    match Entry.ofTokens tokens with
    | .error e => .error (.entry e)
    | .ok none => .ok g
    | .ok (some entry) => (g.add entry).mapError .edge

/-- Add lines to a graph; `n` lines were read before. -/
def addLines (g : Graph) (n : Nat) : List Line → Except DumpError Graph
  | [] => .ok g
  | none :: _ => .error .notText
  | some line :: rest =>
    match g.addLine line with
    | .error e => .error (.atLine (n + 1) e)
    | .ok g => addLines g (n + 1) rest

def ofDump (lines : List Line) : Except DumpError Graph := addLines {} 0 lines

end Graph

end CallAtlas
