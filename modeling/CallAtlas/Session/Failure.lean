import CallAtlas.Command.Usage
import CallAtlas.Query.Error
import CallAtlas.Text.Token
/-!
Why a command or a script failed, and where.
-/
namespace CallAtlas

inductive Cause where
  | split (e : SplitError)
  | usage (e : UsageError)
  /-- an external node was given a file, a username or a line -/
  | externalDetails
  | edge (e : EdgeError)
  | query (e : QueryError)
  /-- the file is sourced by files that are nested too deeply -/
  | tooDeep (path : String)
  | unreadable (path : String)
  | unwritable (path : String)
  /-- a line of a script is not text -/
  | notText
deriving DecidableEq, Repr

def Cause.message : Cause → String
  | split e => e.message
  | usage e => e.message
  | externalDetails => "external nodes take no file, username or line"
  | edge e => e.message
  | query e => e.message
  | tooDeep path => path ++ ": source files nested too deeply"
  | unreadable path => path ++ ": cannot be read"
  | unwritable path => path ++ ": cannot be written"
  | notText => "stream did not contain valid UTF-8"

/-- A cause with the place where it arose, if that is known: a line of a script, maybe of a file. -/
inductive Failure where
  | bare (cause : Cause)
  | atLine (line : Nat) (cause : Cause)
  | inFile (path : String) (line : Nat) (cause : Cause)
deriving DecidableEq, Repr

namespace Failure

def cause : Failure → Cause
  | bare cause => cause
  | atLine _ cause => cause
  | inFile _ _ cause => cause

def message : Failure → String
  | bare cause => cause.message
  | atLine line cause => "line " ++ toString line ++ ": " ++ cause.message
  | inFile path line cause => path ++ ": line " ++ toString line ++ ": " ++ cause.message

/-- Say at which line a failure arose, unless it says that already. -/
def onLine (line : Nat) : Failure → Failure
  | bare cause => atLine line cause
  | f => f

/-- Say of which file a line is, unless that is known. -/
def ofFile (path : String) : Failure → Failure
  | atLine line cause => inFile path line cause
  | f => f

end Failure

end CallAtlas
