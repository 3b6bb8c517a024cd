import CallAtlas.Graph.Filter
import CallAtlas.Text.Lines
import CallAtlas.Toml.Document
/-!
Settings of a session, and how they are read from a TOML document. What a document leaves out has its
default, and what it has besides is passed over.
-/
namespace CallAtlas

structure Settings where
  /-- what queries look at when no option asks for more -/
  scope : Scope := {}
  /-- how many paths are printed when no option says it -/
  limit : Option Nat := none
  /-- the file that a graph is saved to when none is named -/
  defaultDump : Option String := none
  /-- a script ends at its first failure -/
  stopOnError : Bool := true
deriving DecidableEq, Repr, Inhabited

namespace Settings

open Toml (Value Entries)

def bool? : Value → Option Bool
  | .boolean b => some b
  | _ => none

def nat? : Value → Option Nat
  | .integer n => if 0 ≤ n then some n.toNat else none
  | _ => none

def string? : Value → Option String
  | .string s => some s
  | _ => none

/-- The value under a key, or the default if the key is missing. A key may not be repeated. -/
def entry? {α : Type} (es : Entries) (k : String) (default : α) (read : Value → Option α) :
    Option α :=
  match es.filter (·.1 == k) with
  | [] => some default
  | [(_, v)] => read v
  | _ => none

/-- The entries of a section: a table, or an array of the values of its keys in their order. -/
def section? (keys : List String) : Value → Option Entries
  | .table _ es => some es
  | .array vs => if vs.length ≤ keys.length then some (keys.zip vs) else none
  | _ => none

def read? (es : Entries) (name : String) (keys : List String)
    (read : Settings → Entries → Option Settings) (s : Settings) : Option Settings :=
  entry? es name s fun v => (section? keys v).bind (read s)

def ofEntries? (es : Entries) : Option Settings := do
  let s ← read? es "search" ["include_external", "include_ref", "limit"] (fun s es => do
    let externals ← entry? es "include_external" false bool?
    let refs ← entry? es "include_ref" false bool?
    let limit ← entry? es "limit" none fun v => (nat? v).map some
    return { s with scope := ⟨externals, refs⟩, limit }) {}
  let s ← read? es "output" ["default_dump"] (fun s es => do
    let defaultDump ← entry? es "default_dump" none fun v => (string? v).map some
    return { s with defaultDump }) s
  read? es "session" ["stop_on_error"] (fun s es => do
    let stopOnError ← entry? es "stop_on_error" true bool?
    return { s with stopOnError }) s

def ofToml? (text : String) : Option Settings := (Toml.ofText? text).bind ofEntries?

end Settings

end CallAtlas
