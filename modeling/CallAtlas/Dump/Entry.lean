import CallAtlas.Graph.Label
import CallAtlas.Text.Decimal
import CallAtlas.Text.Token
/-!
The entries of a dump: what one line says about a graph, and how an entry is written as tokens and read
back from them.
-/
namespace CallAtlas

/-- What one line of a dump says. -/
inductive Entry where
  /-- a symbol that is used, and perhaps defined elsewhere -/
  | mention (name : String)
  | define (name : String) (d : Definition)
  | label (l name : String)
  | edge (caller callee : String) (kind : EdgeKind)
deriving DecidableEq, Repr

inductive EntryError where
  | missingValue (option : String)
  | badLine (text : String)
  | badKind (text : String)
  | externalShape
  | nodeShape
  | labelShape
  | edgeShape
  | unknown (word : String)
deriving DecidableEq, Repr

def EntryError.message : EntryError → String
  | missingValue option => option ++ " needs a value"
  | badLine text => "invalid line number '" ++ text ++ "'"
  | badKind text => EdgeKind.refusal text
  | externalShape => "usage: node --external NAME"
  | nodeShape => "usage: node NAME [FILE]"
  | labelShape => "usage: label LABEL NODE"
  | edgeShape => "usage: edge CALLER CALLEE call|ref"
  | unknown word => "unknown dump command '" ++ word ++ "'"

namespace Entry

/-- The options of a definition. Options without a value are left out. -/
def optionTokens (d : Definition) : List String :=
  (d.username.toList.flatMap fun u => ["--username", u]) ++
    d.line.toList.flatMap fun n => ["--line", toString n]

def tokens : Entry → List String
  | mention name => ["node", "--external", name]
  | define name d => "node" :: (optionTokens d ++ name :: d.file.toList)
  | label l name => ["label", l, name]
  | edge caller callee kind => ["edge", caller, callee, kind.text]

def line (e : Entry) : String := Token.join e.tokens

/-- What the arguments of a node entry say, in whatever order they come. -/
structure NodeArgs where
  external : Bool := false
  username : Option String := none
  line : Option UInt32 := none
  names : List String := []

/-- Read the arguments of a node entry. Of a repeated option the last one counts. -/
def nodeArgs : List String → Except EntryError NodeArgs
  | [] => .ok {}
  | arg :: rest =>
    if arg = "--external" then do
      let args ← nodeArgs rest
      return { args with external := true }
    else if arg = "--username" then
      match rest with
      | [] => .error (.missingValue arg)
      | value :: rest => do
        let args ← nodeArgs rest
        return { args with username := args.username.or value }
    else if arg = "--line" then
      match rest with
      | [] => .error (.missingValue arg)
      | value :: rest =>
        match Decimal.uint32? value with
        | none => .error (.badLine value)
        | some n => do
          let args ← nodeArgs rest
          return { args with line := args.line.or n }
    else do
      let args ← nodeArgs rest
      return { args with names := arg :: args.names }

def ofNodeArgs (args : NodeArgs) : Except EntryError Entry :=
  match args.external, args.names with
  | true, [name] => .ok (mention name)
  | true, _ => .error .externalShape
  | false, [name] => .ok (define name ⟨args.username, none, args.line⟩)
  | false, [name, file] => .ok (define name ⟨args.username, some file, args.line⟩)
  | false, _ => .error .nodeShape

def ofLabelArgs : List String → Except EntryError Entry
  | [l, name] => .ok (label l name)
  | _ => .error .labelShape

def ofEdgeArgs : List String → Except EntryError Entry
  | [caller, callee, kind] =>
    match EdgeKind.ofText? kind with
    | some kind => .ok (edge caller callee kind)
    | none => .error (.badKind kind)
  | _ => .error .edgeShape

/-- The entry in the tokens of a line; a blank line has none. -/
def ofTokens : List String → Except EntryError (Option Entry)
  | [] => .ok none
  | word :: args =>
    if word = "node" then (nodeArgs args >>= ofNodeArgs).map some
    else if word = "label" then (ofLabelArgs args).map some
    else if word = "edge" then (ofEdgeArgs args).map some
    else .error (.unknown word)

end Entry

def Graph.add (g : Graph) : Entry → Except EdgeError Graph
  | .mention name => .ok (g.mention name).2
  | .define name d => .ok (g.define name d).2
  | .label l name => .ok (g.addLabel name l)
  | .edge caller callee kind => g.connect caller callee kind

end CallAtlas
