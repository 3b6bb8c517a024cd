import CallAtlas.Graph.Visibility
/-!
Graphs of program symbols joined by call and reference edges: the types, how graphs are built, and how
names are looked up. A node is known by its canonical name; a symbol that is only mentioned is an
external node until it is defined, and only its first definition counts.
-/
namespace CallAtlas

inductive EdgeKind where
  | call
  /-- the callee is only mentioned: its address is taken, it stands in a table -/
  | ref
deriving DecidableEq, Repr, Inhabited

namespace EdgeKind

def text : EdgeKind → String
  | call => "call"
  | ref => "ref"

def ofText? : String → Option EdgeKind
  | "call" => some call
  | "ref" => some ref
  | _ => none

def refusal (text : String) : String :=
  "invalid edge type '" ++ text ++ "' (expected 'call' or 'ref')"

theorem ofText?_text (k : EdgeKind) : ofText? k.text = some k := by cases k <;> rfl

end EdgeKind

structure Definition where
  /-- the name shown instead of the canonical one -/
  username : Option String := none
  file : Option String := none
  line : Option UInt32 := none
deriving DecidableEq, Repr, Inhabited

structure Node where
  /-- the canonical name, which identifies the node -/
  name : String
  /-- missing for an external node -/
  definition : Option Definition := none
deriving DecidableEq, Repr, Inhabited

namespace Node

def isExternal (n : Node) : Bool := n.definition.isNone

def username (n : Node) : Option String := n.definition.bind (·.username)

def file (n : Node) : Option String := n.definition.bind (·.file)

def line (n : Node) : Option UInt32 := n.definition.bind (·.line)

def displayName (n : Node) : String := n.username.getD n.name

end Node

/-- An edge between nodes given by their positions. -/
structure Edge where
  caller : Nat
  callee : Nat
  kind : EdgeKind
deriving DecidableEq, Repr, Inhabited

structure Graph where
  /-- in the order in which they were first mentioned -/
  nodes : Array Node := #[]
  /-- positions of the defined nodes, the latest definition first -/
  definitions : List Nat := []
  /-- in the order in which they were first added -/
  edges : Array Edge := #[]
  /-- for each label the canonical names that carry it -/
  labels : NameMap NameSet := ∅
  visibility : Visibility := {}
deriving DecidableEq, Inhabited

inductive EdgeError where
  | unknownCaller (name : String)
  | externalCaller (name : String)
deriving DecidableEq, Repr

def EdgeError.message : EdgeError → String
  | unknownCaller name => "caller not found in graph: " ++ name
  | externalCaller name => "cannot add edge from external node: " ++ name

namespace Graph

def size (g : Graph) : Nat := g.nodes.size

def find? (g : Graph) (name : String) : Option Nat := g.nodes.findIdx? (·.name == name)

def nameAt (g : Graph) (i : Nat) : String := (g.nodes[i]?.map Node.name).getD ""

/-- The name under which a node is shown. -/
def displayAt (g : Graph) (i : Nat) : String := (g.nodes[i]?.map Node.displayName).getD ""

def isExternalAt (g : Graph) (i : Nat) : Bool := g.nodes[i]?.any Node.isExternal

/-- The position of the node whose latest definition took that username. -/
def findUsername? (g : Graph) (username : String) : Option Nat :=
  g.definitions.find? fun i => (g.nodes[i]?.bind Node.username) == some username

/-- The position of a node by username or, when no definition took it, by canonical name. -/
def resolve? (g : Graph) (name : String) : Option Nat :=
  (g.findUsername? name).or (g.find? name)

def node? (g : Graph) (name : String) : Option Node := (g.resolve? name).bind (g.nodes[·]?)

def named? (g : Graph) (name : String) : Option Node := (g.find? name).bind (g.nodes[·]?)

def contains (g : Graph) (name : String) : Bool := (g.resolve? name).isSome

def isExternal (g : Graph) (name : String) : Bool := (g.resolve? name).any g.isExternalAt

def displayName? (g : Graph) (name : String) : Option String := (g.resolve? name).map g.displayAt

/-- The canonical name that a name stands for; a name that is not in the graph stands for itself. -/
def canonical (g : Graph) (name : String) : String := ((g.resolve? name).map g.nameAt).getD name

def edge? (g : Graph) (caller callee : Nat) : Option EdgeKind :=
  (g.edges.find? fun e => e.caller == caller && e.callee == callee).map (·.kind)

def edgeKind? (g : Graph) (caller callee : String) : Option EdgeKind := do
  g.edge? (← g.resolve? caller) (← g.resolve? callee)

def calleesAt (g : Graph) (i : Nat) : List Nat :=
  (g.edges.toList.filter (·.caller == i)).map (·.callee)

def callersAt (g : Graph) (i : Nat) : List Nat :=
  (g.edges.toList.filter (·.callee == i)).map (·.caller)

/-- Make sure that a symbol is in the graph, as an external node if it is new. -/
def mention (g : Graph) (name : String) : Nat × Graph :=
  match g.find? name with
  | some i => (i, g)
  | none => (g.size, { g with nodes := g.nodes.push { name } })

/-- Define a symbol. Later definitions of the same symbol change nothing. -/
def define (g : Graph) (name : String) (d : Definition) : Nat × Graph :=
  let (i, g) := g.mention name
  if g.isExternalAt i then
    (i, { g with
      nodes := g.nodes.setIfInBounds i { name, definition := some d }
      definitions := i :: g.definitions })
  else (i, g)

/-- Put an edge between two positions. A call replaces a reference, not the other way round. -/
def join (g : Graph) (caller callee : Nat) (kind : EdgeKind) : Graph :=
  match g.edges.findIdx? fun e => e.caller == caller && e.callee == callee with
  | none => { g with edges := g.edges.push ⟨caller, callee, kind⟩ }
  | some k =>
    if kind = .call then { g with edges := g.edges.setIfInBounds k ⟨caller, callee, .call⟩ } else g

/-- Add an edge between canonical names. The caller has to be defined; the callee is mentioned. -/
def connect (g : Graph) (caller callee : String) (kind : EdgeKind) : Except EdgeError Graph :=
  match g.find? caller with
  | none => .error (.unknownCaller caller)
  | some i =>
    if g.isExternalAt i then .error (.externalCaller caller)
    else
      let (j, g) := g.mention callee
      .ok (g.join i j kind)

end Graph

end CallAtlas
