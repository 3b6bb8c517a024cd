import CallAtlas.Pattern.Lexeme
/-!
Trees from lexemes. What is open is kept on two stacks, one of groups and one of classes; each lexeme
adds to the innermost.
-/
namespace CallAtlas.Pattern

/-- A group that is being read, the latest part first. -/
structure OpenGroup where
  switch : Switch := {}
  /-- finished alternatives -/
  done : List Tree := []
  parts : List Tree := []
deriving Inhabited

namespace OpenGroup

def push (g : OpenGroup) (t : Tree) : OpenGroup := { g with parts := t :: g.parts }

def bar (g : OpenGroup) : OpenGroup :=
  { g with done := .ofSeq g.parts.reverse :: g.done, parts := [] }

def body (g : OpenGroup) : Tree := .ofAlt g.bar.done.reverse

end OpenGroup

/-- A class that is being read: what stands left of the latest operator, and the items since. -/
structure OpenClass where
  negated : Bool
  left : Option (SetOp × CharSet) := none
  items : List CharSet := []

namespace OpenClass

def push (k : OpenClass) (s : CharSet) : OpenClass := { k with items := s :: k.items }

def union : List CharSet → CharSet
  | [] => .none
  | [s] => s
  | s :: ss => .union s (union ss)

def body (k : OpenClass) : CharSet :=
  let right := union k.items.reverse
  match k.left with
  | none => right
  | some (op, left) => .operation op left right

end OpenClass

structure Parser where
  group : OpenGroup := {}
  /-- the groups around it, the innermost first -/
  outer : List OpenGroup := []
  /-- the open classes, the innermost first -/
  classes : List OpenClass := []
deriving Inhabited

namespace Parser

def push (p : Parser) (t : Tree) : Parser := { p with group := p.group.push t }

def step (p : Parser) : Lexeme → Except PatternError Parser
  | .part t => .ok (p.push t)
  | .switch s => .ok (p.push (.switch s))
  | .openGroup s => .ok { p with group := { switch := s }, outer := p.group :: p.outer }
  | .closeGroup =>
    match p.outer with
    | [] => .error .unopenedGroup
    | g :: outer =>
      .ok { p with group := g.push (.group p.group.switch p.group.body), outer }
  | .bar => .ok { p with group := p.group.bar }
  | .times least most =>
    match p.group.parts with
    | [] => .error .nothingToRepeat
    | t :: parts =>
      if t.isSwitch then .error .nothingToRepeat
      else .ok { p with group := { p.group with parts := .repeated least most t :: parts } }
  | .openClass negated ls =>
    .ok { p with classes := { negated, items := ls.map .literal } :: p.classes }
  | .item s =>
    match p.classes with
    | [] => .error .unclosedClass
    | k :: classes => .ok { p with classes := k.push s :: classes }
  | .operator op =>
    match p.classes with
    | [] => .error .unclosedClass
    | k :: classes =>
      .ok { p with classes := { k with left := some (op, k.body), items := [] } :: classes }
  | .closeClass =>
    match p.classes with
    | [] => .error .unclosedClass
    | [k] => .ok { p.push (.set (.brackets k.negated k.body)) with classes := [] }
    | k :: outer :: classes =>
      .ok { p with classes := outer.push (.brackets k.negated k.body) :: classes }

/-- The tree that has been read, when nothing is left open. -/
def finish (p : Parser) : Except PatternError Tree :=
  if !p.classes.isEmpty then .error .unclosedClass
  else if !p.outer.isEmpty then .error .unclosedGroup
  else .ok p.group.body

end Parser

/-- The tree of a pattern. Patterns are nested at most 250 deep. -/
def Tree.ofText (text : String) : Except PatternError Tree := do
  let ls ← lexemes {} text.toList
  let p ← ls.foldlM Parser.step {}
  let t ← p.finish
  if t.depth .fresh ≤ 250 then return t else .error .tooDeep

end CallAtlas.Pattern
