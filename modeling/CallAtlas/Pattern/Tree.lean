import CallAtlas.Pattern.CharSet
/-!
Patterns as they are written.
-/
namespace CallAtlas.Pattern

inductive Anchor where
  | lineStart
  | lineEnd
  | textStart
  | textEnd
  | wordEdge
  | noWordEdge
  | wordStart
  | wordEnd
  | wordStartHalf
  | wordEndHalf
deriving DecidableEq, Repr

inductive Tree where
  | empty
  | literal (l : Literal)
  | dot
  | anchor (a : Anchor)
  | set (s : CharSet)
  /-- flags for what follows in the group -/
  | switch (s : Switch)
  | group (s : Switch) (body : Tree)
  /-- as many times as from `least` to `most`, or more if there is no `most` -/
  | repeated (least : Nat) (most : Option Nat) (body : Tree)
  | seq (first : Tree) (rest : Tree)
  | alt (first : Tree) (rest : Tree)
deriving Repr, Inhabited

namespace Tree

def isSwitch : Tree → Bool
  | switch _ => true
  | _ => false

def ofSeq : List Tree → Tree
  | [] => empty
  | [t] => t
  | t :: ts => seq t (ofSeq ts)

def ofAlt : List Tree → Tree
  | [] => empty
  | [t] => t
  | t :: ts => alt t (ofAlt ts)

/-- How deep sets are nested in each other. In a spine of unions only the first counts. -/
def setDepth (spine : Bool) : CharSet → Nat
  | .brackets _ s => 1 + setDepth false s
  | .union s t => (if spine then 0 else 1) + max (setDepth false s) (setDepth true t)
  | .operation _ s t => 1 + max (setDepth false s) (setDepth false t)
  | _ => 0

/-- What the right part of a tree continues. -/
inductive Spine where
  | fresh
  | seq
  | alt
deriving DecidableEq, Repr

/-- How deep a tree is nested. A sequence counts once, however long, and so does a choice. -/
def depth (spine : Spine) : Tree → Nat
  | set s => setDepth false s
  | group _ body => 1 + depth .fresh body
  | repeated _ _ body => 1 + depth .fresh body
  | seq first rest =>
    (if spine = .seq then 0 else 1) + max (depth .fresh first) (depth .seq rest)
  | alt first rest =>
    (if spine = .alt then 0 else 1) + max (depth .fresh first) (depth .alt rest)
  | _ => 0

end Tree

end CallAtlas.Pattern
