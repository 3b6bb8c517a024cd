import CallAtlas.Pattern.Tree
/-!
How much room the machine of a pattern takes when its repetitions are written out, in bytes. A
character takes one state of 32 bytes for each byte of its encoding. For large sets of characters the
room is estimated from how scattered they are; the limit is so high that this seldom matters.
-/
namespace CallAtlas.Pattern

/-- Patterns that take more room are refused. -/
def weightLimit : Nat := 10485760

def rangesWeight (n : Nat) : Nat := 32 + 64 * n

def Property.weight : Property → Nat
  | ascii => rangesWeight 1
  | any | whiteSpace => rangesWeight 10
  | categories ks => rangesWeight (ks.foldl (fun n k => n + k.ranges.length) 0)
  | script s => rangesWeight s.ranges.length
  | alphabetic | lowercase | uppercase | unassigned => rangesWeight 700

namespace CharSet

def weight : CharSet → Nat
  | none => 32
  | literal _ | range _ _ => rangesWeight 1
  | shorthand _ .word => rangesWeight 750
  | shorthand _ .digit => rangesWeight 64
  | shorthand _ .space => rangesWeight 10
  | property _ p => p.weight
  | posix _ _ => rangesWeight 2
  | brackets negated s => s.weight + if negated then rangesWeight 8 else 0
  | union s t => s.weight + t.weight
  | operation _ s t => max s.weight t.weight

end CharSet

/-- The room of a tree; parts that are repeated count as often as they may have to be written. -/
def Tree.weight : Tree → Nat
  | empty | switch _ => 0
  | literal l => 32 * l.char.utf8Size
  | dot => rangesWeight 8
  | anchor _ => 32
  | set s => s.weight
  | group _ body => 64 + body.weight
  | repeated least none body => max least 1 * body.weight + 40
  | repeated least (some most) body => most * body.weight + 40 * (most - least)
  | seq first rest => first.weight + rest.weight
  | alt first rest => first.weight + rest.weight + 40

end CallAtlas.Pattern
