import CallAtlas.Pattern.Node
import CallAtlas.Pattern.Tree
/-!
What trees look for. Flags that are switched inside a group hold up to its end, in later alternatives
too.
-/
namespace CallAtlas.Pattern

namespace Anchor

def stands (text : Array Char) (p : Char → Bool) (i : Nat) : Bool := text[i]?.any p

def precedes (text : Array Char) (p : Char → Bool) : Nat → Bool
  | 0 => false
  | i + 1 => text[i]?.any p

def atLineStart (m : Mode) (text : Array Char) (i : Nat) : Bool :=
  i == 0 || (m.multiLine &&
    (precedes text (· == '\n') i ||
      (m.crlf && precedes text (· == '\r') i && !stands text (· == '\n') i)))

def atLineEnd (m : Mode) (text : Array Char) (i : Nat) : Bool :=
  i == text.size || (m.multiLine &&
    (if m.crlf then
      stands text (· == '\r') i ||
        (stands text (· == '\n') i && !precedes text (· == '\r') i)
    else stands text (· == '\n') i))

def holds (m : Mode) (a : Anchor) (text : Array Char) (i : Nat) : Bool :=
  let isWord := Shorthand.word.contains m.unicode
  let before := precedes text isWord i
  let after := stands text isWord i
  match a with
  | lineStart => atLineStart m text i
  | lineEnd => atLineEnd m text i
  | textStart => i == 0
  | textEnd => i == text.size
  | wordEdge => before != after
  | noWordEdge => before == after
  | wordStart => !before && after
  | wordEnd => before && !after
  | wordStartHalf => !before
  | wordEndHalf => !after

end Anchor

namespace Tree

/-- What a tree looks for, and the mode after it. -/
def meaning (m : Mode) : Tree → Except PatternError (Node × Mode)
  | empty => .ok (.empty, m)
  | literal l =>
    if !m.unicode && l.byte && 128 ≤ l.char.toNat then .error .notText
    else .ok (.char (m.fold (· == l.char)), m)
  | dot =>
    if m.unicode then
      .ok (.char fun c => m.dotAll || (c != '\n' && !(m.crlf && c == '\r')), m)
    else .error .notText
  | anchor a => .ok (.look (a.holds m), m)
  | set s => if s.allowed m then .ok (.char (s.contains m), m) else .error .notText
  | switch s => .ok (.empty, m.switch s)
  | group s body => do
    let (a, _) ← meaning (m.switch s) body
    return (a, m)
  | repeated least most body => do
    let (a, m) ← meaning m body
    return (.repeated least most a, m)
  | seq first rest => do
    let (a, m) ← meaning m first
    let (b, m) ← meaning m rest
    return (.seq a b, m)
  | alt first rest => do
    let (a, m) ← meaning m first
    let (b, m) ← meaning m rest
    return (.alt a b, m)

end Tree

end CallAtlas.Pattern
