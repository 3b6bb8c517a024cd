import CallAtlas.Pattern.Error
import CallAtlas.Pattern.Flag
import CallAtlas.Pattern.Property
import CallAtlas.Text.Folding
/-!
Sets of characters as patterns write them, and which characters they hold in which mode.
-/
namespace CallAtlas.Pattern

structure Literal where
  char : Char
  /-- written as one byte, by two hexadecimal digits -/
  byte : Bool := false
deriving DecidableEq, Repr, Inhabited

inductive Shorthand where
  | digit
  | space
  | word
deriving DecidableEq, Repr

inductive Posix where
  | alnum
  | alpha
  | ascii
  | blank
  | cntrl
  | digit
  | graph
  | lower
  | print
  | punct
  | space
  | upper
  | word
  | xdigit
deriving DecidableEq, Repr

inductive SetOp where
  | intersection
  | difference
  | symmetricDifference
deriving DecidableEq, Repr

inductive CharSet where
  | none
  | literal (l : Literal)
  | range (first last : Literal)
  | shorthand (negated : Bool) (s : Shorthand)
  | property (negated : Bool) (p : Property)
  | posix (negated : Bool) (p : Posix)
  | brackets (negated : Bool) (s : CharSet)
  | union (s t : CharSet)
  | operation (op : SetOp) (s t : CharSet)
deriving Repr, Inhabited

def isAsciiSpace (c : Char) : Bool := c == ' ' || ('\t' ≤ c && c ≤ '\r')

def isAsciiWord (c : Char) : Bool := c.isAlphanum || c == '_'

namespace Shorthand

def contains (s : Shorthand) (unicode : Bool) (c : Char) : Bool :=
  match s, unicode with
  | digit, true => Text.Category.decimalNumber.contains c
  | digit, false => c.isDigit
  | space, true => Text.isSpace c
  | space, false => isAsciiSpace c
  | word, true => Text.isWordLike c
  | word, false => isAsciiWord c

end Shorthand

namespace Posix

def ofName? : String → Option Posix
  | "alnum" => some alnum
  | "alpha" => some alpha
  | "ascii" => some ascii
  | "blank" => some blank
  | "cntrl" => some cntrl
  | "digit" => some digit
  | "graph" => some graph
  | "lower" => some lower
  | "print" => some print
  | "punct" => some punct
  | "space" => some space
  | "upper" => some upper
  | "word" => some word
  | "xdigit" => some xdigit
  | _ => .none

def contains : Posix → Char → Bool
  | alnum, c => c.isAlphanum
  | alpha, c => c.isAlpha
  | ascii, c => c.toNat < 128
  | blank, c => c == ' ' || c == '\t'
  | cntrl, c => c.toNat < 32 || c.toNat == 127
  | digit, c => c.isDigit
  | graph, c => '!' ≤ c && c ≤ '~'
  | lower, c => c.isLower
  | print, c => ' ' ≤ c && c ≤ '~'
  | punct, c => '!' ≤ c && c ≤ '~' && !c.isAlphanum
  | space, c => isAsciiSpace c
  | upper, c => c.isUpper
  | word, c => isAsciiWord c
  | xdigit, c => c.isDigit || ('a' ≤ c && c ≤ 'f') || ('A' ≤ c && c ≤ 'F')

end Posix

def SetOp.apply : SetOp → Bool → Bool → Bool
  | intersection, a, b => a && b
  | difference, a, b => a && !b
  | symmetricDifference, a, b => a != b

/-- Whether a set holds a character, or a case variant of it where case makes no difference. -/
def Mode.fold (m : Mode) (set : Char → Bool) (c : Char) : Bool :=
  if m.caseless then
    (if m.unicode then Text.caseVariants c else Text.asciiVariants c).any set
  else set c

namespace CharSet

def contains (m : Mode) : CharSet → Char → Bool
  | none, _ => false
  | literal l, c => c == l.char
  | range first last, c => first.char ≤ c && c ≤ last.char
  | shorthand negated s, c => s.contains m.unicode c != negated
  | property negated p, c => m.fold p.contains c != negated
  | posix negated p, c => m.fold p.contains c != negated
  | brackets negated s, c => m.fold (s.contains m) c != negated
  | union s t, c => s.contains m c || t.contains m c
  | operation op s t, c => op.apply (m.fold (s.contains m) c) (m.fold (t.contains m) c)

/-- Whether no part of a set could hold anything but ASCII characters. -/
def isAscii : CharSet → Bool
  | none => true
  | literal l => l.char.toNat < 128
  | range first last => first.char.toNat < 128 && last.char.toNat < 128
  | shorthand negated _ => !negated
  | property _ _ => false
  | posix negated _ => !negated
  | brackets negated s => !negated && s.isAscii
  | union s t => s.isAscii && t.isAscii
  | operation _ s t => s.isAscii && t.isAscii

/-- Without the Unicode flag a set may be made of ASCII characters only. -/
def allowed (m : Mode) (s : CharSet) : Bool := m.unicode || s.isAscii

end CharSet

end CallAtlas.Pattern
