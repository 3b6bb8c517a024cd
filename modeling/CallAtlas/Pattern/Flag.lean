/-!
Flags of patterns, as they are switched by groups such as `(?i-s)`.
-/
namespace CallAtlas.Pattern

inductive Flag where
  | caseless
  | multiLine
  | dotAll
  | swapGreed
  | unicode
  | crlf
  | extended
deriving DecidableEq, Repr

def Flag.ofChar? : Char → Option Flag
  | 'i' => some caseless
  | 'm' => some multiLine
  | 's' => some dotAll
  | 'U' => some swapGreed
  | 'u' => some unicode
  | 'R' => some crlf
  | 'x' => some extended
  | _ => none

structure Switch where
  on : List Flag := []
  off : List Flag := []
deriving DecidableEq, Repr, Inhabited

namespace Switch

def isEmpty (s : Switch) : Bool := s.on.isEmpty && s.off.isEmpty

def mentions (s : Switch) (f : Flag) : Bool := s.on.contains f || s.off.contains f

def add (s : Switch) (off : Bool) (f : Flag) : Switch :=
  if off then { s with off := f :: s.off } else { s with on := f :: s.on }

def apply (s : Switch) (f : Flag) (before : Bool) : Bool :=
  if s.on.contains f then true else if s.off.contains f then false else before

end Switch

/-- How the parts of a pattern are understood at one place. The greed of repetitions makes no
difference to whether a text matches, and blanks are dealt with when a pattern is read. -/
structure Mode where
  caseless : Bool := false
  multiLine : Bool := false
  dotAll : Bool := false
  unicode : Bool := true
  crlf : Bool := false
deriving DecidableEq, Repr, Inhabited

def Mode.switch (m : Mode) (s : Switch) : Mode where
  caseless := s.apply .caseless m.caseless
  multiLine := s.apply .multiLine m.multiLine
  dotAll := s.apply .dotAll m.dotAll
  unicode := s.apply .unicode m.unicode
  crlf := s.apply .crlf m.crlf

end CallAtlas.Pattern
