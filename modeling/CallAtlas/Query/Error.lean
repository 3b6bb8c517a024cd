import CallAtlas.Pattern.Error
/-!
Why a text is no selector, or no path expression.
-/
namespace CallAtlas

inductive Wanted where
  | selector
  | closingBracket
  | closingParenthesis
  | endOfInput
deriving DecidableEq, Repr

def Wanted.text : Wanted → String
  | selector => "node selector"
  | closingBracket => "']'"
  | closingParenthesis => "')'"
  | endOfInput => "end of input"

inductive QueryFault where
  /-- what stands there, if anything does -/
  | expected (wanted : Wanted) (found : Option Char)
  | unterminatedString
  | unterminatedPattern
  | pattern (e : PatternError)
deriving DecidableEq, Repr

def QueryFault.message : QueryFault → String
  | expected wanted none => "expected " ++ wanted.text ++ ", found end of input"
  | expected wanted (some c) => "expected " ++ wanted.text ++ ", found '" ++ c.toString ++ "'"
  | unterminatedString => "unterminated string"
  | unterminatedPattern => "unterminated regex"
  | pattern e => e.message

/-- A fault, and how many bytes of the text stand before it. -/
structure QueryError where
  position : Nat
  fault : QueryFault
deriving DecidableEq, Repr

def QueryError.message (e : QueryError) : String :=
  "invalid search terms at column " ++ toString e.position ++ ": " ++ e.fault.message

end CallAtlas
