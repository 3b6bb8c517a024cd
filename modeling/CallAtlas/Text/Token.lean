import CallAtlas.Text.Space
/-!
Lines as lists of tokens. Tokens are separated by white space; double quotes hold words together, a
backslash takes the next character as it is, and a number sign at the start of a token begins a
comment. `quote` writes a token so that `split` reads it back.
-/
namespace CallAtlas

inductive SplitError where
  | unterminatedQuote
  | trailingBackslash
deriving DecidableEq, Repr

def SplitError.message : SplitError → String
  | unterminatedQuote => "unterminated quote"
  | trailingBackslash => "trailing backslash"

namespace Token

/-- Where a reader of a line stands: between tokens, in a token, or in the quoted part of one. -/
inductive Place where
  | gap
  | plain
  | quoted
deriving DecidableEq, Repr

/-- A character that belongs to a token leads from a gap into the token. -/
def Place.inside : Place → Place
  | gap => plain
  | plain => plain
  | quoted => quoted

def Place.toggled : Place → Place
  | gap => quoted
  | plain => quoted
  | quoted => plain

def push (c : Char) : List (List Char) → List (List Char)
  | [] => [[c]]
  | t :: ts => (c :: t) :: ts

/-- The tokens from a place on. The first of them is what is left of the token that the place is in,
unless the place is a gap. -/
def splitFrom : Place → List Char → Except SplitError (List (List Char))
  | .gap, [] => .ok []
  | .plain, [] => .ok [[]]
  | .quoted, [] => .error .unterminatedQuote
  | _, ['\\'] => .error .trailingBackslash
  | place, '\\' :: c :: cs => (splitFrom place.inside cs).map (push c)
  | place, '"' :: cs => splitFrom place.toggled cs
  | .quoted, c :: cs => (splitFrom .quoted cs).map (push c)
  | .plain, c :: cs =>
    if Text.isSpace c then (splitFrom .gap cs).map ([] :: ·)
    else (splitFrom .plain cs).map (push c)
  | .gap, c :: cs =>
    if Text.isSpace c then splitFrom .gap cs
    else if c = '#' then .ok []
    else (splitFrom .plain cs).map (push c)

def split (line : String) : Except SplitError (List String) :=
  (splitFrom .gap line.toList).map fun ts => ts.map String.ofList

/-- Whether a token is read back as it stands. -/
def isPlain (token : List Char) : Bool :=
  !token.isEmpty && token.head? != some '#' &&
    token.all fun c => !Text.isSpace c && c != '"' && c != '\\'

def escape : List Char → List Char
  | [] => []
  | c :: cs => if c = '"' ∨ c = '\\' then '\\' :: c :: escape cs else c :: escape cs

def quoteChars (token : List Char) : List Char :=
  if isPlain token then token else '"' :: (escape token ++ ['"'])

/-- A token as it is written in a line, between double quotes where it needs them. -/
def quote (token : String) : String := String.ofList (quoteChars token.toList)

def join (tokens : List String) : String := " ".intercalate (tokens.map quote)

end Token

end CallAtlas
