/-!
Lexemes of TOML documents. Line ends are line feeds, maybe after a carriage return; strings are read
here, with their escapes.
-/
namespace CallAtlas.Toml

inductive Lexeme where
  | blank (text : String)
  | newline
  | comment
  | equals
  | period
  | comma
  | colon
  | plus
  | openBrace
  | closeBrace
  | openBracket
  | closeBracket
  /-- a bare key, a number, a date or a keyword -/
  | bare (text : String)
  | text (s : String) (multiline : Bool)
deriving DecidableEq, Repr

namespace Lexeme

/-- Fold line ends of two characters into one. -/
def foldLines : List Char → List Char
  | '\r' :: '\n' :: cs => '\n' :: foldLines cs
  | c :: cs => c :: foldLines cs
  | [] => []

def isBare (c : Char) : Bool := c.isAlphanum || c == '-' || c == '_'

def isBlank (c : Char) : Bool := c == ' ' || c == '\t'

def isCommentChar (c : Char) : Bool := c == '\t' || ' ' ≤ c

def isTextChar (c : Char) : Bool := c == '\t' || (' ' ≤ c && c != '\x7f')

def hexDigit? (c : Char) : Option Nat :=
  if c.isDigit then some (c.toNat - '0'.toNat)
  else if 'a' ≤ c && c ≤ 'f' then some (c.toNat - 'a'.toNat + 10)
  else if 'A' ≤ c && c ≤ 'F' then some (c.toNat - 'A'.toNat + 10)
  else none

def hexChar? (digits : List Char) : Option Char := do
  let ds ← digits.mapM hexDigit?
  let n := ds.foldl (fun n d => 16 * n + d) 0
  if n.isValidChar then some (Char.ofNat n) else none

/-- What the character after a backslash stands for, unless it begins a number or a line end. -/
def escaped? : Char → Option Char
  | '"' => some '"'
  | '\\' => some '\\'
  | 'b' => some '\x08'
  | 'f' => some '\x0c'
  | 'n' => some '\n'
  | 'r' => some '\r'
  | 't' => some '\t'
  | _ => none

/-- How a reader of a string of many lines treats what comes next. -/
inductive Fold where
  | keep
  /-- after a backslash and a blank: a line end has to follow -/
  | toLineEnd
  /-- blanks and line ends are dropped -/
  | drop
deriving DecidableEq, Repr

/-- Read the rest of a string up to its closing quotes. Of up to five quotes at the end of a string of
many lines the last three close it. -/
def basic (multiline : Bool) : Fold → List Char → Option (List Char × List Char)
  | _, [] => none
  | .toLineEnd, c :: cs =>
    if isBlank c then basic multiline .toLineEnd cs
    else if c = '\n' then basic multiline .drop cs
    else none
  | .drop, ' ' :: cs => basic multiline .drop cs
  | .drop, '\t' :: cs => basic multiline .drop cs
  | .drop, '\n' :: cs => basic multiline .drop cs
  | _, '\\' :: 'u' :: a :: b :: c :: d :: cs => do
    let x ← hexChar? [a, b, c, d]
    let (s, rest) ← basic multiline .keep cs
    return (x :: s, rest)
  | _, '\\' :: 'U' :: a :: b :: c :: d :: e :: f :: g :: h :: cs => do
    let x ← hexChar? [a, b, c, d, e, f, g, h]
    let (s, rest) ← basic multiline .keep cs
    return (x :: s, rest)
  | _, '\\' :: c :: cs =>
    match escaped? c with
    | some x => (basic multiline .keep cs).map fun (s, rest) => (x :: s, rest)
    | none =>
      if multiline && isBlank c then basic multiline .toLineEnd cs
      else if multiline && c == '\n' then basic multiline .drop cs
      else none
  | _, '"' :: cs =>
    if multiline then
      match cs with
      | '"' :: '"' :: '"' :: '"' :: rest => some (['"', '"'], rest)
      | '"' :: '"' :: '"' :: rest => some (['"'], rest)
      | '"' :: '"' :: rest => some ([], rest)
      | cs => (basic multiline .keep cs).map fun (s, rest) => ('"' :: s, rest)
    else some ([], cs)
  | _, c :: cs =>
    if isTextChar c || (multiline && c == '\n') then
      (basic multiline .keep cs).map fun (s, rest) => (c :: s, rest)
    else none

def literal (multiline : Bool) : List Char → Option (List Char × List Char)
  | [] => none
  | '\'' :: cs =>
    if multiline then
      match cs with
      | '\'' :: '\'' :: '\'' :: '\'' :: rest => some (['\'', '\''], rest)
      | '\'' :: '\'' :: '\'' :: rest => some (['\''], rest)
      | '\'' :: '\'' :: rest => some ([], rest)
      | cs => (literal multiline cs).map fun (s, rest) => ('\'' :: s, rest)
    else some ([], cs)
  | c :: cs =>
    if isTextChar c || (multiline && c == '\n') then
      (literal multiline cs).map fun (s, rest) => (c :: s, rest)
    else none

/-- A line end right after the opening quotes is dropped. -/
def dropFirstLine : List Char → List Char
  | '\n' :: cs => cs
  | cs => cs

def ofText (multiline : Bool) (read : Option (List Char × List Char)) :
    Option (Lexeme × List Char) :=
  read.map fun (s, rest) => (text (String.ofList s) multiline, rest)

def next? (c : Char) (cs : List Char) : Option (Lexeme × List Char) :=
  match c with
  | '\n' => some (newline, cs)
  | '#' => some (comment, cs.dropWhile isCommentChar)
  | '=' => some (equals, cs)
  | '.' => some (period, cs)
  | ',' => some (comma, cs)
  | ':' => some (colon, cs)
  | '+' => some (plus, cs)
  | '\x7b' => some (openBrace, cs)
  | '\x7d' => some (closeBrace, cs)
  | '[' => some (openBracket, cs)
  | ']' => some (closeBracket, cs)
  | '"' =>
    match cs with
    | '"' :: '"' :: cs => ofText true (basic true .keep (dropFirstLine cs))
    | cs => ofText false (basic false .keep cs)
  | '\'' =>
    match cs with
    | '\'' :: '\'' :: cs => ofText true (literal true (dropFirstLine cs))
    | cs => ofText false (literal false cs)
  | c =>
    if isBlank c then
      some (blank (String.ofList (c :: cs.takeWhile isBlank)), cs.dropWhile isBlank)
    else if isBare c then
      some (bare (String.ofList (c :: cs.takeWhile isBare)), cs.dropWhile isBare)
    else none

/-- The lexemes of at most `n` characters. A lexeme takes at least one. -/
def upTo? : (n : Nat) → List Char → Option (List Lexeme)
  | _, [] => some []
  | 0, _ => none
  | n + 1, c :: cs =>
    match next? c cs with
    | none => none
    | some (l, rest) => (upTo? n rest).map (l :: ·)

def all? (cs : List Char) : Option (List Lexeme) := upTo? cs.length cs

/-- The lexemes of a text, which may begin with a byte order mark. -/
def ofDocument? (s : String) : Option (List Lexeme) :=
  match foldLines s.toList with
  | '\ufeff' :: cs => all? cs
  | cs => all? cs

end Lexeme

end CallAtlas.Toml
