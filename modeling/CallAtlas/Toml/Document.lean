import CallAtlas.Toml.Number
import CallAtlas.Toml.Value
/-!
TOML documents. The lines are read into sections, each a header and the entries under it, and the
sections are put together into one table. A table may be opened once, except as a further element of an
array of tables.
-/
namespace CallAtlas.Toml

/-- A header with the entries under it. The entries before the first header have an empty one. -/
structure Section where
  header : List String := []
  /-- the header stands in double brackets -/
  isElement : Bool := false
  entries : Entries := []

namespace Lexeme

def skipBlank : List Lexeme → List Lexeme
  | blank _ :: ls => ls
  | ls => ls

def skipGaps : List Lexeme → List Lexeme
  | blank _ :: ls => skipGaps ls
  | newline :: ls => skipGaps ls
  | comment :: ls => skipGaps ls
  | ls => ls

def lineEnd? (ls : List Lexeme) : Option (List Lexeme) :=
  let ls := match skipBlank ls with
    | comment :: ls => ls
    | ls => ls
  match ls with
  | [] => some []
  | newline :: ls => some ls
  | _ => none

def key? : List Lexeme → Option (String × List Lexeme)
  | bare s :: ls => some (s, ls)
  | text s false :: ls => some (s, ls)
  | _ => none

/-- Further keys of a path, each after a full stop, and the blank after them. -/
def furtherKeys : List Lexeme → Option (List String × List Lexeme)
  | blank _ :: ls => furtherKeys ls
  | period :: blank _ :: bare s :: ls => (furtherKeys ls).map fun (ks, ls) => (s :: ks, ls)
  | period :: blank _ :: text s false :: ls => (furtherKeys ls).map fun (ks, ls) => (s :: ks, ls)
  | period :: bare s :: ls => (furtherKeys ls).map fun (ks, ls) => (s :: ks, ls)
  | period :: text s false :: ls => (furtherKeys ls).map fun (ks, ls) => (s :: ks, ls)
  | period :: _ => none
  | ls => some ([], ls)

def path? (ls : List Lexeme) : Option (List String × List Lexeme) := do
  let (k, ls) ← key? ls
  let (ks, ls) ← furtherKeys ls
  return (k :: ks, ls)

def number? (s : String) (ls : List Lexeme) : Option (Value × List Lexeme) :=
  let cs := s.toList
  let isRadix := match cs with
    | '0' :: c :: _ => c == 'x' || c == 'o' || c == 'b'
    | _ => false
  if isRadix then (Number.integer? cs).map fun n => (.integer n, ls)
  else if cs.contains 'e' || cs.contains 'E' then
    (Number.float? cs none ls).map fun ls => (.float, ls)
  else
    match ls with
    | period :: bare after :: ls =>
      (Number.float? cs (some after.toList) ls).map fun ls => (.float, ls)
    | period :: _ => none
    | ls =>
      if s == "inf" || s == "-inf" || s == "nan" || s == "-nan" then some (.float, ls)
      else (Number.integer? cs).map fun n => (.integer n, ls)

/-- A keyword, a number or a date. -/
def word? (s : String) (ls : List Lexeme) : Option (Value × List Lexeme) :=
  if s == "true" then some (.boolean true, ls)
  else if s == "false" then some (.boolean false, ls)
  else if s == "inf" || s == "nan" || s.toList.head?.any fun c => c == '-' || c.isDigit then
    if Number.isDate s.toList then (Number.afterDate false ls).map fun ls => (.datetime, ls)
    else
      match ls with
      | colon :: ls => (Number.afterDate true ls).map fun ls => (.datetime, ls)
      | ls => number? s ls
  else none

mutual

/-- A value. It is nested less deep than there are lexemes. -/
def value? : Nat → List Lexeme → Option (Value × List Lexeme)
  | 0, _ => none
  | n + 1, ls =>
    match ls with
    | text s _ :: ls => some (.string s, ls)
    | bare s :: ls => word? s ls
    | plus :: bare s :: ls => number? s ls
    | openBracket :: ls => (elements? n ls).map fun (vs, ls) => (.array vs, ls)
    | openBrace :: ls =>
      match skipBlank ls with
      | closeBrace :: ls => some (.table false [], ls)
      | ls => (pairs? n [] ls).map fun (es, ls) => (.table false es, ls)
    | _ => none

def elements? : Nat → List Lexeme → Option (List Value × List Lexeme)
  | 0, _ => none
  | n + 1, ls =>
    match skipGaps ls with
    | closeBracket :: ls => some ([], ls)
    | ls => do
      let (v, ls) ← value? n ls
      match skipGaps ls with
      | comma :: ls =>
        let (vs, ls) ← elements? n ls
        return (v :: vs, ls)
      | closeBracket :: ls => return ([v], ls)
      | _ => none

def pairs? : Nat → Entries → List Lexeme → Option (Entries × List Lexeme)
  | 0, _, _ => none
  | n + 1, es, ls => do
    let (path, ls) ← path? ls
    match ls with
    | equals :: ls =>
      let (v, ls) ← value? n (skipBlank ls)
      let es ← es.insert? path v
      match skipBlank ls with
      | closeBrace :: ls => return (es, ls)
      | comma :: ls => pairs? n es (skipBlank ls)
      | _ => none
    | _ => none

end

def header? (isElement : Bool) (ls : List Lexeme) : Option (Section × List Lexeme) := do
  let (header, ls) ← path? (skipBlank ls)
  match isElement, ls with
  | true, closeBracket :: closeBracket :: ls =>
    return (⟨header, true, []⟩, ← lineEnd? ls)
  | false, closeBracket :: ls => return (⟨header, false, []⟩, ← lineEnd? ls)
  | _, _ => none

/-- One line: a header, or an entry of the section that is open. At most `n` lexemes are left. -/
def line? (n : Nat) (current : Section) (ls : List Lexeme) :
    Option ((Section ⊕ Section) × List Lexeme) :=
  match ls with
  | openBracket :: openBracket :: ls => (header? true ls).map fun (s, ls) => (.inl s, ls)
  | openBracket :: ls => (header? false ls).map fun (s, ls) => (.inl s, ls)
  | ls => do
    let (path, ls) ← path? ls
    match ls with
    | equals :: ls =>
      let (v, ls) ← value? (n + 1) (skipBlank ls)
      let entries ← current.entries.insert? path v
      return (.inr { current with entries }, ← lineEnd? ls)
    | _ => none

/-- The sections in at most `n` lexemes, the open one first. A line takes at least one lexeme. -/
def sections? : (n : Nat) → Section → List Lexeme → Option (List Section)
  | n, current, ls =>
    match skipGaps ls with
    | [] => some [current]
    | ls =>
      match n with
      | 0 => none
      | n + 1 =>
        match line? (n + 1) current ls with
        | none => none
        | some (.inl next, rest) => (sections? n next rest).map (current :: ·)
        | some (.inr current, rest) => sections? n current rest

end Lexeme

namespace Section

/-- Sections grouped by their first key, in the order in which the keys come first. The key is taken
from their headers. -/
def groups (ss : List Section) : List (String × List Section) :=
  let keys := (ss.filterMap (·.header.head?)).eraseDups
  keys.map fun k =>
    (k, (ss.filter (·.header.head? == some k)).map fun s => { s with header := s.header.tail })

/-- Runs of sections, each from one element of an array to the next. -/
def runs : List Section → List (List Section)
  | [] => []
  | s :: ss =>
    match runs ss with
    | [] => [[s]]
    | run :: rest =>
      if run.head?.any fun t => t.isElement && t.header.isEmpty then [s] :: run :: rest
      else (s :: run) :: rest

/-- The table of sections whose headers are relative to it. At most one of them is its own, and that is
no further element of an array. Headers have at most `n` keys. -/
def entries? : (n : Nat) → List Section → Option Entries
  | n, ss =>
    let own := ss.filter (·.header.isEmpty)
    if 1 < own.length || own.any (·.isElement) then none
    else
      let first := own.flatMap (·.entries)
      match n with
      | 0 => some first
      | n + 1 => do
        let tables ← (groups ss).mapM fun (k, ss) => (value? n ss).map fun v => (k, v)
        return first ++ tables
where
  /-- An array of tables if the first section is an element, a table otherwise. -/
  value? (n : Nat) (ss : List Section) : Option Value :=
    match ss with
    | [] => none
    | s :: _ =>
      if s.isElement && s.header.isEmpty then do
        let tables ← (runs ss).mapM fun run =>
          match run with
          | [] => none
          | s :: ss => entries? n ({ s with isElement := false } :: ss)
        return .array (tables.map (.table false))
      else (entries? n ss).map (.table false)

end Section

def ofText? (text : String) : Option Entries := do
  let ls ← Lexeme.ofDocument? text
  let ss ← Lexeme.sections? ls.length {} ls
  Section.entries? ((ss.map (·.header.length)).foldl max 0) ss

end CallAtlas.Toml
