import CallAtlas.PathExpr.Basic
import CallAtlas.Selector.Parser
import CallAtlas.Selector.Selection
/-!
Path expressions from texts. Atoms are selector items, which stand for one name each; three full stops
that no longer word continues stand for any names. Elements follow each other, a star repeats the element
before it, bars separate alternatives, and parentheses group.
-/
namespace CallAtlas

variable [PatternEngine]

inductive PathAtom where
  /-- every name -/
  | any
  | node (s : Selector)
deriving DecidableEq

def PathAtom.predicate (g : Graph) : PathAtom → Predicate
  | any => fun _ => true
  | node s => s.predicate g

namespace PathExpr

open Query

/-- Three full stops, unless they begin a longer word. -/
def ellipsis? (cs : List Char) : Option (Rest 3 cs) :=
  (eat? ['.', '.', '.'] cs).filter fun r => !r.chars.head?.any Text.isWordChar

/-- A star right after an expression repeats it. -/
def starred {cs : List Char} (o : Outcome (PathExpr PathAtom) 1 cs) :
    Outcome (PathExpr PathAtom) 1 cs :=
  match o with
  | .error e => .error e
  | .ok (e, r) =>
    match eat? ['*'] r.chars with
    | some rest => .ok (star e, (r.andThen rest).weaken (Nat.le_add_right _ _))
    | none => .ok (e, r)

mutual

def element (cs : List Char) : Outcome (PathExpr PathAtom) 1 cs :=
  match ellipsis? cs with
  | some rest => .ok (star (one .any), rest.weaken (by decide))
  | none =>
    let read : Outcome (PathExpr PathAtom) 1 cs :=
      match cs with
      | '(' :: cs =>
        let closed : Outcome (PathExpr PathAtom) 1 cs :=
          ((alternatives cs).andThen fun es r =>
            let spaces := skipSpaces r.chars
            match eat? [')'] spaces.chars with
            | some rest => .ok (alt es, spaces.andThen rest)
            | none => .expected .closingParenthesis spaces).weaken (Nat.le_add_right _ 1)
        (closed.after (.tail '(' cs)).weaken (by decide)
      | cs => (Selector.topItem cs).map fun s => one (.node s)
    starred read
termination_by (cs.length, 0)

/-- Elements one after the other, and the white space after them. -/
def elements (cs : List Char) : Outcome (List (PathExpr PathAtom)) 1 cs :=
  let start := skipSpaces cs
  let first : Outcome (PathExpr PathAtom) 1 cs :=
    ((element start.chars).after start).weaken (by decide)
  first.andThen fun e r =>
    let spaces := skipSpaces r.chars
    match spaces.chars.head? with
    | none => .ok ([e], spaces)
    | some '|' => .ok ([e], spaces)
    | some ')' => .ok ([e], spaces)
    | some _ => (((elements spaces.chars).after spaces).map (e :: ·)).weaken (Nat.zero_le _)
termination_by (cs.length, 1)
decreasing_by
  · have := (skipSpaces cs).length_le
    by_cases h : (skipSpaces cs).chars.length = cs.length
    · rw [h]
      exact Prod.Lex.right _ (by decide)
    · exact Prod.Lex.left _ _ (by omega)
  · have := r.length_lt
    have := (skipSpaces r.chars).length_le
    exact Prod.Lex.left _ _ (by omega)

def alternatives (cs : List Char) : Outcome (List (PathExpr PathAtom)) 1 cs :=
  (elements cs).andThen fun es r =>
    let spaces := skipSpaces r.chars
    match eat? ['|'] spaces.chars with
    | none => .ok ([seq es], spaces)
    | some bar =>
      (((alternatives bar.chars).after (spaces.andThen bar)).map (seq es :: ·)).weaken
        (Nat.zero_le _)
termination_by (cs.length, 2)
decreasing_by
  · exact Prod.Lex.right _ (by decide)
  · have := bar.length_lt
    have := spaces.length_le
    have := r.length_lt
    exact Prod.Lex.left _ _ (by omega)

end

def ofText (text : String) : Except QueryError (PathExpr PathAtom) :=
  (Query.run (fun cs => finish (alternatives cs)) text).map alt

end PathExpr

end CallAtlas
