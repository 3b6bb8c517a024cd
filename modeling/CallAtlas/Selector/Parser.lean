import CallAtlas.Query.Outcome
import CallAtlas.Selector.Normal
/-!
Selectors from texts. Items stand side by side, and the selector selects what any of them does. An item
is a bare name, a quoted name, a pattern between slashes or a group in brackets, maybe negated and
followed by closures. Inside brackets commas bind closer than bars, bare words are labels, and nothing at
all selects every node.
-/
namespace CallAtlas

namespace Closure

def text : Closure → String
  | callers => ":callers"
  | callees => ":callees"
  | allCallers => ":all_callers"
  | allCallees => ":all_callees"

def all : List Closure := [allCallees, allCallers, callees, callers]

end Closure

namespace Selector

open Query

def closure? (cs : List Char) : Option (Closure × Rest 1 cs) :=
  Closure.all.findSome? fun k =>
    (eat? k.text.toList cs).map fun r => (k, r.weaken (by cases k <;> decide))

def closures (cs : List Char) : List Closure × Rest 0 cs :=
  let spaces := skipSpaces cs
  match closure? spaces.chars with
  | none => ([], .all cs)
  | some (k, r) =>
    let (ks, rest) := closures r.chars
    (k :: ks, ((spaces.andThen r).andThen rest).weaken (Nat.zero_le _))
termination_by cs.length
decreasing_by
  have := r.length_lt
  have := spaces.length_le
  omega

/-- The body of a quoted name and the quote that ends it. A backslash takes the next character as it
is. -/
def quoted : (cs : List Char) → Outcome (List Char) 1 cs
  | [] => .error ⟨.all [], .unterminatedString⟩
  | ['\\'] => .error ⟨(Rest.tail '\\' []).weaken (Nat.zero_le _), .unterminatedString⟩
  | '"' :: cs => .ok ([], .tail '"' cs)
  | '\\' :: c :: cs =>
    ((quoted cs).after ((Rest.tail '\\' (c :: cs)).andThen (.tail c cs))).map (c :: ·)
      |>.weaken (by decide)
  | c :: cs => ((quoted cs).after (.tail c cs)).map (c :: ·) |>.weaken (by decide)

/-- The body of a pattern and the slash that ends it. A backslash before a slash is dropped; before
another character both belong to the pattern. -/
def patternBody : (cs : List Char) → Outcome (List Char) 1 cs
  | [] => .error ⟨.all [], .unterminatedPattern⟩
  | ['\\'] => .error ⟨(Rest.tail '\\' []).weaken (Nat.zero_le _), .unterminatedPattern⟩
  | '/' :: cs => .ok ([], .tail '/' cs)
  | '\\' :: c :: cs =>
    ((patternBody cs).after ((Rest.tail '\\' (c :: cs)).andThen (.tail c cs))).map
        (fun body => if c = '/' then c :: body else '\\' :: c :: body)
      |>.weaken (by decide)
  | c :: cs => ((patternBody cs).after (.tail c cs)).map (c :: ·) |>.weaken (by decide)

/-- Whether an exclamation mark negates the item; white space may stand before it. -/
def negation (cs : List Char) : Bool × Rest 0 cs :=
  let spaces := skipSpaces cs
  match eat? ['!'] spaces.chars with
  | some r => (true, (spaces.andThen r).weaken (Nat.zero_le _))
  | none => (false, spaces)

theorem least_le (inside : Bool) (k : Nat) : (if inside then 0 else 1) ≤ k + 1 := by
  cases inside <;> simp

variable [PatternEngine]

/-- The closures of an item, the first of them innermost. -/
def close (s : Selector) (ks : List Closure) : Selector := ks.foldl (fun s k => closure k s) s

def slashed (cs : List Char) : Outcome Selector 1 cs :=
  match patternBody cs with
  | .error e => .error e
  | .ok (body, rest) =>
    match Pattern.ofText (String.ofList body) with
    | .error e => .error ⟨.all cs, .pattern e⟩
    | .ok p => .ok (pattern p, rest)

/-- A bare word: a name outside brackets, a label inside them, where there may also be none. -/
def bare : (inside : Bool) → (cs : List Char) → Outcome Selector (if inside then 0 else 1) cs
  | false, cs =>
    match word? cs with
    | some (n, rest) => .ok (name n, rest)
    | none => .expected .selector (.all cs)
  | true, cs =>
    match word? cs with
    | some (l, rest) => .ok (label l, rest.weaken (Nat.zero_le _))
    | none => .ok (both [], .all cs)

mutual

def base (inside : Bool) (cs : List Char) : Outcome Selector (if inside then 0 else 1) cs :=
  match cs with
  | '"' :: cs =>
    (((quoted cs).after (.tail '"' cs)).map fun n => name (String.ofList n)).weaken
      (least_le inside _)
  | '/' :: cs => ((slashed cs).after (.tail '/' cs)).weaken (least_le inside _)
  | '[' :: cs =>
    let body : Outcome Selector 0 cs := (alternatives cs).map fun ss => either ss
    let closed : Outcome Selector 1 cs := (body.andThen fun s r =>
      match eat? [']'] r.chars with
      | some rest => .ok (s, rest)
      | none => .expected .closingBracket (.all r.chars)).weaken (by decide)
    (closed.after (.tail '[' cs)).weaken (least_le inside _)
  | cs => bare inside cs
termination_by (cs.length, 0)

def item (inside : Bool) (cs : List Char) : Outcome Selector (if inside then 0 else 1) cs :=
  let (negated, start) := negation cs
  let read : Outcome Selector (if inside then 0 else 1) start.chars :=
    ((base inside start.chars).andThen fun s r =>
      let s := if negated then not s else s
      let (ks, rest) := closures r.chars
      .ok (close s ks, rest)).weaken (Nat.le_refl _)
  (read.after start).weaken (by omega)
termination_by (cs.length, 1)
decreasing_by
  have := start.length_le
  by_cases h : start.chars.length = cs.length
  · rw [h]
    exact Prod.Lex.right _ (by decide)
  · exact Prod.Lex.left _ _ (by omega)

/-- Items between commas, and the white space after them. -/
def conjuncts (cs : List Char) : Outcome (List Selector) 0 cs :=
  (item true cs).andThen fun s r =>
    let spaces := skipSpaces r.chars
    match eat? [','] spaces.chars with
    | none => .ok ([s], spaces)
    | some comma =>
      (((conjuncts comma.chars).after (spaces.andThen comma)).map (s :: ·)).weaken
        (Nat.zero_le _)
termination_by (cs.length, 2)
decreasing_by
  · exact Prod.Lex.right _ (by decide)
  · have := comma.length_lt
    have := spaces.length_le
    have := r.length_le
    exact Prod.Lex.left _ _ (by omega)

/-- Conjunctions between bars. -/
def alternatives (cs : List Char) : Outcome (List Selector) 0 cs :=
  (conjuncts cs).andThen fun ss r =>
    let spaces := skipSpaces r.chars
    match eat? ['|'] spaces.chars with
    | none => .ok ([both ss], spaces)
    | some bar =>
      (((alternatives bar.chars).after (spaces.andThen bar)).map (both ss :: ·)).weaken
        (Nat.zero_le _)
termination_by (cs.length, 3)
decreasing_by
  · exact Prod.Lex.right _ (by decide)
  · have := bar.length_lt
    have := spaces.length_le
    have := r.length_le
    exact Prod.Lex.left _ _ (by omega)

end

def topItem (cs : List Char) : Outcome Selector 1 cs := (item false cs).map optimize

def items (cs : List Char) : Outcome (List Selector) 1 cs :=
  (topItem cs).andThen fun s r =>
    let spaces := skipSpaces r.chars
    match spaces.chars with
    | [] => .ok ([s], spaces)
    | _ => (((items spaces.chars).after spaces).map (s :: ·)).weaken (Nat.zero_le _)
termination_by cs.length
decreasing_by
  have := r.length_lt
  have := (skipSpaces r.chars).length_le
  omega

def ofText (text : String) : Except QueryError Selector :=
  (Query.run items text).map fun ss => optimize (either ss)

end Selector

end CallAtlas
