import CallAtlas.IndexSet
/-!
Matching. A pattern relates the places of a text: it leads from where a match may start to where it may
end. All starts are followed at once, as a set.
-/
namespace CallAtlas.Pattern

/-- What a pattern looks for, with flags and classes worked out. -/
inductive Node where
  | empty
  | char (accepts : Char → Bool)
  /-- a condition on a place of a text -/
  | look (holds : Array Char → Nat → Bool)
  | seq (a b : Node)
  | alt (a b : Node)
  | repeated (least : Nat) (most : Option Nat) (a : Node)
deriving Inhabited

def reach (step : IndexSet → IndexSet) : Nat → IndexSet → IndexSet
  | 0, S => S
  | n + 1, S => S ∪ reach step n (step S)

namespace Node

/-- The places where matches from the places in `S` may end. A step of a repetition never leads back,
so in a text of `n` characters more than `n + 1` steps lead nowhere else. -/
def ends (text : Array Char) : Node → IndexSet → IndexSet
  | empty, S => S
  | char accepts, S =>
    .ofList ((S.toList.filter fun i => text[i]?.any accepts).map (· + 1))
  | look holds, S => .ofList (S.toList.filter (holds text))
  | seq a b, S => b.ends text (a.ends text S)
  | alt a b, S => a.ends text S ∪ b.ends text S
  | repeated least most a, S =>
    let bound := text.size + 1
    let more := match most with
      | none => bound
      | some most => min (most - least) bound
    reach (a.ends text) more (Nat.repeat (a.ends text) (min least bound) S)

def isMatch (a : Node) (text : String) : Bool :=
  let chars := text.toList.toArray
  !(a.ends chars (.ofList (List.range (chars.size + 1)))).isEmpty

end Node

end CallAtlas.Pattern
