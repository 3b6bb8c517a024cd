import CallAtlas.Selector.Parser
import CallAtlas.Selector.Selection
/-!
Selections in the words of a command. Words that all name nodes stand for these nodes, so that names
which are no selectors can be used too; other words are one selector.
-/
namespace CallAtlas.Selector

variable [PatternEngine]

def ofWords (g : Graph) (words : List String) : Except QueryError Selector :=
  if words.all g.contains then .ok (either (words.map name)) else ofText (" ".intercalate words)

def select (g : Graph) (words : List String) : Except QueryError (List String) :=
  (ofWords g words).map fun s => (s.nodes g).toList

def name? : Selector → Option String
  | name n => some n
  | _ => none

/-- The names that a selector lists, if it does nothing else. -/
def names? : Selector → Option (List String)
  | name n => some [n]
  | either ss => ss.mapM name?
  | _ => none

/-- The names that words select for a label. Listed names are taken whether or not they are in the
graph, and so is a single word that is no selector. -/
def labelTargets (g : Graph) (words : List String) : Except QueryError (List String) :=
  match ofWords g words, words with
  | .ok s, _ => .ok (s.names?.getD (s.nodes g).toList)
  | .error _, [word] => .ok [word]
  | .error e, _ => .error e

end CallAtlas.Selector
