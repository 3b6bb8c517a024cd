import CallAtlas.Pattern.Basic
import CallAtlas.Pattern.Meaning
import CallAtlas.Pattern.Parser
import CallAtlas.Pattern.Weight
/-!
The engine that runs: regular expressions over characters that look for a match anywhere in a name.
-/
namespace CallAtlas.Pattern

def Node.ofText (text : String) : Except PatternError Node := do
  let tree ← Tree.ofText text
  let (node, _) ← tree.meaning {}
  if weightLimit < tree.weight then throw .tooLarge
  return node

instance : PatternEngine where
  Code := Node
  compile := Node.ofText
  isMatch := Node.isMatch

end CallAtlas.Pattern
