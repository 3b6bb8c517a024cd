import CallAtlas.Selector.Basic
/-!
A shorter selector of the same meaning: groups of one member and double negations are taken out.
-/
namespace CallAtlas.Selector

variable [PatternEngine]

/-- The negation of a selector, which takes back a negation. -/
def negate : Selector → Selector
  | not s => s
  | s => not s

mutual

def optimize : Selector → Selector
  | both [s] => optimize s
  | either [s] => optimize s
  | both ss => both (optimizeAll ss)
  | either ss => either (optimizeAll ss)
  | not s => negate (optimize s)
  | closure k s => closure k (optimize s)
  | s => s

def optimizeAll : List Selector → List Selector
  | [] => []
  | s :: ss => optimize s :: optimizeAll ss

end

end CallAtlas.Selector
