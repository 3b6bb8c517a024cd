/-!
Path expressions: regular expressions whose atoms test single names, so that an expression describes
sequences of names.
-/
namespace CallAtlas

/-- An expression over atoms `α`. An empty sequence and an empty choice describe the empty sequence of
names, as `empty` does. -/
inductive PathExpr (α : Type) where
  | empty
  | one (atom : α)
  | seq (es : List (PathExpr α))
  | star (e : PathExpr α)
  | alt (es : List (PathExpr α))
deriving Inhabited, Repr

namespace PathExpr

mutual

def map {α β : Type} (f : α → β) : PathExpr α → PathExpr β
  | .empty => .empty
  | .one a => .one (f a)
  | .seq es => .seq (mapAll f es)
  | .star e => .star (map f e)
  | .alt es => .alt (mapAll f es)

def mapAll {α β : Type} (f : α → β) : List (PathExpr α) → List (PathExpr β)
  | [] => []
  | e :: es => map f e :: mapAll f es

end

theorem mapAll_eq {α β : Type} (f : α → β) (es : List (PathExpr α)) :
    mapAll f es = es.map (map f) := by
  induction es with
  | nil => rfl
  | cons e es ih => rw [mapAll, ih, List.map_cons]

end PathExpr

end CallAtlas
