/-!
Values of TOML documents. The entries of a table are kept in their order, repeated keys included.
-/
namespace CallAtlas.Toml

inductive Value where
  | string (s : String)
  | integer (n : Int)
  | float
  | boolean (b : Bool)
  | datetime
  | array (vs : List Value)
  /-- a dotted table comes from keys with full stops, which may add to it -/
  | table (dotted : Bool) (entries : List (String × Value))

instance : Inhabited Value := ⟨.boolean false⟩

abbrev Entries : Type := List (String × Value)

namespace Entries

def replace (k : String) (v : Value) : Entries → Entries
  | [] => []
  | (l, w) :: es => if l = k then (k, v) :: es else (l, w) :: replace k v es

/-- Add a value under a dotted key. Only tables that dotted keys made can be added to. -/
def insert? : List String → Value → Entries → Option Entries
  | [], _, _ => none
  | [k], v, es => some (es ++ [(k, v)])
  | k :: path, v, es =>
    match es.lookup k with
    | some (.table true inner) => (insert? path v inner).map fun inner =>
        replace k (.table true inner) es
    | some _ => none
    | none => (insert? path v []).map fun inner => es ++ [(k, .table true inner)]

end Entries

end CallAtlas.Toml
