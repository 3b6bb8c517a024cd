import CallAtlas.Pattern.Basic
/-!
Selectors describe sets of nodes: the type, its equality, which patterns decide by their text, and its
size.
-/
namespace CallAtlas

variable [PatternEngine]

inductive Closure where
  | callers
  | callees
  | allCallers
  | allCallees
deriving DecidableEq, Repr, Inhabited

inductive Selector where
  /-- the node of that name -/
  | name (n : String)
  /-- the visible nodes whose name matches -/
  | pattern (p : Pattern)
  /-- the nodes with that label -/
  | label (l : String)
  /-- what all of them select; without any, every visible node -/
  | both (ss : List Selector)
  /-- what one of them selects -/
  | either (ss : List Selector)
  /-- the visible nodes that are not selected -/
  | not (s : Selector)
  | closure (k : Closure) (s : Selector)

namespace Selector

instance : Inhabited Selector := ⟨both []⟩

mutual

def same : Selector → Selector → Bool
  | name a, name b => a == b
  | pattern p, pattern q => p.text == q.text
  | label a, label b => a == b
  | both ss, both ts => sameAll ss ts
  | either ss, either ts => sameAll ss ts
  | not s, not t => same s t
  | closure j s, closure k t => j == k && same s t
  | _, _ => false

def sameAll : List Selector → List Selector → Bool
  | [], [] => true
  | s :: ss, t :: ts => same s t && sameAll ss ts
  | _, _ => false

end

mutual

theorem same_self (s : Selector) : same s s = true := by
  cases s with
  | both ss => simpa [same] using sameAll_self ss
  | either ss => simpa [same] using sameAll_self ss
  | not s => simpa [same] using same_self s
  | closure k s => simpa [same] using same_self s
  | _ => simp [same]

theorem sameAll_self (ss : List Selector) : sameAll ss ss = true := by
  cases ss with
  | nil => rfl
  | cons s ss => simp [sameAll, same_self s, sameAll_self ss]

end

mutual

theorem eq_of_same {s t : Selector} (h : same s t = true) : s = t := by
  cases s <;> cases t <;> simp only [same, beq_iff_eq, Bool.and_eq_true, Bool.false_eq_true] at h
  · rw [h]
  · rw [Pattern.ext_text h]
  · rw [h]
  · rw [eq_of_sameAll h]
  · rw [eq_of_sameAll h]
  · rw [eq_of_same h]
  · rw [h.1, eq_of_same h.2]

theorem eq_of_sameAll {ss ts : List Selector} (h : sameAll ss ts = true) : ss = ts := by
  cases ss <;> cases ts <;> simp only [sameAll, Bool.and_eq_true, Bool.false_eq_true] at h
  · rfl
  · rw [eq_of_same h.1, eq_of_sameAll h.2]

end

instance : DecidableEq Selector := fun s t =>
  if h : same s t = true then .isTrue (eq_of_same h)
  else .isFalse fun eq => h (eq ▸ same_self s)

mutual

def size : Selector → Nat
  | both ss => 1 + sizeAll ss
  | either ss => 1 + sizeAll ss
  | not s => 1 + size s
  | closure _ s => 1 + size s
  | _ => 1

def sizeAll : List Selector → Nat
  | [] => 0
  | s :: ss => size s + sizeAll ss

end

end Selector

end CallAtlas
