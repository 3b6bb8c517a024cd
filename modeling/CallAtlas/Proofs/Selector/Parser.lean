import CallAtlas.Selector.Parser
/-!
Texts of a single item. Main statements: `ofText_of_base_error` and `ofText_of_base_ok`, what becomes of
a text is decided where its first item begins.
-/
namespace CallAtlas.Selector

open Query

theorem closures_nil : closures [] = ([], .all []) := by
  rw [closures]
  rfl

variable [PatternEngine]

theorem item_eq (inside : Bool) (cs : List Char) : item inside cs =
    ((((base inside (negation cs).2.chars).andThen fun s r =>
      .ok (close (if (negation cs).1 then not s else s) (closures r.chars).1,
        (closures r.chars).2)).weaken (Nat.le_refl _)).after (negation cs).2).weaken
          (by omega) := by
  rw [item]

theorem ofText_of_base_error {text : String} {e : Stop (negation text.toList).2.chars}
    (h : base false (negation text.toList).2.chars = .error e) : ∃ e, ofText text = .error e := by
  have first : ∃ e, item false text.toList = .error e := by
    rw [item_eq, h]
    exact ⟨_, rfl⟩
  obtain ⟨e, first⟩ := first
  have all : items text.toList = .error e := by
    rw [items, topItem, first]
    rfl
  rw [ofText, Query.run, all]
  exact ⟨_, rfl⟩

theorem ofText_of_base_ok {text : String} {s : Selector} {r : Rest _ (negation text.toList).2.chars}
    (h : base false (negation text.toList).2.chars = .ok (s, r)) (atEnd : r.chars = []) :
    ofText text =
      .ok (optimize (either [optimize (if (negation text.toList).1 then not s else s)])) := by
  have first : ∃ r' : Rest 1 text.toList,
      item false text.toList = .ok (if (negation text.toList).1 then not s else s, r') ∧
        r'.chars = [] := by
    obtain ⟨chars, suffix, taken⟩ := r
    subst atEnd
    rw [item_eq, h]
    simp only [Outcome.andThen, Outcome.after, Outcome.weaken, closures_nil]
    exact ⟨_, rfl, rfl⟩
  obtain ⟨r', first, rest⟩ := first
  have all : ∃ r' : Rest 1 text.toList, items text.toList =
      .ok ([optimize (if (negation text.toList).1 then not s else s)], r') := by
    have none : (skipSpaces r'.chars).chars = [] := by
      rw [rest]
      rfl
    rw [items, topItem, first]
    simp only [Outcome.map, Outcome.andThen]
    split
    · exact ⟨_, rfl⟩
    · rename_i some
      exact absurd none some
  obtain ⟨_, all⟩ := all
  rw [ofText, Query.run, all]
  rfl

end CallAtlas.Selector
