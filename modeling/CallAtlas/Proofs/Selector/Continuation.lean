import CallAtlas.Proofs.Selector.Grammar
/-!
What readers of selectors read when the text goes on. A character that belongs to no word and to none of
their tokens stops all of them, so that they read the same before it as at the end of the text. Main
statement: `Stops.reads_topItem_append`.
-/
namespace CallAtlas.Selector

open Query

/-- A character that no reader of items takes, but for the inside of quotes and slashes. -/
structure Stops (d : Char) : Prop where
  word : Text.isWordChar d = false
  space : Text.isSpace d = false
  mark : d ∉ marks
  comma : d ≠ ','

variable {d : Char} {inside : Bool} {cs ds rest : List Char}

theorem Stops.not_mem_text (h : Stops d) (k : Closure) : d ∉ k.text.toList := by
  have letters : k.text.toList.all (fun c => c == ':' || c == '_' || c.isLower) = true := by
    cases k <;> decide
  intro mem
  have letter := List.all_eq_true.mp letters d mem
  simp only [Bool.or_eq_true, beq_iff_eq, or_assoc] at letter
  rcases letter with rfl | rfl | lower
  · exact h.mark (by decide)
  · exact Bool.false_ne_true (h.word.symm.trans (by simp [Text.isWordChar]))
  · exact Bool.false_ne_true (h.word.symm.trans (Text.isWordChar_of_isLower lower))

theorem Stops.closure?_append (h : Stops d) (cs ds : List Char) :
    (closure? (cs ++ d :: ds)).map (fun r => (r.1, r.2.chars)) =
      (closure? cs).map fun r => (r.1, r.2.chars ++ d :: ds) := by
  rw [closure?, closure?, List.map_findSome?, List.map_findSome?]
  congr 1
  funext k
  have eaten := eat?_append (h.not_mem_text k) cs ds
  have both := congrArg (Option.map (Prod.mk k)) eaten
  rw [Option.map_map, Option.map_map] at both
  rw [Function.comp_apply, Function.comp_apply, Option.map_map, Option.map_map]
  exact both

theorem Stops.closures_append (h : Stops d) (cs ds : List Char) :
    (closures (cs ++ d :: ds)).1 = (closures cs).1 ∧
      (closures (cs ++ d :: ds)).2.chars = (closures cs).2.chars ++ d :: ds := by
  have next := h.closure?_append (skipSpaces cs).chars ds
  rw [← skipSpaces_append h.space] at next
  cases found : closure? (skipSpaces cs).chars with
  | none =>
    rw [found] at next
    rw [closures, closures, found, Option.map_eq_none_iff.mp next]
    exact ⟨rfl, rfl⟩
  | some result =>
    obtain ⟨k, r⟩ := result
    rw [found] at next
    obtain ⟨⟨k', r'⟩, found', same⟩ := Option.map_eq_some_iff.mp next
    obtain ⟨rfl, left⟩ := Prod.mk.inj same
    have shorter : r.chars.length < cs.length := Nat.lt_of_lt_of_le r.length_lt (skipSpaces cs).length_le
    have later := h.closures_append r.chars ds
    rw [← left] at later
    rw [closures, closures, found, found']
    exact ⟨congrArg (k' :: ·) later.1, later.2⟩
termination_by cs.length

theorem Stops.negation_append (h : Stops d) (cs ds : List Char) :
    (negation (cs ++ d :: ds)).1 = (negation cs).1 ∧
      (negation (cs ++ d :: ds)).2.chars = (negation cs).2.chars ++ d :: ds := by
  have free : d ∉ ['!'] := by
    rw [List.mem_singleton]
    rintro rfl
    exact h.mark (by decide)
  have next := eat?_append free (skipSpaces cs).chars ds
  rw [← skipSpaces_append h.space] at next
  cases found : eat? ['!'] (skipSpaces cs).chars with
  | none =>
    rw [found] at next
    rw [negation, negation, found, Option.map_eq_none_iff.mp next]
    exact ⟨rfl, skipSpaces_append h.space cs ds⟩
  | some r =>
    rw [found] at next
    obtain ⟨r', found', left⟩ := Option.map_eq_some_iff.mp next
    rw [negation, negation, found, found']
    exact ⟨rfl, left⟩

variable [PatternEngine] {s : Selector} {ss : List Selector}

theorem Stops.reads_bare_append (h : Stops d) (read : (bare inside cs).Reads s rest) :
    (bare inside (cs ++ d :: ds)).Reads s (rest ++ d :: ds) := by
  have next := word?_append h.word cs ds
  cases found : word? cs with
  | none =>
    rw [found] at next
    have none := Option.map_eq_none_iff.mp next
    cases inside with
    | false =>
      rw [bare, found] at read
      exact absurd read Outcome.not_reads_expected
    | true =>
      rw [bare, found] at read
      obtain ⟨rfl, rfl⟩ := Outcome.reads_ok_iff.mp read
      rw [bare, none]
      exact .ok rfl
  | some result =>
    rw [found] at next
    obtain ⟨⟨w, r⟩, found', same⟩ := Option.map_eq_some_iff.mp next
    obtain ⟨rfl, left⟩ := Prod.mk.inj same
    cases inside with
    | false | true =>
      rw [bare, found] at read
      obtain ⟨rfl, rfl⟩ := Outcome.reads_ok_iff.mp read
      rw [bare, found']
      exact .ok left

mutual

theorem Stops.reads_base_append (h : Stops d) {inside : Bool} {cs rest : List Char} {s : Selector}
    (read : (base inside cs).Reads s rest) : (base inside (cs ++ d :: ds)).Reads s (rest ++ d :: ds) := by
  by_cases plain : ∀ c ∈ cs.head?, c ∉ ['"', '/', '[']
  · have plain' : ∀ c ∈ (cs ++ d :: ds).head?, c ∉ ['"', '/', '['] := by
      rw [List.head?_append]
      cases cs with
      | nil =>
        rintro c ⟨⟩ mark
        exact h.mark (List.subset_def.mp (by decide) mark)
      | cons c cs => exact plain
    rw [base_eq_bare_of_head plain] at read
    rw [base_eq_bare_of_head plain']
    exact h.reads_bare_append read
  · simp only [not_forall, not_not] at plain
    obtain ⟨c, first, mark⟩ := plain
    obtain ⟨cs, rfl⟩ := List.head?_eq_some_iff.mp first
    simp only [List.mem_cons, List.not_mem_nil, or_false] at mark
    rcases mark with rfl | rfl | rfl
    · obtain ⟨body, inner, rfl⟩ := base_quote_reads_iff.mp read
      exact base_quote_reads_iff.mpr ⟨body, readsBody_quoted.append inner _, rfl⟩
    · obtain ⟨body, p, inner, known, rfl⟩ := base_slash_reads_iff.mp read
      exact base_slash_reads_iff.mpr ⟨body, p, readsBody_patternBody.append inner _, known, rfl⟩
    · obtain ⟨ss, inner, rfl⟩ := base_bracket_reads_iff.mp read
      have closed := h.reads_alternatives_append inner (List.cons_ne_nil _ _)
      exact base_bracket_reads_iff.mpr ⟨ss, closed, rfl⟩
termination_by (cs.length, 0)

theorem Stops.reads_item_append (h : Stops d) {inside : Bool} {cs rest : List Char} {s : Selector}
    (read : (item inside cs).Reads s rest) : (item inside (cs ++ d :: ds)).Reads s (rest ++ d :: ds) := by
  obtain ⟨t, more, inner, rfl, rfl⟩ := item_reads_iff.mp read
  obtain ⟨negated, start⟩ := h.negation_append cs ds
  obtain ⟨closed, left⟩ := h.closures_append more ds
  refine item_reads_iff.mpr ⟨t, more ++ d :: ds, ?_, ?_, left.symm⟩
  · rw [start]
    exact h.reads_base_append inner
  · rw [negated, closed]
termination_by (cs.length, 1)
decreasing_by
  have := (negation cs).2.length_le
  by_cases h : (negation cs).2.chars.length = cs.length
  · rw [h]
    exact Prod.Lex.right _ (by decide)
  · exact Prod.Lex.left _ _ (by omega)

theorem Stops.reads_conjuncts_append (h : Stops d) {cs rest : List Char} {ss : List Selector}
    (read : (conjuncts cs).Reads ss rest) :
    (conjuncts (cs ++ d :: ds)).Reads ss (rest ++ d :: ds) := by
  obtain ⟨s, more, first, tail⟩ := conjuncts_reads_iff.mp read
  refine conjuncts_reads_iff.mpr ⟨s, more ++ d :: ds, h.reads_item_append first, ?_⟩
  rw [skipSpaces_append h.space]
  rcases tail with ⟨last, rfl, rfl⟩ | ⟨next, ts, comma, later, rfl⟩
  · exact .inl ⟨head?_append_ne last h.comma, rfl, rfl⟩
  · have shorter : next.length < cs.length := by
      have := length_lt_of_skipSpaces comma
      have := first.length_le
      omega
    exact .inr ⟨next ++ d :: ds, ts, by rw [comma]; rfl, h.reads_conjuncts_append later, rfl⟩
termination_by (cs.length, 2)
decreasing_by
  · exact Prod.Lex.right _ (by decide)
  · exact Prod.Lex.left _ _ shorter

theorem Stops.reads_alternatives_append (h : Stops d) {cs rest : List Char} {ss : List Selector}
    (read : (alternatives cs).Reads ss rest) (some : rest ≠ []) :
    (alternatives (cs ++ d :: ds)).Reads ss (rest ++ d :: ds) := by
  obtain ⟨ts, more, first, tail⟩ := alternatives_reads_iff.mp read
  refine alternatives_reads_iff.mpr ⟨ts, more ++ d :: ds, h.reads_conjuncts_append first, ?_⟩
  rw [skipSpaces_append h.space]
  rcases tail with ⟨last, rfl, rfl⟩ | ⟨next, us, bar, later, rfl⟩
  · refine .inl ⟨?_, rfl, rfl⟩
    rwa [List.head?_append_of_ne_nil _ some]
  · have shorter : next.length < cs.length := by
      have := length_lt_of_skipSpaces bar
      have := first.length_le
      omega
    exact .inr ⟨next ++ d :: ds, us, by rw [bar]; rfl, h.reads_alternatives_append later some, rfl⟩
termination_by (cs.length, 3)
decreasing_by
  · exact Prod.Lex.right _ (by decide)
  · exact Prod.Lex.left _ _ shorter

end

theorem Stops.reads_topItem_append (h : Stops d) (read : (topItem cs).Reads s rest) :
    (topItem (cs ++ d :: ds)).Reads s (rest ++ d :: ds) := by
  rw [topItem, Outcome.reads_map_iff] at read
  obtain ⟨t, inner, rfl⟩ := read
  exact (h.reads_item_append inner).map optimize

end CallAtlas.Selector
