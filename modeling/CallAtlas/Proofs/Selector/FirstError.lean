import CallAtlas.Proofs.Query.Failure
import CallAtlas.Proofs.Selector.Derivation
/-!
Where readers of selectors fail. Without patterns, whose faults lie where the pattern begins, what was taken
before a fault begins a text of the grammar: an open quotation can be closed, an open bracket too, and
where an item is missing there can be an empty name. Main statement: `ofText_firstError`.
-/
namespace CallAtlas.Selector

open Query

variable {c : Char} {cs rest : List Char}

theorem sign_quote : Text.isWordChar '"' = false := isWordChar_eq_false_of_sign (by decide)

theorem sign_bracket : Text.isWordChar ']' = false := isWordChar_eq_false_of_sign (by decide)

theorem head?_not_word_of_gap {gap ds : List Char} (blank : Blank gap)
    (word : ∀ c ∈ (gap ++ rest).head?, Text.isWordChar c = false)
    (starts : ∀ c ∈ ds.head?, Text.isWordChar c = true → c ∈ rest.head?) :
    ∀ c ∈ (gap ++ ds).head?, Text.isWordChar c = false := by
  cases gap with
  | nil =>
    intro c first
    rw [Bool.eq_false_iff]
    intro letter
    exact absurd (letter.symm.trans (word c (starts c first letter))) (by decide)
  | cons d gap => exact blank.head?_not_word

theorem quoted_viable (fails : (quoted cs).Fails rest) :
    Viable (fun ds => ∃ body, IsQuoted body ds) cs rest := by
  fun_induction quoted cs with
  | case1 =>
    obtain rfl := Outcome.fails_error_iff.mp fails
    exact @Viable.of_text [] _ [] ⟨[], .nil⟩
  | case2 =>
    obtain rfl := Outcome.fails_error_iff.mp fails
    refine ⟨['\\'], ['"'], rfl, ⟨['"'], .escaped .nil⟩, ?_⟩
    rintro c ⟨⟩
    exact sign_quote
  | case3 => exact absurd fails Outcome.not_fails_ok
  | case4 c cs ih =>
    rw [Outcome.fails_weaken_iff, Outcome.fails_map_iff] at fails
    refine (ih (Outcome.fails_after_iff.mp fails)).behind ['\\', c] ?_
    rintro ds ⟨body, quoted⟩ -
    exact ⟨c :: body, .escaped quoted⟩
  | case5 c cs last quote pair ih =>
    have escape : c ≠ '\\' := by
      intro eq
      cases cs with
      | nil => exact last eq rfl
      | cons d cs => exact pair d cs eq rfl
    rw [Outcome.fails_weaken_iff, Outcome.fails_map_iff] at fails
    refine (ih (Outcome.fails_after_iff.mp fails)).behind [c] ?_
    rintro ds ⟨body, quoted⟩ -
    exact ⟨c :: body, .char quote escape quoted⟩

variable [PatternEngine] {inside : Bool} {s : Selector}

theorem bare_fails_iff : (Selector.bare inside cs).Fails rest ↔
    inside = false ∧ word? cs = none ∧ rest = cs := by
  cases inside with
  | false =>
    rw [Selector.bare]
    split
    · rename_i n r found
      refine iff_of_false Outcome.not_fails_ok ?_
      rintro ⟨-, none, -⟩
      rw [none] at found
      cases found
    · rename_i found
      exact Outcome.fails_expected_iff.trans ⟨fun eq => ⟨rfl, found, eq⟩, fun h => h.2.2⟩
  | true =>
    rw [Selector.bare]
    split <;> exact iff_of_false Outcome.not_fails_ok fun h => Bool.false_ne_true h.1.symm

theorem base_quote_fails_iff : (base inside ('"' :: cs)).Fails rest ↔ (quoted cs).Fails rest := by
  rw [base, Outcome.fails_weaken_iff, Outcome.fails_map_iff]
  exact Outcome.fails_after_tail_iff

theorem base_bracket_fails_iff : (base inside ('[' :: cs)).Fails rest ↔ (alternatives cs).Fails rest ∨
    ∃ ss, (alternatives cs).Reads ss rest ∧ rest.head? ≠ some ']' := by
  rw [base, Outcome.fails_weaken_iff, Outcome.fails_after_tail_iff, Outcome.fails_weaken_iff,
    Outcome.fails_andThen_iff, Outcome.fails_map_iff]
  refine or_congr_right ⟨?_, ?_⟩
  · rintro ⟨t, r, group, fails⟩
    obtain ⟨ss, read, -⟩ := Outcome.reads_map_iff.mp ⟨r, group, rfl⟩
    split at fails
    · exact absurd fails Outcome.not_fails_ok
    · rename_i missing
      obtain rfl := Outcome.fails_expected_iff.mp fails
      exact ⟨ss, read, mt singleton_prefix_iff.mpr (eat?_eq_none_iff.mp missing)⟩
  · rintro ⟨ss, read, other⟩
    obtain ⟨r, group, rfl⟩ := read.map (fun ss => either ss)
    refine ⟨_, r, group, ?_⟩
    rw [eat?_eq_none_iff.mpr (mt singleton_prefix_iff.mp other)]
    exact Outcome.fails_expected_iff.mpr rfl

theorem item_fails_iff : (item inside cs).Fails rest ↔ (base inside (negation cs).2.chars).Fails rest := by
  rw [item_eq, Outcome.fails_weaken_iff, Outcome.fails_after_iff, Outcome.fails_weaken_iff,
    Outcome.fails_andThen_iff]
  refine or_iff_left ?_
  rintro ⟨t, r, -, fails⟩
  exact Outcome.not_fails_ok fails

theorem conjuncts_fails_iff : (conjuncts cs).Fails rest ↔ (item true cs).Fails rest ∨
    ∃ s more next, (item true cs).Reads s more ∧ (skipSpaces more).chars = ',' :: next ∧
      (conjuncts next).Fails rest := by
  rw [conjuncts]
  refine fails_separated_iff (fun s => [s]) List.cons (fun s r ended => ?_)
    (fun s r comma found => ?_)
  · dsimp only
    rw [ended]
  · dsimp only
    rw [found]

theorem alternatives_fails_iff : (alternatives cs).Fails rest ↔ (conjuncts cs).Fails rest ∨
    ∃ ss more next, (conjuncts cs).Reads ss more ∧ (skipSpaces more).chars = '|' :: next ∧
      (alternatives next).Fails rest := by
  rw [alternatives]
  refine fails_separated_iff (fun ss => [both ss]) (fun ss ts => both ss :: ts)
    (fun ss r ended => ?_) (fun ss r bar found => ?_)
  · dsimp only
    rw [ended]
  · dsimp only
    rw [found]

theorem items_fails_iff : (items cs).Fails rest ↔ (item false cs).Fails rest ∨
    ∃ s more, (item false cs).Reads s more ∧ (skipSpaces more).chars ≠ [] ∧
      (items (skipSpaces more).chars).Fails rest := by
  rw [items, Outcome.fails_andThen_iff, topItem, Outcome.fails_map_iff]
  refine or_congr_right ⟨?_, ?_⟩
  · rintro ⟨s, r, read, fails⟩
    obtain ⟨t, read, -⟩ := Outcome.reads_map_iff.mp ⟨r, read, rfl⟩
    dsimp only at fails
    split at fails
    · exact absurd fails Outcome.not_fails_ok
    · rename_i some
      rw [Outcome.fails_weaken_iff, Outcome.fails_map_iff] at fails
      exact ⟨t, r.chars, read, some, Outcome.fails_after_iff.mp fails⟩
  · rintro ⟨t, more, read, some, fails⟩
    obtain ⟨r, found, rfl⟩ := read.map optimize
    refine ⟨_, r, found, ?_⟩
    dsimp only
    split
    · rename_i none
      exact absurd none some
    · rw [Outcome.fails_weaken_iff, Outcome.fails_map_iff]
      exact Outcome.fails_after_iff.mpr fails

/-- An item after white space that ends in a mark and begins with one, so that no word goes on in it. -/
def IsMarked (inside : Bool) (cs : List Char) : Prop :=
  ∃ s before ds, cs = before ++ ds ∧ Blank before ∧ IsItem inside false s ds ∧
    ∀ c ∈ ds.head?, Text.isWordChar c = false

-- The induction is on the readers. What was read before the fault is a text by soundness, and the part that
-- fails is completed by the induction hypothesis.
mutual

theorem base_viable {inside : Bool} {cs rest : List Char} (plain : '/' ∉ cs)
    (fails : (base inside cs).Fails rest) : Viable (fun ds => ∃ s, IsBase inside false s ds) cs rest := by
  by_cases opens : ∀ c ∈ cs.head?, c ∉ ['"', '/', '[']
  · rw [base_eq_bare_of_head opens] at fails
    obtain ⟨rfl, -, rfl⟩ := bare_fails_iff.mp fails
    -- an item is missing, and a name in quotes can stand after anything
    refine ⟨[], ['"', '"'], rfl, ⟨_, .quoted .nil⟩, ?_⟩
    rintro c ⟨⟩
    exact sign_quote
  · simp only [not_forall, not_not] at opens
    obtain ⟨c, first, mark⟩ := opens
    obtain ⟨cs, rfl⟩ := List.head?_eq_some_iff.mp first
    simp only [List.mem_cons, List.not_mem_nil, or_false] at mark
    rcases mark with rfl | rfl | rfl
    · have closed := (quoted_viable (base_quote_fails_iff.mp fails)).closed sign_quote
        (Q := fun ds => ∃ s, IsBase inside false s ('"' :: ds))
        fun ds ⟨body, quoted⟩ => ⟨_, .quoted quoted⟩
      exact closed.behind ['"'] fun ds base _ => base
    · exact absurd List.mem_cons_self plain
    · have group : Viable (fun ds => ∃ ss, IsGroup ss ds) cs rest := by
        rcases base_bracket_fails_iff.mp fails with fails | ⟨ss, read, -⟩
        · exact alternatives_viable (mt (List.mem_cons_of_mem _) plain) fails
        · obtain ⟨text, rfl, group⟩ := alternatives_sound read
          exact Viable.of_text ⟨ss, group⟩
      have closed := group.closed sign_bracket (Q := fun ds => ∃ s, IsBase inside false s ('[' :: ds))
        fun ds ⟨ss, group⟩ => ⟨_, .group group⟩
      exact closed.behind ['['] fun ds base _ => base
termination_by (cs.length, 0)

theorem item_viable {inside : Bool} {cs rest : List Char} (plain : '/' ∉ cs)
    (fails : (item inside cs).Fails rest) : Viable (IsMarked inside) cs rest := by
  obtain ⟨before, blank, split⟩ := negation_spec cs
  have base := base_viable (mt (fun mem => (negation cs).2.suffix.mem mem) plain) (item_fails_iff.mp fails)
  rw [split, ← List.append_assoc]
  refine base.behind _ fun ds ⟨s, base⟩ _ => ?_
  have plain : IsItem inside false (close s []) (ds ++ []) := .plain base .nil
  have negated : IsItem inside false (close (not s) []) ('!' :: (ds ++ [])) := .negated base .nil
  rw [List.append_nil] at plain negated
  cases (negation cs).1 with
  | false =>
    obtain ⟨c, ds, rfl, mark⟩ := base.exists_mark
    refine ⟨_, before, c :: ds, by simp, blank, plain, ?_⟩
    rintro d ⟨⟩
    exact mark
  | true =>
    refine ⟨_, before, '!' :: ds, by simp, blank, negated, ?_⟩
    rintro c ⟨⟩
    exact isWordChar_eq_false_of_sign (by decide)
termination_by (cs.length, 1)
decreasing_by
  have := (negation cs).2.length_le
  by_cases h : (negation cs).2.chars.length = cs.length
  · rw [h]
    exact Prod.Lex.right _ (by decide)
  · exact Prod.Lex.left _ _ (by omega)

theorem conjuncts_viable {cs rest : List Char} (plain : '/' ∉ cs) (fails : (conjuncts cs).Fails rest) :
    Viable (fun ds => ∃ ss, IsConjunction ss ds) cs rest := by
  rcases conjuncts_fails_iff.mp fails with first | ⟨s, more, next, read, comma, late⟩
  · refine (item_viable plain first).mono ?_
    rintro - ⟨s, before, ds, rfl, blank, item, -⟩
    have last : IsConjunction [s] (before ++ (ds ++ [])) := .last blank item nofun
    rw [List.append_nil] at last
    exact ⟨[s], last⟩
  · have shorter : next.length < cs.length := by
      have := length_lt_of_skipSpaces comma
      have := read.length_le
      omega
    obtain ⟨bare, before, text, split, blank, item, -⟩ := item_sound read
    obtain ⟨after, blank', goesOn⟩ := exists_blank more
    have split : cs = (before ++ (text ++ (after ++ [',']))) ++ next := by
      rw [split, goesOn, comma]
      simp
    have later := conjuncts_viable (fun mem => plain (by simp [split, mem])) late
    rw [split]
    refine later.behind _ fun ds ⟨ss, others⟩ _ => ⟨s :: ss, ?_⟩
    have whole : IsConjunction (s :: ss) (before ++ (text ++ (after ++ ',' :: ds))) :=
      .cons blank item blank' others
    simpa using whole
termination_by (cs.length, 2)
decreasing_by
  · exact Prod.Lex.right _ (by decide)
  · exact Prod.Lex.left _ _ shorter

theorem alternatives_viable {cs rest : List Char} (plain : '/' ∉ cs)
    (fails : (alternatives cs).Fails rest) : Viable (fun ds => ∃ ss, IsGroup ss ds) cs rest := by
  rcases alternatives_fails_iff.mp fails with first | ⟨ss, more, next, read, bar, late⟩
  · exact (conjuncts_viable plain first).mono fun ds ⟨ss, conjunction⟩ => ⟨_, .last conjunction⟩
  · have shorter : next.length < cs.length := by
      have := length_lt_of_skipSpaces bar
      have := read.length_le
      omega
    obtain ⟨text, split, conjunction, ended⟩ := conjuncts_sound read
    have split : cs = (text ++ ['|']) ++ next := by
      rw [split, ← ended, bar]
      simp
    have later := alternatives_viable (fun mem => plain (by simp [split, mem])) late
    rw [split]
    refine later.behind _ fun ds ⟨ts, group⟩ _ => ⟨both ss :: ts, ?_⟩
    have whole : IsGroup (both ss :: ts) (text ++ '|' :: ds) := .cons conjunction group
    simpa using whole
termination_by (cs.length, 3)
decreasing_by
  · exact Prod.Lex.right _ (by decide)
  · exact Prod.Lex.left _ _ shorter

end

theorem items_viable {cs rest : List Char} (plain : '/' ∉ cs) (fails : (items cs).Fails rest) :
    Viable (fun ds => ∃ ss, IsRowText Discernible ss ds) cs rest := by
  rcases items_fails_iff.mp fails with first | ⟨s, more, read, -, late⟩
  · refine (item_viable plain first).mono ?_
    rintro - ⟨s, before, ds, rfl, blank, item, -⟩
    have last : IsRow Discernible [s] (ds ++ []) := .last item nofun
    rw [List.append_nil] at last
    exact ⟨[s], before, ds, rfl, blank, last⟩
  · have shorter : (skipSpaces more).chars.length < cs.length := by
      have taken : more.length + 1 ≤ cs.length := read.length_le
      have := (skipSpaces more).length_le
      omega
    obtain ⟨bare, before, text, split, blank, item, follows⟩ := item_sound read
    obtain ⟨gap, blank', goesOn⟩ := exists_blank more
    have split : cs = (before ++ (text ++ gap)) ++ (skipSpaces more).chars := by
      rw [split]
      simp [← goesOn]
    have later := items_viable (fun mem => plain (by rw [split]; simp [mem])) late
    rw [split]
    refine later.behind _ fun ds ⟨ss, before', row, eq, blank'', others⟩ starts => ?_
    have fits : Discernible bare (gap ++ before') row := by
      rw [Discernible, List.append_assoc, ← eq]
      exact fun word => head?_not_word_of_gap blank' (goesOn ▸ follows.word word) starts
    refine ⟨s :: ss, before, _, ?_, blank, .cons item (blank'.append blank'') fits others⟩
    rw [eq]
    simp
termination_by cs.length

theorem ofText_fails_iff (text : String) {position : Nat} :
    (∃ e, ofText text = .error e ∧ e.position = position) ↔ ∃ rest, (items text.toList).Fails rest ∧
      position = text.utf8ByteSize - (String.ofList rest).utf8ByteSize := by
  rw [← run_eq_error_iff, ofText]
  cases Query.run items text with
  | ok ss => simp only [Except.map, reduceCtorEq, false_and, exists_false]
  | error e => simp only [Except.map, Except.error.injEq]

/-- A text without patterns that is no selector is refused at its first error. -/
theorem ofText_firstError {text : String} (plain : '/' ∉ text.toList) {e : QueryError}
    (h : ofText text = .error e) :
    IsFirstError (fun t => ∃ s, ofText t = .ok s) text e.position := by
  obtain ⟨rest, fails, position⟩ := (ofText_fails_iff text).mp ⟨e, h, rfl⟩
  rw [position]
  exact (items_viable plain fails).firstError fun t ⟨ss, row⟩ => ⟨_, ofText_of_row row⟩

end CallAtlas.Selector
