import CallAtlas.Pattern.Engine
import CallAtlas.Proofs.PathExpr.Grammar
import CallAtlas.Proofs.Selector.FirstError
/-!
Where readers of path expressions fail. As for selectors, what was taken before a fault begins a text of
the grammar; an open parenthesis can be closed as well. Main statement: `errors_at_first_error`.
-/
namespace CallAtlas.PathExpr

open Query
open Selector (Blank IsItem exists_blank head?_not_word_of_gap)

theorem sign_parenthesis : Text.isWordChar ')' = false :=
  Selector.isWordChar_eq_false_of_sign (by decide)

section

variable [PatternEngine]

variable {c : Char} {cs rest : List Char}

theorem starred_fails_iff {o : Outcome (PathExpr PathAtom) 1 cs} :
    (starred o).Fails rest ↔ o.Fails rest := by
  cases o with
  | error e => exact Iff.rfl
  | ok read =>
    refine iff_of_false ?_ Outcome.not_fails_ok
    dsimp only [starred]
    split <;> exact Outcome.not_fails_ok

theorem element_group_fails_iff : (element ('(' :: cs)).Fails rest ↔ (alternatives cs).Fails rest ∨
    ∃ es more, (alternatives cs).Reads es more ∧ (skipSpaces more).chars.head? ≠ some ')' ∧
      rest = (skipSpaces more).chars := by
  have none : ellipsis? ('(' :: cs) = none := by
    rw [ellipsis?, eat?_eq_none (by decide)]
    rfl
  rw [element.eq_def, none]
  dsimp only
  rw [starred_fails_iff]
  simp only [Outcome.fails_weaken_iff, Outcome.fails_after_tail_iff, Outcome.fails_andThen_iff]
  refine or_congr_right ⟨?_, ?_⟩
  · rintro ⟨es, r, read, fails⟩
    split at fails
    · exact absurd fails Outcome.not_fails_ok
    · rename_i missing
      exact ⟨es, r.chars, ⟨r, read, rfl⟩, mt singleton_prefix_iff.mpr (eat?_eq_none_iff.mp missing),
        Outcome.fails_expected_iff.mp fails⟩
  · rintro ⟨es, more, ⟨r, read, rfl⟩, other, rfl⟩
    refine ⟨es, r, read, ?_⟩
    rw [eat?_eq_none_iff.mpr (mt singleton_prefix_iff.mp other)]
    exact Outcome.fails_expected_iff.mpr rfl

theorem element_fails (fails : (element cs).Fails rest) : (Selector.item false cs).Fails rest ∨
    ∃ ds, cs = '(' :: ds ∧ (element ('(' :: ds)).Fails rest := by
  by_cases group : cs.head? = some '('
  · obtain ⟨ds, rfl⟩ := List.head?_eq_some_iff.mp group
    exact .inr ⟨ds, rfl, fails⟩
  · rw [element.eq_def] at fails
    split at fails
    · exact absurd fails Outcome.not_fails_ok
    · replace fails := starred_fails_iff.mp fails
      split at fails
      · exact absurd rfl group
      · exact .inl (Outcome.fails_map_iff.mp (Outcome.fails_map_iff.mp fails))

theorem elements_fails_iff : (elements cs).Fails rest ↔ (element (skipSpaces cs).chars).Fails rest ∨
    ∃ e more, (element (skipSpaces cs).chars).Reads e more ∧ ¬ Ended (skipSpaces more).chars ∧
      (elements (skipSpaces more).chars).Fails rest := by
  rw [elements, Outcome.fails_andThen_iff, Outcome.fails_weaken_iff, Outcome.fails_after_iff]
  have first {e : PathExpr PathAtom} {more : List Char} :
      Outcome.Reads (((element (skipSpaces cs).chars).after (skipSpaces cs)).weaken (by decide) :
        Outcome (PathExpr PathAtom) 1 cs) e more ↔ (element (skipSpaces cs).chars).Reads e more := by
    rw [Outcome.reads_weaken_iff, Outcome.reads_after_iff]
  refine or_congr_right ⟨?_, ?_⟩
  · rintro ⟨e, r, found, fails⟩
    dsimp only at fails
    split at fails
    case h_4 =>
      rename_i c bar parenthesis here
      rw [Outcome.fails_weaken_iff, Outcome.fails_map_iff, Outcome.fails_after_iff] at fails
      refine ⟨e, r.chars, first.mp ⟨r, found, rfl⟩, fun ended => ?_, fails⟩
      exact (ended c here).elim bar parenthesis
    all_goals exact absurd fails Outcome.not_fails_ok
  · rintro ⟨e, more, read, goesOn, fails⟩
    obtain ⟨r, found, rfl⟩ := first.mpr read
    refine ⟨e, r, found, ?_⟩
    dsimp only
    split
    case h_4 =>
      rw [Outcome.fails_weaken_iff, Outcome.fails_map_iff]
      exact Outcome.fails_after_iff.mpr fails
    all_goals
      rename_i here
      exact absurd (by simp [Ended, here]) goesOn

theorem alternatives_fails_iff : (alternatives cs).Fails rest ↔ (elements cs).Fails rest ∨
    ∃ es more next, (elements cs).Reads es more ∧ (skipSpaces more).chars = '|' :: next ∧
      (alternatives next).Fails rest := by
  rw [alternatives]
  refine fails_separated_iff (fun es => [seq es]) (fun es fs => seq es :: fs)
    (fun es r ended => ?_) (fun es r bar found => ?_)
  · dsimp only
    rw [ended]
  · dsimp only
    rw [found]

def IsMarked (cs : List Char) : Prop :=
  ∃ e before ds, cs = before ++ ds ∧ Blank before ∧ IsElement false e ds

theorem IsMarked.of_item (h : Selector.IsMarked false cs) : IsMarked cs := by
  obtain ⟨s, before, ds, rfl, blank, item, mark⟩ := h
  refine ⟨_, before, ds, rfl, blank, .once (.item item ?_)⟩
  cases ds with
  | nil => nofun
  | cons c ds =>
    rw [List.takeWhile_cons, mark c rfl]
    nofun

mutual

theorem element_viable {cs rest : List Char} (plain : '/' ∉ cs) (fails : (element cs).Fails rest) :
    Viable IsMarked cs rest := by
  rcases element_fails fails with atom | ⟨ds, rfl, group⟩
  · exact (Selector.item_viable plain atom).mono fun _ => .of_item
  · have choice : Viable (fun ds => ∃ es, IsChoice es ds) ds rest := by
      rcases element_group_fails_iff.mp group with inner | ⟨es, more, read, -, rfl⟩
      · exact alternatives_viable (mt (List.mem_cons_of_mem _) plain) inner
      · obtain ⟨text, split, choice, ended, -⟩ := alternatives_sound read
        rw [ended.skipSpaces, split]
        exact Viable.of_text ⟨es, choice⟩
    have closed := choice.closed sign_parenthesis (Q := fun ds => IsMarked ('(' :: ds))
      fun ds ⟨es, choice⟩ => ⟨_, [], _, rfl, nofun, .once (.group choice)⟩
    exact closed.behind ['('] fun ds element _ => element
termination_by (cs.length, 0)

theorem elements_viable {cs rest : List Char} (plain : '/' ∉ cs) (fails : (elements cs).Fails rest) :
    Viable (fun ds => ∃ es, IsSequence es ds) cs rest := by
  obtain ⟨before, blank, start⟩ := exists_blank cs
  have plain' : '/' ∉ (skipSpaces cs).chars := fun mem => plain ((skipSpaces cs).suffix.mem mem)
  rcases elements_fails_iff.mp fails with first | ⟨e, more, read, -, late⟩
  · have element := element_viable plain' first
    rw [start]
    refine element.behind _ ?_
    rintro - ⟨e, inner, ds, rfl, blank', element⟩ -
    have last : IsSequence [e] ((before ++ inner) ++ (ds ++ [])) :=
      .last (blank.append blank') element nofun
    rw [List.append_nil, List.append_assoc] at last
    exact ⟨[e], last⟩
  · have shorter : (skipSpaces more).chars.length < cs.length := by
      have := read.length_le
      have := (skipSpaces cs).length_le
      have := (skipSpaces more).length_le
      omega
    obtain ⟨bare, text, split, element, word⟩ := element_sound (skipSpaces_skipSpaces cs) read
    obtain ⟨gap, blank', goesOn⟩ := exists_blank more
    have split : cs = (before ++ (text ++ gap)) ++ (skipSpaces more).chars := by
      rw [List.append_assoc, List.append_assoc, ← goesOn, ← split]
      exact start
    have later := elements_viable (fun mem => plain (by rw [split]; simp [mem])) late
    rw [split]
    refine later.behind _ fun ds ⟨es, others⟩ starts => ⟨e :: es, ?_⟩
    have whole : IsSequence (e :: es) (before ++ (text ++ (gap ++ ds))) :=
      .cons blank element (fun bareness => head?_not_word_of_gap blank' (goesOn ▸ word bareness) starts)
        (others.blank_append blank')
    simpa using whole
termination_by (cs.length, 1)
decreasing_by
  · have := (skipSpaces cs).length_le
    by_cases h : (skipSpaces cs).chars.length = cs.length
    · rw [h]
      exact Prod.Lex.right _ (by decide)
    · exact Prod.Lex.left _ _ (by omega)
  · exact Prod.Lex.left _ _ shorter

theorem alternatives_viable {cs rest : List Char} (plain : '/' ∉ cs)
    (fails : (alternatives cs).Fails rest) : Viable (fun ds => ∃ es, IsChoice es ds) cs rest := by
  rcases alternatives_fails_iff.mp fails with first | ⟨es, more, next, read, bar, late⟩
  · exact (elements_viable plain first).mono fun ds ⟨es, sequence⟩ => ⟨_, .last sequence⟩
  · have shorter : next.length < cs.length := by
      have := length_lt_of_skipSpaces bar
      have := read.length_le
      omega
    obtain ⟨text, split, sequence, ended⟩ := elements_sound read
    have split : cs = (text ++ ['|']) ++ next := by
      rw [split, ← ended.skipSpaces, bar]
      simp
    have later := alternatives_viable (fun mem => plain (by simp [split, mem])) late
    rw [split]
    refine later.behind _ fun ds ⟨fs, choice⟩ _ => ⟨seq es :: fs, ?_⟩
    have whole : IsChoice (seq es :: fs) (text ++ '|' :: ds) := .cons sequence choice
    simpa using whole
termination_by (cs.length, 2)
decreasing_by
  · exact Prod.Lex.right _ (by decide)
  · exact Prod.Lex.left _ _ shorter

end

def ofTextIn (g : Graph) (text : String) : Except QueryError (PathExpr Predicate) :=
  (ofText text).map fun e => e.map (·.predicate g)

theorem ofTextIn_fails_iff (g : Graph) (text : String) {position : Nat} :
    (∃ e, ofTextIn g text = .error e ∧ e.position = position) ↔
      ∃ rest, (finish (alternatives text.toList)).Fails rest ∧
        position = text.utf8ByteSize - (String.ofList rest).utf8ByteSize := by
  rw [← run_eq_error_iff fun cs => finish (alternatives cs), ofTextIn, ofText]
  cases Query.run (fun cs => finish (alternatives cs)) text with
  | ok es => simp only [Except.map, reduceCtorEq, false_and, exists_false]
  | error e => simp only [Except.map, Except.error.injEq]

theorem ofTextIn_firstError {g : Graph} {text : String} (plain : '/' ∉ text.toList) {e : QueryError}
    (h : ofTextIn g text = .error e) :
    IsFirstError (fun t => ∃ x, ofTextIn g t = .ok x) text e.position := by
  obtain ⟨rest, fails, position⟩ := (ofTextIn_fails_iff g text).mp ⟨e, h, rfl⟩
  have viable : Viable (fun ds => ∃ es, IsChoice es ds) text.toList rest := by
    rcases finish_fails_iff.mp fails with inner | ⟨es, more, read, -, rfl⟩
    · exact alternatives_viable plain inner
    · obtain ⟨taken, split, choice, ended, -⟩ := alternatives_sound read
      rw [ended.skipSpaces, split]
      exact Viable.of_text ⟨es, choice⟩
  rw [position]
  refine viable.firstError fun t ⟨es, choice⟩ => ⟨(alt es).map (·.predicate g), ?_⟩
  rw [ofTextIn, ofText_iff.mpr ⟨es, choice, rfl⟩]
  rfl

/-- The queries of both kinds that are refused, patterns apart, are refused at their first errors, whatever
the graph is. -/
theorem errors_at_first_error {text : String} (plain : '/' ∉ text.toList) :
    (∀ e, Selector.ofText text = .error e →
      IsFirstError (fun t => ∃ s, Selector.ofText t = .ok s) text e.position) ∧
    ∀ g e, ofTextIn g text = .error e →
      IsFirstError (fun t => ∃ x, ofTextIn g t = .ok x) text e.position :=
  ⟨fun _ => Selector.ofText_firstError plain, fun _ _ => ofTextIn_firstError plain⟩

end

/-- No selector begins with a parenthesis; a path expression does, but here it is not closed. -/
theorem errors_at_first_error_unclosed : '/' ∉ "(é".toList ∧
    (∃ e, Selector.ofText "(é" = .error e ∧ e.position = 0 ∧
      IsFirstError (fun t => ∃ s, Selector.ofText t = .ok s) "(é" e.position) ∧
    ∃ e, ofTextIn {} "(é" = .error e ∧ e.position = 3 ∧
      IsFirstError (fun t => ∃ x, ofTextIn {} t = .ok x) "(é" e.position := by
  have plain : '/' ∉ "(é".toList := by decide
  obtain ⟨selector, path⟩ := errors_at_first_error plain
  have refused : (Selector.items ['(', 'é']).Fails ['(', 'é'] := by
    refine Selector.items_fails_iff.mpr (.inl (Selector.item_fails_iff.mpr ?_))
    rw [(Selector.negation_eq_false (by decide) (by decide) _).2,
      Selector.base_eq_bare_of_head (by simp)]
    refine Selector.bare_fails_iff.mpr ⟨rfl, word?_eq_none ?_ _, rfl⟩
    exact Selector.isWordChar_eq_false_of_sign (by decide)
  have word : Text.isWordChar 'é' = true := by decide
  have inner : IsChoice [seq [one (.node (.name "é"))]] ['é'] := by
    have item : IsItem false true (.name "é") ['é'] :=
      .plain (.name (n := "é") ⟨by decide, by simpa using word⟩) .nil
    have stops : ['é'].takeWhile Text.isWordChar ≠ dots := by
      rw [List.takeWhile_cons, word]
      decide
    exact .last (.last .nil (.once (.item item stops)) .nil)
  have unclosed : (finish (alternatives ['(', 'é'])).Fails [] := by
    refine finish_fails_iff.mpr (.inl (alternatives_fails_iff.mpr (.inl (elements_fails_iff.mpr (.inl ?_)))))
    rw [skipSpaces_cons (by decide)]
    have read : (alternatives ['é']).Reads _ [] := inner.complete nofun nofun
    exact element_group_fails_iff.mpr (.inr ⟨_, [], read, by decide, rfl⟩)
  obtain ⟨e, first, position⟩ := (Selector.ofText_fails_iff "(é").mpr ⟨_, refused, rfl⟩
  obtain ⟨e', last, position'⟩ := (ofTextIn_fails_iff {} "(é").mpr ⟨_, unclosed, rfl⟩
  exact ⟨plain, ⟨e, first, position, selector e first⟩, e', last, position', path {} e' last⟩

end CallAtlas.PathExpr
