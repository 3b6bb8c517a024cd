import CallAtlas.Pattern.Engine
import CallAtlas.Proofs.Selector.Grammar
import CallAtlas.Proofs.Selector.Spelling
/-!
What the readers of selectors read, as texts of the grammar, and that they read every such text. Main
statement: `ofText_row_iff`.
-/
namespace CallAtlas.Selector

open Query

variable {bare : Bool} {cs rest : List Char} {ks : List Closure}

theorem AreClosures.ends (h : AreClosures ks cs) (mark : AtMark (skipSpaces rest).chars) :
    ∀ c ∈ (skipSpaces (cs ++ rest)).chars.head?, Ends c := by
  cases h with
  | nil => exact fun c first => .inr (List.mem_cons_of_mem _ (mark c first))
  | @cons k ks before cs blank =>
    rw [List.append_assoc, blank.skipSpaces_append]
    cases k <;> exact fun | _, rfl => .inr (by decide)

theorem AreClosures.word (h : AreClosures ks cs) (follows : Follows (bare && ks.isEmpty) rest)
    (word : bare = true) : ∀ c ∈ (cs ++ rest).head?, Text.isWordChar c = false := by
  cases h with
  | nil => exact follows.word (by rw [word]; rfl)
  | @cons k ks before cs blank =>
    cases before with
    | nil =>
      have colon : Text.isWordChar ':' = false := isWordChar_eq_false_of_sign (by decide)
      cases k <;> exact fun | _, rfl => colon
    | cons c before => exact fun | _, rfl => blank.head?_not_word c rfl

theorem Follows.of_atMark (mark : AtMark (skipSpaces rest).chars) : Follows bare rest where
  closure := closure?_eq_none fun colon => absurd (mark ':' colon) (by decide)
  word _ c first :=
    (ends_of_skipSpaces (fun d start => .inr (List.mem_cons_of_mem _ (mark d start))) c first).not_word

theorem Blank.skipSpaces (h : Blank cs) : (Query.skipSpaces cs).chars = [] := by
  have all := h.skipSpaces_append []
  rwa [List.append_nil] at all

theorem Separated.discernible {gap next : List Char} (h : Separated bare gap next) (blank : Blank gap) :
    Discernible bare gap next := by
  intro _ c first
  rw [List.head?_append_of_ne_nil gap h] at first
  exact blank.head?_not_word c first

theorem Blank.eq_nil (h : Blank cs) (solid : ∀ c ∈ cs, Text.isSpace c = false) : cs = [] :=
  List.eq_nil_iff_forall_not_mem.mpr fun c hc => Bool.false_ne_true ((solid c hc).symm.trans (h c hc))

section

variable [PatternEngine] {inside : Bool} {before : List Char} {s : Selector} {ss : List Selector}

theorem bare_sound (read : (Selector.bare inside cs).Reads s rest) : ∃ text,
    cs = text ++ rest ∧ IsBase inside true s text ∧ ∀ c ∈ rest.head?, Text.isWordChar c = false := by
  cases found : word? cs with
  | none =>
    cases inside with
    | false =>
      rw [Selector.bare, found] at read
      exact absurd read Outcome.not_reads_expected
    | true =>
      rw [Selector.bare, found] at read
      obtain ⟨rfl, rfl⟩ := Outcome.reads_ok_iff.mp read
      exact ⟨[], rfl, .nothing, head?_not_word found⟩
  | some result =>
    obtain ⟨n, r⟩ := result
    obtain ⟨word, split, ends⟩ := word?_spec found
    cases inside with
    | false =>
      rw [Selector.bare, found] at read
      obtain ⟨rfl, rfl⟩ := Outcome.reads_ok_iff.mp read
      exact ⟨n.toList, split, .name word, ends⟩
    | true =>
      rw [Selector.bare, found] at read
      obtain ⟨rfl, rfl⟩ := Outcome.reads_ok_iff.mp read
      exact ⟨n.toList, split, .label word, ends⟩

mutual

theorem base_sound {inside : Bool} {cs rest : List Char} {s : Selector}
    (read : (base inside cs).Reads s rest) : ∃ bare text, cs = text ++ rest ∧
      IsBase inside bare s text ∧ (bare = true → ∀ c ∈ rest.head?, Text.isWordChar c = false) := by
  by_cases plain : ∀ c ∈ cs.head?, c ∉ ['"', '/', '[']
  · rw [base_eq_bare_of_head plain] at read
    obtain ⟨text, split, base, ends⟩ := bare_sound read
    exact ⟨true, text, split, base, fun _ => ends⟩
  · simp only [not_forall, not_not] at plain
    obtain ⟨c, first, mark⟩ := plain
    obtain ⟨cs, rfl⟩ := List.head?_eq_some_iff.mp first
    simp only [List.mem_cons, List.not_mem_nil, or_false] at mark
    rcases mark with rfl | rfl | rfl
    · obtain ⟨body, inner, rfl⟩ := base_quote_reads_iff.mp read
      obtain ⟨text, rfl, quoted⟩ := readsBody_quoted.sound inner
      exact ⟨false, '"' :: (text ++ ['"']), by simp, .quoted quoted, nofun⟩
    · obtain ⟨body, p, inner, known, rfl⟩ := base_slash_reads_iff.mp read
      obtain ⟨text, rfl, slashed⟩ := readsBody_patternBody.sound inner
      exact ⟨false, '/' :: (text ++ ['/']), by simp, .slashed slashed known, nofun⟩
    · obtain ⟨ss, inner, rfl⟩ := base_bracket_reads_iff.mp read
      obtain ⟨text, rfl, group⟩ := alternatives_sound inner
      exact ⟨false, '[' :: (text ++ [']']), by simp, .group group, nofun⟩
termination_by (cs.length, 0)

theorem item_sound {inside : Bool} {cs rest : List Char} {s : Selector}
    (read : (item inside cs).Reads s rest) : ∃ bare before text, cs = before ++ (text ++ rest) ∧
      Blank before ∧ IsItem inside bare s text ∧ Follows bare rest := by
  obtain ⟨t, more, inner, rfl, rfl⟩ := item_reads_iff.mp read
  obtain ⟨before, blank, start⟩ := negation_spec cs
  obtain ⟨bare, text, split, base, ends⟩ := base_sound inner
  obtain ⟨after, left, closures, last⟩ := closures_spec more
  have follows : Follows (bare && (Selector.closures more).1.isEmpty) (Selector.closures more).2.chars := by
    -- a word that could go on was read to its end, and with a closure after it it cannot go on
    refine ⟨last, fun both => ?_⟩
    obtain ⟨word, none⟩ := Bool.and_eq_true_iff.mp both
    rw [List.isEmpty_iff.mp none] at closures
    cases closures
    rw [List.nil_append] at left
    rw [← left]
    exact ends word
  rw [split] at start
  cases negated : (negation cs).1 with
  | false =>
    rw [negated] at start
    refine ⟨_, before, text ++ after, ?_, blank, .plain base closures, follows⟩
    rw [List.append_assoc, ← left]
    exact start
  | true =>
    rw [negated] at start
    refine ⟨_, before, '!' :: (text ++ after), ?_, blank, .negated base closures, follows⟩
    rw [List.cons_append, List.append_assoc, ← left]
    exact start
termination_by (cs.length, 1)
decreasing_by
  have := (negation cs).2.length_le
  by_cases h : (negation cs).2.chars.length = cs.length
  · rw [h]
    exact Prod.Lex.right _ (by decide)
  · exact Prod.Lex.left _ _ (by omega)

theorem conjuncts_sound {cs rest : List Char} {ss : List Selector}
    (read : (conjuncts cs).Reads ss rest) :
    ∃ text, cs = text ++ rest ∧ IsConjunction ss text ∧ (skipSpaces rest).chars = rest := by
  obtain ⟨s, more, first, tail⟩ := conjuncts_reads_iff.mp read
  obtain ⟨bare, before, text, split, blank, item, -⟩ := item_sound first
  obtain ⟨after, blank', goesOn⟩ := exists_blank more
  rcases tail with ⟨-, rfl, rfl⟩ | ⟨next, ts, comma, later, rfl⟩
  · refine ⟨before ++ (text ++ after), ?_, .last blank item blank', skipSpaces_skipSpaces more⟩
    rw [List.append_assoc, List.append_assoc, ← goesOn]
    exact split
  · have shorter : next.length < cs.length := by
      have := length_lt_of_skipSpaces comma
      have := first.length_le
      omega
    obtain ⟨others, rfl, conjunction, ended⟩ := conjuncts_sound later
    refine ⟨before ++ (text ++ (after ++ ',' :: others)), ?_, .cons blank item blank' conjunction, ended⟩
    rw [split, goesOn, comma]
    simp
termination_by (cs.length, 2)
decreasing_by
  · exact Prod.Lex.right _ (by decide)
  · exact Prod.Lex.left _ _ shorter

theorem alternatives_sound {cs rest : List Char} {ss : List Selector}
    (read : (alternatives cs).Reads ss rest) : ∃ text, cs = text ++ rest ∧ IsGroup ss text := by
  obtain ⟨ts, more, first, tail⟩ := alternatives_reads_iff.mp read
  obtain ⟨text, split, conjunction, ended⟩ := conjuncts_sound first
  rw [ended] at tail
  rcases tail with ⟨-, rfl, rfl⟩ | ⟨next, us, bar, later, rfl⟩
  · exact ⟨text, split, .last conjunction⟩
  · have shorter : next.length < cs.length := by
      have := first.length_le
      rw [bar, List.length_cons] at this
      omega
    obtain ⟨others, rfl, group⟩ := alternatives_sound later
    refine ⟨text ++ '|' :: others, ?_, .cons conjunction group⟩
    rw [split, bar]
    simp
termination_by (cs.length, 3)
decreasing_by
  · exact Prod.Lex.right _ (by decide)
  · exact Prod.Lex.left _ _ shorter

end

theorem items_sound {cs rest : List Char} {ss : List Selector} (read : (items cs).Reads ss rest) :
    ∃ before text ts, cs = before ++ text ∧ Blank before ∧ IsRow Discernible ts text ∧
      ss = ts.map optimize ∧ rest = [] := by
  obtain ⟨s, more, first, tail⟩ := items_reads_iff.mp read
  have shorter := first.length_le
  obtain ⟨t, inner, rfl⟩ := Outcome.reads_map_iff.mp first
  obtain ⟨bare, before, text, split, blank, item, follows⟩ := item_sound inner
  obtain ⟨gap, blank', goesOn⟩ := exists_blank more
  rcases tail with ⟨none, rfl, rfl⟩ | ⟨ts, some, later, rfl⟩
  · rw [none, List.append_nil] at goesOn
    subst goesOn
    exact ⟨before, text ++ more, [t], split, blank, .last item blank', rfl, rfl⟩
  · have le := (skipSpaces more).length_le
    obtain ⟨before', next, ts, split', blank'', row, rfl, rfl⟩ := items_sound later
    rw [split', ← List.append_assoc] at goesOn
    refine ⟨before, text ++ ((gap ++ before') ++ next), t :: ts, ?_, blank, ?_, rfl, rfl⟩
    · rw [← goesOn]
      exact split
    · refine .cons item (blank'.append blank'') ?_ row
      rw [Discernible, ← goesOn]
      exact follows.word
termination_by cs.length
decreasing_by omega

theorem base_reads_word {n : String} (word : IsWord n)
    (ends : ∀ c ∈ rest.head?, Text.isWordChar c = false) :
    (base inside (n.toList ++ rest)).Reads (if inside then label n else name n) rest := by
  obtain ⟨c, cs, eq⟩ := List.exists_cons_of_ne_nil word.1
  have mark := not_mem_marks_of_isWordChar (word.2 c (eq ▸ List.mem_cons_self))
  obtain ⟨r, found, left⟩ := word?_word word ends
  rw [base_eq_bare_of_head]
  · cases inside <;> rw [Selector.bare, found] <;> exact .ok left
  · rw [eq]
    rintro d ⟨⟩ opening
    exact mark (List.subset_def.mp (by decide) opening)

theorem base_reads_nothing (ends : ∀ c ∈ rest.head?, Ends c) : (base true rest).Reads (both []) rest := by
  have none : word? rest = none := by
    cases rest with
    | nil => rfl
    | cons c cs => exact word?_eq_none (ends c rfl).not_word cs
  rw [base_eq_bare_of_head, Selector.bare, none]
  · exact .ok rfl
  · exact fun c first opening => (ends c first).not_opening (List.subset_def.mp (by decide) opening)

mutual

theorem IsBase.complete {inside bare : Bool} {s : Selector} {cs rest : List Char}
    (h : IsBase inside bare s cs) (word : bare = true → ∀ c ∈ rest.head?, Text.isWordChar c = false)
    (ends : inside = true → ∀ c ∈ rest.head?, Ends c) : (base inside (cs ++ rest)).Reads s rest := by
  match h with
  | .name n => exact base_reads_word n (word rfl)
  | .label n => exact base_reads_word n (word rfl)
  | .nothing => exact base_reads_nothing (ends rfl)
  | .quoted quoted =>
    rw [List.cons_append, List.append_assoc]
    exact base_quote_reads_iff.mpr ⟨_, readsBody_quoted.complete quoted, rfl⟩
  | .slashed slashed valid =>
    rw [List.cons_append, List.append_assoc]
    exact base_slash_reads_iff.mpr ⟨_, _, readsBody_patternBody.complete slashed, valid, rfl⟩
  | .group group =>
    rw [List.cons_append, List.append_assoc]
    exact base_bracket_reads_iff.mpr ⟨_, group.complete, rfl⟩

theorem IsItem.complete {inside bare : Bool} {s : Selector} {before cs rest : List Char}
    (h : IsItem inside bare s cs) (blank : Blank before) (follows : Follows bare rest)
    (mark : inside = true → AtMark (skipSpaces rest).chars) :
    ∃ more, (item inside (before ++ (cs ++ rest))).Reads s more ∧
      (skipSpaces more).chars = (skipSpaces rest).chars ∧ (inside = false → more = rest) := by
  match h with
  | @IsItem.plain _ inside bare t ks cs ds base closures =>
    have complete {more : List Char} := @IsBase.complete inside bare t cs more base
    have word := closures.word follows
    have ends (within : inside = true) := closures.ends (mark within)
    obtain ⟨all, left⟩ := closures.closures_append follows.closure
    obtain ⟨sign, place⟩ := blank.negation_append (cs ++ (ds ++ rest))
    rw [List.append_assoc]
    cases cs with
    | cons c cs =>
      obtain ⟨starts, plain⟩ := base.starts c rfl
      obtain ⟨negated, start⟩ := negation_eq_false starts.not_space plain (cs ++ (ds ++ rest))
      refine ⟨rest, item_reads_iff.mpr ⟨t, ds ++ rest, ?_, ?_, left.symm⟩, rfl, fun _ => rfl⟩
      · rw [place, List.cons_append, start]
        exact complete word fun within => ends_of_skipSpaces (ends within)
      · rw [sign, List.cons_append, negated, all]
        rfl
    | nil =>
      -- nothing at all stands for every node, and the reader has passed over the white space after it
      cases inside with
      | false => exact absurd rfl base.ne_nil
      | true =>
        have ends := ends rfl
        have plain : (skipSpaces (ds ++ rest)).chars.head? ≠ some '!' :=
          fun bang => (ends '!' bang).not_opening (by decide)
        obtain ⟨negated, start⟩ := negation_eq_skipSpaces plain
        obtain ⟨all', left'⟩ := closures_skipSpaces (ds ++ rest)
        refine ⟨_, item_reads_iff.mpr ⟨t, _, ?_, ?_, rfl⟩, left'.trans (by rw [left]), nofun⟩
        · rw [place, List.nil_append, start]
          exact complete (fun _ c first => (ends c first).not_word) fun _ => ends
        · rw [sign, List.nil_append, negated, all', all]
          rfl
  | @IsItem.negated _ inside bare t ks cs ds base closures =>
    obtain ⟨all, left⟩ := closures.closures_append follows.closure
    obtain ⟨sign, place⟩ := blank.negation_append ('!' :: (cs ++ (ds ++ rest)))
    obtain ⟨negated, start⟩ := negation_eq_true (cs ++ (ds ++ rest))
    rw [List.cons_append, List.append_assoc]
    refine ⟨rest, item_reads_iff.mpr ⟨t, ds ++ rest, ?_, ?_, left.symm⟩, rfl, fun _ => rfl⟩
    · rw [place, start]
      exact base.complete (closures.word follows) fun within =>
        ends_of_skipSpaces (closures.ends (mark within))
    · rw [sign, negated, all]
      rfl

theorem IsConjunction.complete {ss : List Selector} {cs rest : List Char} (h : IsConjunction ss cs)
    (ends : AtMark rest) (last : rest.head? ≠ some ',') : (conjuncts (cs ++ rest)).Reads ss rest := by
  match h with
  | @IsConjunction.last _ _ _ _ _ after blank item blank' =>
    have spaces : (skipSpaces (after ++ rest)).chars = rest :=
      (blank'.skipSpaces_append rest).trans ends.skipSpaces
    have mark : AtMark (skipSpaces (after ++ rest)).chars := by rwa [spaces]
    obtain ⟨more, read, left, -⟩ := item.complete blank (.of_atMark mark) fun _ => mark
    rw [List.append_assoc, List.append_assoc]
    rw [spaces] at left
    exact conjuncts_reads_iff.mpr ⟨_, more, read, .inl ⟨by rwa [left], rfl, left.symm⟩⟩
  | @IsConjunction.cons _ _ _ _ _ _ after ds blank item blank' others =>
    have spaces : (skipSpaces (after ++ ',' :: (ds ++ rest))).chars = ',' :: (ds ++ rest) :=
      (blank'.skipSpaces_append _).trans (skipSpaces_cons (by decide) _)
    have mark : AtMark (skipSpaces (after ++ ',' :: (ds ++ rest))).chars := by
      rw [spaces]
      exact atMark_cons (by decide) _
    obtain ⟨more, read, left, -⟩ := item.complete blank (.of_atMark mark) fun _ => mark
    rw [spaces] at left
    have read' := others.complete ends last
    rw [List.append_assoc, List.append_assoc, List.append_assoc, List.cons_append]
    exact conjuncts_reads_iff.mpr ⟨_, more, read, .inr ⟨ds ++ rest, _, left, read', rfl⟩⟩

theorem IsGroup.complete {ss : List Selector} {cs rest : List Char} (h : IsGroup ss cs) :
    (alternatives (cs ++ ']' :: rest)).Reads ss (']' :: rest) := by
  have ends := atMark_bracket rest
  match h with
  | .last conjunction =>
    exact alternatives_reads_last (conjunction.complete ends (by simp)) ends (by simp)
  | @IsGroup.cons _ _ _ _ ds conjunction others =>
    have bar : AtMark ('|' :: (ds ++ ']' :: rest)) := atMark_cons (by decide) _
    have first := conjunction.complete bar (by simp)
    rw [List.append_assoc, List.cons_append]
    exact alternatives_reads_iff.mpr
      ⟨_, _, first, .inr ⟨ds ++ ']' :: rest, _, bar.skipSpaces, others.complete, rfl⟩⟩

end

theorem IsRow.follows {gap next : List Char} (h : IsRow Discernible ss next) (blank : Blank gap)
    (fits : Discernible bare gap next) : Follows bare (gap ++ next) := by
  obtain ⟨c, ds, rfl, starts⟩ := h.exists_cons
  refine ⟨?_, fits⟩
  rw [blank.skipSpaces_append, skipSpaces_cons starts.not_space]
  refine closure?_eq_none fun colon => starts.ne (by decide) (by decide) (Option.some.inj colon)

theorem IsRow.complete (h : IsRow Discernible ss cs) (blank : Blank before) :
    (items (before ++ cs)).Reads (ss.map optimize) [] := by
  induction h generalizing before with
  | @last bare s cs after item blank' =>
    have follows : Follows bare after := by
      refine ⟨?_, fun _ => blank'.head?_not_word⟩
      rw [blank'.skipSpaces]
      rfl
    obtain ⟨more, read, -, left⟩ := item.complete blank follows nofun
    obtain rfl := left rfl
    exact items_reads_iff.mpr ⟨_, more, read.map optimize, .inl ⟨blank'.skipSpaces, rfl, rfl⟩⟩
  | @cons bare s ss cs gap next item blank' fits row ih =>
    obtain ⟨more, read, -, left⟩ := item.complete blank (row.follows blank' fits) nofun
    obtain rfl := left rfl
    obtain ⟨c, ds, rfl, starts⟩ := row.exists_cons
    have start : (skipSpaces (gap ++ c :: ds)).chars = c :: ds :=
      (blank'.skipSpaces_append _).trans (skipSpaces_cons starts.not_space ds)
    have later : (items (c :: ds)).Reads (ss.map optimize) [] := ih .nil
    refine items_reads_iff.mpr ⟨_, _, read.map optimize, .inr ⟨ss.map optimize, ?_, ?_, rfl⟩⟩
    · rw [start]
      exact List.cons_ne_nil c ds
    · rwa [start]

def IsRowText (gaps : Bool → List Char → List Char → Prop) (ss : List Selector) (cs : List Char) : Prop :=
  ∃ before row, cs = before ++ row ∧ Blank before ∧ IsRow gaps ss row

theorem ofText_of_row {text : String} (h : IsRowText Discernible ss text.toList) :
    ofText text = .ok (optimize (either (ss.map optimize))) := by
  obtain ⟨before, cs, split, blank, row⟩ := h
  have read : (items text.toList).Reads (ss.map optimize) [] := by
    rw [split]
    exact row.complete blank
  rw [ofText, run_eq_ok_iff.mpr ⟨[], read⟩]
  rfl

theorem IsRow.mono {gaps gaps' : Bool → List Char → List Char → Prop} (h : IsRow gaps ss cs)
    (imp : ∀ {bare gap next}, Blank gap → gaps bare gap next → gaps' bare gap next) :
    IsRow gaps' ss cs := by
  induction h with
  | last item blank => exact .last item blank
  | cons item blank fits _ ih => exact .cons item blank (imp blank fits) ih

/-- The texts of selectors are the rows of items in which a bare word does not go on as another one. The
documented rows, which have white space between any two items, are among them. -/
theorem ofText_row_iff (text : String) :
    (∀ s, ofText text = .ok s ↔
      ∃ ss, IsRowText Discernible ss text.toList ∧ s = optimize (either (ss.map optimize))) ∧
    ∀ ss, IsRowText Separated ss text.toList → IsRowText Discernible ss text.toList := by
  refine ⟨fun s => ⟨fun h => ?_, ?_⟩, ?_⟩
  · rw [ofText] at h
    cases found : Query.run items text with
    | error => rw [found] at h; cases h
    | ok raw =>
      rw [found] at h
      cases h
      obtain ⟨rest, read⟩ := run_eq_ok_iff.mp found
      obtain ⟨before, cs, ss, split, blank, row, rfl, -⟩ := items_sound read
      exact ⟨ss, ⟨before, cs, split, blank, row⟩, rfl⟩
  · rintro ⟨ss, row, rfl⟩
    exact ofText_of_row row
  · rintro ss ⟨before, cs, split, blank, row⟩
    exact ⟨before, cs, split, blank, row.mono fun gap separated => separated.discernible gap⟩

theorem IsRow.exists_item (h : IsRow Separated ss cs) (solid : ∀ c ∈ cs, Text.isSpace c = false) :
    ∃ bare s, IsItem false bare s cs := by
  cases h with
  | @last bare s cs after item blank =>
    rw [blank.eq_nil fun c hc => solid c (List.mem_append_right cs hc), List.append_nil]
    exact ⟨bare, s, item⟩
  | @cons bare s ss cs gap next item blank fits =>
    refine absurd (blank.eq_nil fun c hc => ?_) fits
    exact solid c (List.mem_append_right cs (List.mem_append_left next hc))

end

/-- A closure's text may go on as a name, which makes two items where the documented grammar has none. -/
theorem ofText_closure_goes_on :
    ofText "a:callersb" = .ok (either [closure .callers (name "a"), name "b"]) ∧
      ¬ ∃ ss, IsRowText Separated ss "a:callersb".toList := by
  have a : IsItem false false (closure .callers (name "a")) "a:callers".toList :=
    .plain (.name (isWord_of_isLower (by decide) (by decide)))
      (.cons (k := .callers) .nil .nil)
  have b : IsItem false true (name "b") "b".toList :=
    .plain (.name (isWord_of_isLower (by decide) (by decide))) .nil
  have row : IsRow Discernible [closure .callers (name "a"), name "b"] "a:callersb".toList :=
    .cons a .nil nofun (.last b .nil)
  refine ⟨ofText_of_row ⟨[], _, rfl, .nil, row⟩, ?_⟩
  rintro ⟨ss, before, cs, split, blank, separated⟩
  have letters : "a:callersb".toList.all (!Text.isSpace ·) = true := by decide
  have solid : ∀ c ∈ "a:callersb".toList, Text.isSpace c = false :=
    fun c hc => Bool.not_eq_true' _ ▸ List.all_eq_true.mp letters c hc
  rw [split] at solid
  obtain rfl := blank.eq_nil fun c hc => solid c (List.mem_append_left cs hc)
  obtain ⟨bare, s, whole⟩ := separated.exists_item solid
  -- as one item the text would be taken to its end, but the reader stops before the last letter
  have last : Follows false ['b'] := by
    refine ⟨?_, nofun⟩
    rw [skipSpaces_cons (by decide)]
    exact closure?_eq_none nofun
  have none : Follows bare [] := ⟨rfl, nofun⟩
  obtain ⟨left, all, -, ended⟩ := whole.complete .nil none nofun
  obtain ⟨more, part, -, stopped⟩ := a.complete .nil last nofun
  rw [ended rfl, List.append_nil, ← split] at all
  rw [stopped rfl] at part
  exact absurd (all.unique part).2 (by decide)

end CallAtlas.Selector
