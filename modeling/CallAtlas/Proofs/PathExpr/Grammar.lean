import CallAtlas.Proofs.PathExpr.Composition
import CallAtlas.Proofs.Selector.Derivation
/-!
The grammar of path expressions, over the items of selectors. Main statement: `ofText_iff`.
-/
namespace CallAtlas.PathExpr

open Query
open Selector (Blank IsItem Starts Follows topItem exists_blank)

abbrev dots : List Char := ['.', '.', '.']

variable {c d : Char} {cs rest before : List Char}

theorem word_stop : Text.isWordChar '.' = true := by simp [Text.isWordChar]

def Opens (c : Char) : Prop := Starts c ∨ c = '('

theorem Opens.not_space (h : Opens c) : Text.isSpace c = false := by
  rcases h with starts | rfl
  · exact starts.not_space
  · decide

theorem Opens.ne (h : Opens c) (sign : Selector.signs.contains d = true)
    (other : d ∉ ['"', '/', '[', '!', '(']) : c ≠ d := by
  rcases h with starts | rfl
  · exact starts.ne sign fun mem => other (List.subset_def.mp (by decide) mem)
  · rintro rfl
    exact other (by decide)

theorem ellipsis?_eq_some (split : cs = dots ++ rest)
    (ends : ∀ c ∈ rest.head?, Text.isWordChar c = false) :
    ∃ r, ellipsis? cs = some r ∧ r.chars = rest := by
  obtain ⟨r, eaten, left⟩ := eat?_eq_some split
  have stop : r.chars.head?.any Text.isWordChar = false := by
    rw [left]
    cases rest with
    | nil => rfl
    | cons c cs => exact ends c rfl
  refine ⟨r, ?_, left⟩
  rw [ellipsis?, eaten, Option.filter_some, stop]
  rfl

theorem ellipsis?_spec {r : Rest 3 cs} (h : ellipsis? cs = some r) :
    cs = dots ++ r.chars ∧ ∀ c ∈ r.chars.head?, Text.isWordChar c = false := by
  obtain ⟨eaten, stop⟩ := Option.filter_eq_some_iff.mp h
  refine ⟨eq_append_of_eat? eaten, fun c first => ?_⟩
  rw [first] at stop
  exact Bool.not_eq_true' _ ▸ stop

theorem ellipsis?_eq_none_iff : ellipsis? cs = none ↔ cs.takeWhile Text.isWordChar ≠ dots := by
  constructor
  · intro h first
    have ends : ∀ c ∈ (cs.dropWhile Text.isWordChar).head?, Text.isWordChar c = false := by
      intro c start
      have stop := cs.head?_dropWhile_not Text.isWordChar
      rwa [start] at stop
    obtain ⟨r, found, -⟩ := ellipsis?_eq_some (by rw [← first, List.takeWhile_append_dropWhile]) ends
    rw [h] at found
    cases found
  · intro h
    rw [Option.eq_none_iff_forall_ne_some]
    intro r found
    obtain ⟨split, ends⟩ := ellipsis?_spec found
    have words : ∀ c ∈ dots, Text.isWordChar c = true := by
      intro c hc
      simp only [List.mem_cons, List.not_mem_nil, or_false, or_self] at hc
      rw [hc]
      exact word_stop
    have stop : r.chars.takeWhile Text.isWordChar = [] := by
      cases left : r.chars with
      | nil => rfl
      | cons c ds =>
        rw [List.takeWhile_cons, ends c (by rw [left]; rfl)]
        rfl
    refine h ?_
    rw [split, List.takeWhile_append_of_pos words, stop, List.append_nil]

theorem Ended.skipSpaces (h : Ended rest) : (Query.skipSpaces rest).chars = rest := by
  cases rest with
  | nil => rfl
  | cons c cs =>
    refine skipSpaces_cons ?_ cs
    rcases h c rfl with rfl | rfl <;> decide

theorem Ended.ne (h : Ended rest) (bar : d ≠ '|') (parenthesis : d ≠ ')') : rest.head? ≠ some d :=
  fun first => (h d first).elim bar parenthesis

theorem Ended.not_word (h : Ended rest) : ∀ c ∈ rest.head?, Text.isWordChar c = false := by
  intro c first
  rcases h c first with rfl | rfl <;> exact Selector.isWordChar_eq_false_of_sign (by decide)

theorem eq_nil_of_skipSpaces (blank : Blank before)
    (start : (skipSpaces (before ++ cs)).chars = before ++ cs) : before = [] := by
  have le := (skipSpaces cs).length_le
  rw [← blank.skipSpaces_append, start, List.length_append] at le
  exact List.eq_nil_of_length_eq_zero (by omega)

variable [PatternEngine]

mutual

/-- An item or an expression in parentheses. It is bare if a further character of a word would become part
of it. -/
inductive IsAtom : (bare : Bool) → PathExpr PathAtom → List Char → Prop where
  | item {bare : Bool} {s : Selector} {cs : List Char} (item : IsItem false bare s cs)
      (word : cs.takeWhile Text.isWordChar ≠ dots) : IsAtom bare (one (.node s.optimize)) cs
  | group {es : List (PathExpr PathAtom)} {cs : List Char} (group : IsChoice es cs) :
      IsAtom false (alt es) ('(' :: (cs ++ [')']))

inductive IsElement : (bare : Bool) → PathExpr PathAtom → List Char → Prop where
  | ellipsis : IsElement true (star (one .any)) dots
  | once {bare : Bool} {e : PathExpr PathAtom} {cs : List Char} (atom : IsAtom bare e cs) :
      IsElement bare e cs
  | repeated {bare : Bool} {e : PathExpr PathAtom} {cs : List Char} (atom : IsAtom bare e cs) :
      IsElement false (star e) (cs ++ ['*'])

/-- Elements with white space around each. A bare word does not go on as another one. -/
inductive IsSequence : List (PathExpr PathAtom) → List Char → Prop where
  | last {bare : Bool} {e : PathExpr PathAtom} {before cs after : List Char} (blank : Blank before)
      (element : IsElement bare e cs) (blank' : Blank after) :
      IsSequence [e] (before ++ (cs ++ after))
  | cons {bare : Bool} {e : PathExpr PathAtom} {es : List (PathExpr PathAtom)}
      {before cs ds : List Char} (blank : Blank before) (element : IsElement bare e cs)
      (word : bare = true → ∀ c ∈ ds.head?, Text.isWordChar c = false) (rest : IsSequence es ds) :
      IsSequence (e :: es) (before ++ (cs ++ ds))

inductive IsChoice : List (PathExpr PathAtom) → List Char → Prop where
  | last {es : List (PathExpr PathAtom)} {cs : List Char} (sequence : IsSequence es cs) :
      IsChoice [seq es] cs
  | cons {es fs : List (PathExpr PathAtom)} {cs ds : List Char} (sequence : IsSequence es cs)
      (rest : IsChoice fs ds) : IsChoice (seq es :: fs) (cs ++ '|' :: ds)

end

variable {bare : Bool} {more : List Char} {e f : PathExpr PathAtom} {es : List (PathExpr PathAtom)}

theorem IsElement.exists_cons (h : IsElement bare e cs) : ∃ c ds, cs = c :: ds ∧ Opens c := by
  have atom {bare : Bool} {e : PathExpr PathAtom} {cs : List Char} (h : IsAtom bare e cs) :
      ∃ c ds, cs = c :: ds ∧ Opens c := by
    cases h with
    | item item =>
      obtain ⟨c, ds, rfl, starts⟩ := item.exists_cons
      exact ⟨c, ds, rfl, .inl starts⟩
    | group => exact ⟨_, _, rfl, .inr rfl⟩
  cases h with
  | ellipsis => exact ⟨_, _, rfl, .inl (.inl word_stop)⟩
  | once h => exact atom h
  | repeated h =>
    obtain ⟨c, ds, rfl, opens⟩ := atom h
    exact ⟨c, ds ++ ['*'], rfl, opens⟩

theorem IsElement.skipSpaces_append (h : IsElement bare e cs) (blank : Blank before) (rest : List Char) :
    (skipSpaces (before ++ (cs ++ rest))).chars = cs ++ rest := by
  obtain ⟨c, ds, rfl, opens⟩ := h.exists_cons
  exact (blank.skipSpaces_append _).trans (skipSpaces_cons opens.not_space _)

theorem IsSequence.exists_start (h : IsSequence es cs) :
    ∃ before c ds, cs = before ++ c :: ds ∧ Blank before ∧ Opens c := by
  cases h with
  | last blank element | cons blank element =>
    obtain ⟨c, ds, rfl, opens⟩ := element.exists_cons
    exact ⟨_, c, _, rfl, blank, opens⟩

theorem IsSequence.blank_append (h : IsSequence es cs) (blank : Blank before) :
    IsSequence es (before ++ cs) := by
  cases h with
  | last inner element blank' =>
    rw [← List.append_assoc]
    exact .last (blank.append inner) element blank'
  | cons inner element word rest =>
    rw [← List.append_assoc]
    exact .cons (blank.append inner) element word rest

theorem takeWhile_item {s : Selector} (item : IsItem false bare s cs)
    (word : bare = true → ∀ c ∈ rest.head?, Text.isWordChar c = false) :
    (cs ++ rest).takeWhile Text.isWordChar = cs.takeWhile Text.isWordChar := by
  cases bare with
  | false =>
    obtain ⟨c, mem, mark⟩ := item.exists_not_word rfl
    obtain ⟨first, last, rfl⟩ := List.append_of_mem mem
    rw [List.append_assoc, List.cons_append, takeWhile_append_cons mark, takeWhile_append_cons mark]
  | true =>
    cases rest with
    | nil => rw [List.append_nil]
    | cons c rest => exact takeWhile_append_cons (word rfl c rfl) cs rest

theorem elements_skipSpaces :
    (elements (skipSpaces cs).chars).Reads es rest ↔ (elements cs).Reads es rest := by
  rw [elements_reads_iff, elements_reads_iff, skipSpaces_skipSpaces]

mutual

theorem IsAtom.complete {bare : Bool} {e f : PathExpr PathAtom} {cs rest more : List Char}
    (h : IsAtom bare e cs) (follows : Follows bare rest) (starred : Starred e rest f more) :
    (element (cs ++ rest)).Reads f more := by
  match h with
  | .item item word =>
    obtain ⟨left, read, -, eq⟩ := item.complete .nil follows nofun
    obtain rfl := eq rfl
    have none : ellipsis? (cs ++ left) = none := by
      rw [ellipsis?_eq_none_iff, takeWhile_item item follows.word]
      exact word
    have plain : (cs ++ left).head? ≠ some '(' := by
      obtain ⟨c, ds, rfl, starts⟩ := item.exists_cons
      exact fun here => starts.ne (by decide) (by decide) (Option.some.inj here)
    exact (element_atom_reads_iff none plain).mpr ⟨_, left, read.map Selector.optimize, starred⟩
  | @IsAtom.group _ es cs group =>
    have ended : Ended (')' :: rest) := by
      rintro c ⟨⟩
      exact .inr rfl
    rw [List.cons_append, List.append_assoc]
    exact element_group_reads_iff.mpr ⟨es, ')' :: rest, rest,
      group.complete ended (by simp), ended.skipSpaces, starred⟩

theorem IsElement.complete {bare : Bool} {e : PathExpr PathAtom} {cs rest : List Char}
    (h : IsElement bare e cs) (follows : Follows bare rest) (last : rest.head? ≠ some '*') :
    (element (cs ++ rest)).Reads e rest := by
  match h with
  | .ellipsis =>
    obtain ⟨r, found, left⟩ := ellipsis?_eq_some rfl (follows.word rfl)
    exact (element_ellipsis_reads_iff found).mpr ⟨rfl, left.symm⟩
  | .once atom => exact atom.complete follows (.inr ⟨last, rfl, rfl⟩)
  | @IsElement.repeated _ bare _ _ atom =>
    have star : Follows bare ('*' :: rest) := by
      refine ⟨?_, ?_⟩
      · rw [skipSpaces_cons (by decide)]
        exact Selector.closure?_eq_none (by simp)
      · rintro - c ⟨⟩
        exact Selector.isWordChar_eq_false_of_sign (by decide)
    rw [List.append_assoc]
    exact atom.complete star (.inl ⟨rfl, rfl⟩)

theorem IsSequence.complete {es : List (PathExpr PathAtom)} {cs rest : List Char}
    (h : IsSequence es cs) (ended : Ended rest) : (elements (cs ++ rest)).Reads es rest := by
  match h with
  | @IsSequence.last _ bare e _ _ after blank element blank' =>
    have spaces : (skipSpaces (after ++ rest)).chars = rest :=
      (blank'.skipSpaces_append rest).trans ended.skipSpaces
    have follows : Follows bare (after ++ rest) := by
      refine ⟨?_, fun _ => blank'.append_not_word ended.not_word⟩
      rw [spaces]
      exact Selector.closure?_eq_none (ended.ne (by decide) (by decide))
    have star := blank'.append_head?_ne (by decide) (ended.ne (d := '*') (by decide) (by decide))
    rw [List.append_assoc, List.append_assoc]
    refine elements_reads_iff.mpr ⟨e, after ++ rest, ?_, .inl ?_⟩
    · rw [element.skipSpaces_append blank]
      exact element.complete follows star
    · rw [spaces]
      exact ⟨ended, rfl, rfl⟩
  | @IsSequence.cons _ bare e _ _ _ ds blank element word others =>
    have later := others.complete ended
    obtain ⟨gap, c, tail, rfl, blank', opens⟩ := others.exists_start
    have spaces : (skipSpaces ((gap ++ c :: tail) ++ rest)).chars = c :: (tail ++ rest) := by
      rw [List.append_assoc, blank'.skipSpaces_append]
      exact skipSpaces_cons opens.not_space _
    have head : ((gap ++ c :: tail) ++ rest).head? = (gap ++ c :: tail).head? :=
      List.head?_append_of_ne_nil _ (List.append_ne_nil_of_right_ne_nil gap (List.cons_ne_nil c tail))
    have ne {d : Char} (sign : Selector.signs.contains d = true)
        (other : d ∉ ['"', '/', '[', '!', '(']) : (c :: (tail ++ rest)).head? ≠ some d :=
      fun here => opens.ne sign other (Option.some.inj here)
    have follows : Follows bare ((gap ++ c :: tail) ++ rest) := by
      rw [← head] at word
      refine ⟨?_, word⟩
      rw [spaces]
      exact Selector.closure?_eq_none (ne (by decide) (by decide))
    have star : ((gap ++ c :: tail) ++ rest).head? ≠ some '*' := by
      rw [List.append_assoc]
      exact blank'.append_head?_ne (by decide) (ne (by decide) (by decide))
    rw [List.append_assoc, List.append_assoc]
    refine elements_reads_iff.mpr ⟨e, (gap ++ c :: tail) ++ rest, ?_, .inr ⟨?_, _, ?_, rfl⟩⟩
    · rw [element.skipSpaces_append blank]
      exact element.complete follows star
    · rw [spaces]
      intro ended
      rcases ended c rfl with bar | parenthesis
      · exact opens.ne (by decide) (by decide) bar
      · exact opens.ne (by decide) (by decide) parenthesis
    · exact elements_skipSpaces.mpr later

theorem IsChoice.complete {es : List (PathExpr PathAtom)} {cs rest : List Char} (h : IsChoice es cs)
    (ended : Ended rest) (last : rest.head? ≠ some '|') : (alternatives (cs ++ rest)).Reads es rest := by
  match h with
  | .last sequence =>
    refine alternatives_reads_iff.mpr ⟨_, rest, sequence.complete ended, .inl ?_⟩
    rw [ended.skipSpaces]
    exact ⟨last, rfl, rfl⟩
  | @IsChoice.cons _ _ _ _ ds sequence others =>
    have bar : Ended ('|' :: (ds ++ rest)) := by
      rintro c ⟨⟩
      exact .inl rfl
    rw [List.append_assoc, List.cons_append]
    exact alternatives_reads_iff.mpr ⟨_, _, sequence.complete bar,
      .inr ⟨ds ++ rest, _, bar.skipSpaces, others.complete ended last, rfl⟩⟩

end

theorem IsAtom.starred (h : IsAtom bare f cs) (starred : Starred f more e rest)
    (word : bare = true → ∀ c ∈ more.head?, Text.isWordChar c = false) :
    ∃ bare text, cs ++ more = text ++ rest ∧ IsElement bare e text ∧
      (bare = true → ∀ c ∈ rest.head?, Text.isWordChar c = false) := by
  rcases starred with ⟨rfl, rfl⟩ | ⟨-, rfl, rfl⟩
  · exact ⟨false, cs ++ ['*'], by simp, .repeated h, fun word => absurd word Bool.false_ne_true⟩
  · exact ⟨bare, cs, rfl, .once h, word⟩

mutual

theorem element_sound {cs rest : List Char} {e : PathExpr PathAtom}
    (start : (skipSpaces cs).chars = cs) (read : (element cs).Reads e rest) :
    ∃ bare text, cs = text ++ rest ∧ IsElement bare e text ∧
      (bare = true → ∀ c ∈ rest.head?, Text.isWordChar c = false) := by
  cases found : ellipsis? cs with
  | some r =>
    obtain ⟨rfl, rfl⟩ := (element_ellipsis_reads_iff found).mp read
    obtain ⟨split, ends⟩ := ellipsis?_spec found
    exact ⟨true, dots, split, .ellipsis, fun _ => ends⟩
  | none =>
    by_cases group : cs.head? = some '('
    · obtain ⟨cs, rfl⟩ := List.head?_eq_some_iff.mp group
      obtain ⟨es, inner, more, body, closed, starred⟩ := element_group_reads_iff.mp read
      obtain ⟨text, split, choice, ended, -⟩ := alternatives_sound body
      rw [ended.skipSpaces] at closed
      obtain ⟨bare, whole, eq, element⟩ := (IsAtom.group choice).starred starred nofun
      refine ⟨bare, whole, ?_, element⟩
      rw [← eq, split, closed]
      simp
    · obtain ⟨s, more, atom, starred⟩ := (element_atom_reads_iff found group).mp read
      obtain ⟨t, item, rfl⟩ := Outcome.reads_map_iff.mp atom
      obtain ⟨bare, before, text, split, blank, item, follows⟩ := Selector.item_sound item
      obtain rfl := eq_nil_of_skipSpaces blank (by rwa [← split])
      -- after white space the item could have been three full stops
      have word := ellipsis?_eq_none_iff.mp found
      rw [split, List.nil_append, takeWhile_item item follows.word] at word
      obtain ⟨bare, whole, eq, element⟩ := (IsAtom.item item word).starred starred follows.word
      exact ⟨bare, whole, split.trans eq, element⟩
termination_by (cs.length, 0)

theorem elements_sound {cs rest : List Char} {es : List (PathExpr PathAtom)}
    (read : (elements cs).Reads es rest) :
    ∃ text, cs = text ++ rest ∧ IsSequence es text ∧ Ended rest := by
  obtain ⟨e, more, first, tail⟩ := elements_reads_iff.mp read
  have taken := first.length_le
  obtain ⟨before, blank, start⟩ := exists_blank cs
  obtain ⟨bare, text, split, element, word⟩ := element_sound (skipSpaces_skipSpaces cs) first
  obtain ⟨gap, blank', goesOn⟩ := exists_blank more
  rcases tail with ⟨ended, rfl, rfl⟩ | ⟨-, fs, later, rfl⟩
  · refine ⟨before ++ (text ++ gap), ?_, .last blank element blank', ended⟩
    rw [List.append_assoc, List.append_assoc, ← goesOn, ← split]
    exact start
  · have shorter : (skipSpaces more).chars.length < cs.length := by
      have := (skipSpaces cs).length_le
      have := (skipSpaces more).length_le
      omega
    obtain ⟨others, eq, sequence, ended⟩ := elements_sound later
    rw [eq, ← List.append_assoc] at goesOn
    have open' (bareness : bare = true) : ∀ c ∈ (gap ++ others).head?, Text.isWordChar c = false := by
      intro c here
      refine word bareness c ?_
      rw [goesOn, List.head?_append, here]
      rfl
    refine ⟨before ++ (text ++ (gap ++ others)), ?_,
      .cons blank element open' (sequence.blank_append blank'), ended⟩
    rw [List.append_assoc, List.append_assoc, ← goesOn, ← split]
    exact start
termination_by (cs.length, 1)
decreasing_by
  · have := (skipSpaces cs).length_le
    by_cases h : (skipSpaces cs).chars.length = cs.length
    · rw [h]
      exact Prod.Lex.right _ (by decide)
    · exact Prod.Lex.left _ _ (by omega)
  · exact Prod.Lex.left _ _ shorter

theorem alternatives_sound {cs rest : List Char} {es : List (PathExpr PathAtom)}
    (read : (alternatives cs).Reads es rest) :
    ∃ text, cs = text ++ rest ∧ IsChoice es text ∧ Ended rest ∧ rest.head? ≠ some '|' := by
  obtain ⟨fs, more, first, tail⟩ := alternatives_reads_iff.mp read
  obtain ⟨text, split, sequence, ended⟩ := elements_sound first
  rw [ended.skipSpaces] at tail
  rcases tail with ⟨last, rfl, rfl⟩ | ⟨next, gs, bar, later, rfl⟩
  · exact ⟨text, split, .last sequence, ended, last⟩
  · have shorter : next.length < cs.length := by
      have := first.length_le
      rw [bar, List.length_cons] at this
      omega
    obtain ⟨others, eq, choice, ended'⟩ := alternatives_sound later
    refine ⟨text ++ '|' :: others, ?_, .cons sequence choice, ended'⟩
    rw [split, bar, eq]
    simp
termination_by (cs.length, 2)
decreasing_by
  · exact Prod.Lex.right _ (by decide)
  · exact Prod.Lex.left _ _ shorter

end

theorem ofText_iff {text : String} : ofText text = .ok e ↔ ∃ es, IsChoice es text.toList ∧ e = alt es := by
  rw [ofText_eq_ok_iff]
  constructor
  · rintro ⟨es, rest, read, none, rfl⟩
    obtain ⟨cs, split, choice, ended, -⟩ := alternatives_sound read
    rw [ended.skipSpaces] at none
    rw [none, List.append_nil] at split
    exact ⟨es, split ▸ choice, rfl⟩
  · rintro ⟨es, choice, rfl⟩
    have read : (alternatives (text.toList ++ [])).Reads es [] := choice.complete nofun nofun
    rw [List.append_nil] at read
    exact ⟨es, [], read, rfl, rfl⟩

end CallAtlas.PathExpr
