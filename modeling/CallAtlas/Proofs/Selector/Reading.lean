import CallAtlas.Proofs.Query.Token
import CallAtlas.Proofs.Selector.Parser
/-!
What each reader of selectors reads, in terms of the readers that it calls. The texts are lists here and
nothing depends on the place where a reader stopped, so that readings can be put together and taken apart.
-/
namespace CallAtlas.Selector

open Query

variable {inside : Bool} {cs rest : List Char}

theorem quoted_cons {c : Char} (quote : c ≠ '"') (escape : c ≠ '\\') (cs : List Char) :
    quoted (c :: cs) = (((quoted cs).after (.tail c cs)).map (c :: ·)).weaken (by decide) := by
  rw [quoted]
  · exact fun eq _ => escape eq
  · exact quote
  · exact fun _ _ eq _ => escape eq

theorem patternBody_cons {c : Char} (slash : c ≠ '/') (escape : c ≠ '\\') (cs : List Char) :
    patternBody (c :: cs) =
      (((patternBody cs).after (.tail c cs)).map (c :: ·)).weaken (by decide) := by
  rw [patternBody]
  · exact fun eq _ => escape eq
  · exact slash
  · exact fun _ _ eq _ => escape eq

theorem closure?_eq_none (h : cs.head? ≠ some ':') : closure? cs = none := by
  rw [closure?, List.findSome?_eq_none_iff]
  intro k _
  have missing : eat? k.text.toList cs = none := by
    refine eat?_eq_none_iff.mpr fun here => h ?_
    have colon : [':'] <+: k.text.toList := by cases k <;> decide
    exact singleton_prefix_iff.mp (colon.trans here)
  rw [missing]
  rfl

theorem closures_eq_nil (h : (skipSpaces cs).chars.head? ≠ some ':') : closures cs = ([], .all cs) := by
  rw [closures, closure?_eq_none h]

theorem eq_of_text_starts {j k : Closure} (h : j.text.toList <+: k.text.toList ++ rest) : j = k := by
  rcases List.prefix_or_prefix_of_prefix h (List.prefix_append _ _) with here | here
  · revert here
    cases j <;> cases k <;> decide
  · revert here
    cases j <;> cases k <;> decide

theorem closure?_text (k : Closure) (rest : List Char) :
    ∃ r, closure? (k.text.toList ++ rest) = some (k, r) ∧ r.chars = rest := by
  have text : k.text.toList ++ rest = k.text.toList ++ rest := rfl
  obtain ⟨r, eaten, left⟩ := eat?_eq_some text
  have member : k ∈ Closure.all := by cases k <;> decide
  obtain ⟨before, after, all, first⟩ := List.eq_append_cons_of_mem member
  refine ⟨r.weaken (by cases k <;> decide), ?_, left⟩
  rw [closure?, List.findSome?_eq_some_iff]
  refine ⟨before, k, after, all, by rw [eaten]; rfl, fun j hj => ?_⟩
  have missing : eat? j.text.toList (k.text.toList ++ rest) = none :=
    eat?_eq_none_iff.mpr fun here => first (eq_of_text_starts here ▸ hj)
  rw [missing]
  rfl

theorem negation_eq_false {c : Char} (space : Text.isSpace c = false) (plain : c ≠ '!') (cs : List Char) :
    (negation (c :: cs)).1 = false ∧ (negation (c :: cs)).2.chars = c :: cs := by
  have spaces : (skipSpaces (c :: cs)).chars = c :: cs := skipSpaces_cons space cs
  have unread : eat? ['!'] (skipSpaces (c :: cs)).chars = none := by
    rw [spaces]
    exact eat?_eq_none plain.symm [] cs
  rw [negation, unread]
  exact ⟨rfl, spaces⟩

theorem negation_eq_true (cs : List Char) :
    (negation ('!' :: cs)).1 = true ∧ (negation ('!' :: cs)).2.chars = cs := by
  have text : (skipSpaces ('!' :: cs)).chars = ['!'] ++ cs := skipSpaces_cons (by decide) cs
  obtain ⟨r, eaten, left⟩ := eat?_eq_some text
  rw [negation, eaten]
  exact ⟨rfl, left⟩

variable [PatternEngine] {s : Selector} {ss : List Selector}

theorem base_quote_reads_iff : (base inside ('"' :: cs)).Reads s rest ↔
    ∃ body, (quoted cs).Reads body rest ∧ s = name (String.ofList body) := by
  rw [base, Outcome.reads_weaken_iff, Outcome.reads_map_iff]
  exact exists_congr fun body => and_congr_left fun _ => Outcome.reads_after_tail_iff

theorem base_slash_reads_iff : (base inside ('/' :: cs)).Reads s rest ↔
    ∃ body p, (patternBody cs).Reads body rest ∧ Pattern.ofText (String.ofList body) = .ok p ∧
      s = pattern p := by
  rw [base, Outcome.reads_weaken_iff, Outcome.reads_after_tail_iff, slashed]
  constructor
  · intro read
    split at read
    · exact absurd read Outcome.not_reads_error
    · rename_i body r found
      split at read
      · exact absurd read Outcome.not_reads_error
      · rename_i p known
        obtain ⟨rfl, rfl⟩ := Outcome.reads_ok_iff.mp read
        exact ⟨body, p, ⟨r, found, rfl⟩, known, rfl⟩
  · rintro ⟨body, p, ⟨r, found, rfl⟩, known, rfl⟩
    rw [found]
    dsimp only
    rw [known]
    exact .ok rfl

theorem base_bracket_reads_iff : (base inside ('[' :: cs)).Reads s rest ↔
    ∃ ss, (alternatives cs).Reads ss (']' :: rest) ∧ s = either ss := by
  rw [base, Outcome.reads_weaken_iff, Outcome.reads_after_tail_iff, Outcome.reads_weaken_iff,
    Outcome.reads_andThen_iff]
  constructor
  · rintro ⟨t, r, group, closed⟩
    obtain ⟨ss, read, rfl⟩ := Outcome.reads_map_iff.mp ⟨r, group, rfl⟩
    split at closed
    · rename_i bracket eaten
      obtain ⟨rfl, rfl⟩ := Outcome.reads_ok_iff.mp closed
      rw [eq_append_of_eat? eaten] at read
      exact ⟨ss, read, rfl⟩
    · exact absurd closed Outcome.not_reads_expected
  · rintro ⟨ss, read, rfl⟩
    obtain ⟨r, group, left⟩ := read.map (fun ss => either ss)
    have left : r.chars = [']'] ++ rest := left
    obtain ⟨bracket, eaten, left⟩ := eat?_eq_some left
    refine ⟨_, r, group, ?_⟩
    rw [eaten]
    exact .ok left

theorem base_eq_bare_of_head (h : ∀ c ∈ cs.head?, c ∉ ['"', '/', '[']) :
    base inside cs = bare inside cs := by
  rw [base.eq_def]
  split
  · exact absurd (by decide) (h _ rfl)
  · exact absurd (by decide) (h _ rfl)
  · exact absurd (by decide) (h _ rfl)
  · rfl

theorem item_reads_iff : (item inside cs).Reads s rest ↔
    ∃ t more, (base inside (negation cs).2.chars).Reads t more ∧
      s = close (if (negation cs).1 then not t else t) (closures more).1 ∧
      rest = (closures more).2.chars := by
  rw [item_eq, Outcome.reads_weaken_iff, Outcome.reads_after_iff, Outcome.reads_weaken_iff,
    Outcome.reads_andThen_iff]
  simp only [Outcome.reads_ok_iff]
  constructor
  · rintro ⟨t, r, read, eq⟩
    exact ⟨t, r.chars, ⟨r, read, rfl⟩, eq⟩
  · rintro ⟨t, more, ⟨r, read, rfl⟩, eq⟩
    exact ⟨t, r, read, eq⟩

theorem item_reads_of_base {c : Char} {more : List Char} (space : Text.isSpace c = false)
    (plain : c ≠ '!') (read : (base inside (c :: cs)).Reads s more) :
    (item inside (c :: cs)).Reads (close s (closures more).1) (closures more).2.chars := by
  obtain ⟨negated, start⟩ := negation_eq_false space plain cs
  rw [← start] at read
  refine item_reads_iff.mpr ⟨s, more, read, ?_, rfl⟩
  rw [negated]
  rfl

theorem item_reads_of_bang {more : List Char} (read : (base inside cs).Reads s more) :
    (item inside ('!' :: cs)).Reads (close (not s) (closures more).1) (closures more).2.chars := by
  obtain ⟨negated, start⟩ := negation_eq_true cs
  rw [← start] at read
  refine item_reads_iff.mpr ⟨s, more, read, ?_, rfl⟩
  rw [negated]
  rfl

theorem conjuncts_reads_iff : (conjuncts cs).Reads ss rest ↔
    ∃ s more, (item true cs).Reads s more ∧
      ((skipSpaces more).chars.head? ≠ some ',' ∧ ss = [s] ∧ rest = (skipSpaces more).chars ∨
        ∃ next ts, (skipSpaces more).chars = ',' :: next ∧ (conjuncts next).Reads ts rest ∧
          ss = s :: ts) := by
  rw [conjuncts]
  refine reads_separated_iff (fun s r ended => ?_) (fun s r comma found => ?_)
  · dsimp only
    rw [ended]
  · dsimp only
    rw [found]

theorem alternatives_reads_iff : (alternatives cs).Reads ss rest ↔
    ∃ ts more, (conjuncts cs).Reads ts more ∧
      ((skipSpaces more).chars.head? ≠ some '|' ∧ ss = [both ts] ∧ rest = (skipSpaces more).chars ∨
        ∃ next us, (skipSpaces more).chars = '|' :: next ∧ (alternatives next).Reads us rest ∧
          ss = both ts :: us) := by
  rw [alternatives]
  refine reads_separated_iff (fun ts r ended => ?_) (fun ts r bar found => ?_)
  · dsimp only
    rw [ended]
  · dsimp only
    rw [found]

theorem items_reads_iff : (items cs).Reads ss rest ↔
    ∃ s more, (topItem cs).Reads s more ∧
      ((skipSpaces more).chars = [] ∧ ss = [s] ∧ rest = [] ∨
        ∃ ts, (skipSpaces more).chars ≠ [] ∧ (items (skipSpaces more).chars).Reads ts rest ∧
          ss = s :: ts) := by
  rw [items, Outcome.reads_andThen_iff]
  constructor
  · rintro ⟨s, r, read, tail⟩
    refine ⟨s, r.chars, ⟨r, read, rfl⟩, ?_⟩
    dsimp only at tail
    split at tail
    · rename_i none
      obtain ⟨rfl, rfl⟩ := Outcome.reads_ok_iff.mp tail
      exact .inl ⟨none, rfl, none⟩
    · rename_i some
      obtain ⟨ts, later, rfl⟩ := Outcome.reads_map_iff.mp (Outcome.reads_weaken_iff.mp tail)
      exact .inr ⟨ts, some, Outcome.reads_after_iff.mp later, rfl⟩
  · rintro ⟨s, more, ⟨r, read, rfl⟩, tail⟩
    refine ⟨s, r, read, ?_⟩
    dsimp only
    split
    · rename_i none
      obtain ⟨-, rfl, rfl⟩ | ⟨ts, some, -⟩ := tail
      · exact .ok none
      · exact absurd none some
    · rename_i some
      obtain ⟨none, -⟩ | ⟨ts, -, later, rfl⟩ := tail
      · exact absurd none some
      · exact .weaken (.map (.after later) _) _

end CallAtlas.Selector
