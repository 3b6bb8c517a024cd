import CallAtlas.PathExpr.Parser
import CallAtlas.Pattern.Engine
import CallAtlas.Proofs.PathExpr.Language
import CallAtlas.Proofs.Selector.Continuation
/-!
Path expressions put together as texts. A bar or a closing parenthesis ends whatever stands before it, so
the readers read the same parts from a longer text. Main statement: `ofText_composes`.
-/
namespace CallAtlas.PathExpr

open Query
open Selector (Stops topItem)
open scoped Computability

variable {d : Char} {cs ds rest more : List Char}

def Closes (d : Char) : Prop := d = '|' ∨ d = ')'

theorem Closes.stops (h : Closes d) : Stops d := by
  rcases h with rfl | rfl
  · exact ⟨Selector.isWordChar_eq_false_of_sign (by decide), by decide, by decide, by decide⟩
  · exact ⟨Selector.isWordChar_eq_false_of_sign (by decide), by decide, by decide, by decide⟩

theorem Closes.ne_star (h : Closes d) : d ≠ '*' := by
  rcases h with rfl | rfl <;> decide

theorem Closes.ne_parenthesis (h : Closes d) : d ≠ '(' := by
  rcases h with rfl | rfl <;> decide

/-- Nothing more follows in a sequence: the text is at its end, at a bar or at a closing parenthesis. -/
def Ended (cs : List Char) : Prop := ∀ c ∈ cs.head?, c = '|' ∨ c = ')'

theorem Ended.append (closes : Closes d) : Ended (cs ++ d :: ds) ↔ Ended cs := by
  cases cs with
  | nil =>
    refine iff_of_true ?_ nofun
    rintro c ⟨⟩
    exact closes
  | cons c cs => exact Iff.rfl

theorem ellipsis?_append (closes : Closes d) (cs ds : List Char) :
    (ellipsis? (cs ++ d :: ds)).map (·.chars) = (ellipsis? cs).map (·.chars ++ d :: ds) := by
  have free : d ∉ ['.', '.', '.'] := by
    rcases closes with rfl | rfl <;> decide
  have next := eat?_append free cs ds
  rw [ellipsis?, ellipsis?]
  cases found : eat? ['.', '.', '.'] cs with
  | none =>
    rw [found] at next
    rw [Option.map_eq_none_iff.mp next]
    rfl
  | some r =>
    rw [found] at next
    obtain ⟨r', found', left⟩ := Option.map_eq_some_iff.mp next
    have same : r'.chars.head?.any Text.isWordChar = r.chars.head?.any Text.isWordChar := by
      rw [left]
      show (r.chars ++ d :: ds).head?.any Text.isWordChar = _
      cases r.chars with
      | nil => exact closes.stops.word
      | cons c cs => rfl
    rw [found', Option.filter_some, Option.filter_some, same]
    split
    · exact congrArg some left
    · rfl

theorem languages_eq_map (es : List (PathExpr Predicate)) : languages es = es.map language := by
  induction es with
  | nil => rfl
  | cons e es ih => rw [languages, ih, List.map_cons]

section

variable [PatternEngine] {e f : PathExpr PathAtom} {es fs gs : List (PathExpr PathAtom)}

/-- A star may follow an expression at once; then it belongs to it. -/
def Starred (f : PathExpr PathAtom) (more : List Char) (e : PathExpr PathAtom) (rest : List Char) : Prop :=
  more = '*' :: rest ∧ e = star f ∨ more.head? ≠ some '*' ∧ e = f ∧ rest = more

theorem starred_reads_iff {o : Outcome (PathExpr PathAtom) 1 cs} :
    (starred o).Reads e rest ↔ ∃ f more, o.Reads f more ∧ Starred f more e rest := by
  have one (f : PathExpr PathAtom) (r : Rest 1 cs) :
      (starred (.ok (f, r))).Reads e rest ↔ Starred f r.chars e rest := by
    dsimp only [starred]
    cases found : eat? ['*'] r.chars with
    | none =>
      have last := mt singleton_prefix_iff.mpr (eat?_eq_none_iff.mp found)
      rw [Outcome.reads_ok_iff, Starred, and_iff_right last]
      refine (or_iff_right ?_).symm
      rintro ⟨star, -⟩
      exact last (by rw [star]; rfl)
    | some mark =>
      rw [Outcome.reads_ok_iff, Starred, eq_append_of_eat? found]
      constructor
      · rintro ⟨rfl, rfl⟩
        exact .inl ⟨rfl, rfl⟩
      · rintro (⟨star, rfl⟩ | ⟨last, -⟩)
        · exact ⟨rfl, (List.cons.inj star).2.symm⟩
        · exact absurd rfl last
  cases o with
  | error e =>
    refine iff_of_false Outcome.not_reads_error ?_
    rintro ⟨f, more, read, -⟩
    exact Outcome.not_reads_error read
  | ok read =>
    refine (one read.1 read.2).trans ⟨fun h => ⟨_, _, .ok rfl, h⟩, ?_⟩
    rintro ⟨f, more, first, h⟩
    obtain ⟨rfl, rfl⟩ := Outcome.reads_ok_iff.mp first
    exact h

theorem element_ellipsis_reads_iff {r : Rest 3 cs} (h : ellipsis? cs = some r) :
    (element cs).Reads e rest ↔ e = star (one .any) ∧ rest = r.chars := by
  rw [element.eq_def, h]
  exact Outcome.reads_ok_iff

theorem element_group_reads_iff : (element ('(' :: cs)).Reads e rest ↔
    ∃ es inner more, (alternatives cs).Reads es inner ∧ (skipSpaces inner).chars = ')' :: more ∧
      Starred (alt es) more e rest := by
  have none : ellipsis? ('(' :: cs) = none := by
    rw [ellipsis?, eat?_eq_none (by decide)]
    rfl
  rw [element.eq_def, none]
  dsimp only
  refine starred_reads_iff.trans ?_
  simp only [Outcome.reads_weaken_iff, Outcome.reads_after_tail_iff, Outcome.reads_andThen_iff]
  constructor
  · rintro ⟨f, more, ⟨es, r, read, closed⟩, starred⟩
    split at closed
    · rename_i mark found
      obtain ⟨rfl, rfl⟩ := Outcome.reads_ok_iff.mp closed
      exact ⟨es, r.chars, mark.chars, ⟨r, read, rfl⟩, eq_append_of_eat? found, starred⟩
    · exact absurd closed Outcome.not_reads_expected
  · rintro ⟨es, inner, more, ⟨r, read, rfl⟩, text, starred⟩
    have text : (skipSpaces r.chars).chars = [')'] ++ more := text
    obtain ⟨mark, found, left⟩ := eat?_eq_some text
    refine ⟨alt es, more, ⟨es, r, read, ?_⟩, starred⟩
    rw [found]
    exact .ok left

theorem element_atom_reads_iff (h : ellipsis? cs = none) (plain : cs.head? ≠ some '(') :
    (element cs).Reads e rest ↔
      ∃ s more, (topItem cs).Reads s more ∧ Starred (one (.node s)) more e rest := by
  rw [element.eq_def, h]
  dsimp only
  refine starred_reads_iff.trans ?_
  split
  · exact absurd rfl plain
  · simp only [Outcome.reads_map_iff]
    constructor
    · rintro ⟨f, more, ⟨s, read, rfl⟩, starred⟩
      exact ⟨s, more, read, starred⟩
    · rintro ⟨s, more, read, starred⟩
      exact ⟨_, more, ⟨s, read, rfl⟩, starred⟩

theorem elements_reads_iff : (elements cs).Reads es rest ↔
    ∃ e more, (element (skipSpaces cs).chars).Reads e more ∧
      (Ended (skipSpaces more).chars ∧ es = [e] ∧ rest = (skipSpaces more).chars ∨
        ¬ Ended (skipSpaces more).chars ∧ ∃ fs, (elements (skipSpaces more).chars).Reads fs rest ∧
          es = e :: fs) := by
  rw [elements, Outcome.reads_andThen_iff]
  have first {e : PathExpr PathAtom} {more : List Char} :
      Outcome.Reads (((element (skipSpaces cs).chars).after (skipSpaces cs)).weaken (by decide) :
        Outcome (PathExpr PathAtom) 1 cs) e more ↔ (element (skipSpaces cs).chars).Reads e more := by
    rw [Outcome.reads_weaken_iff, Outcome.reads_after_iff]
  constructor
  · rintro ⟨e, r, read, tail⟩
    refine ⟨e, r.chars, first.mp ⟨r, read, rfl⟩, ?_⟩
    dsimp only at tail
    split at tail
    case h_4 =>
      rename_i c bar parenthesis here
      obtain ⟨fs, later, rfl⟩ := Outcome.reads_map_iff.mp (Outcome.reads_weaken_iff.mp tail)
      refine .inr ⟨fun ended => ?_, fs, Outcome.reads_after_iff.mp later, rfl⟩
      exact (ended c here).elim bar parenthesis
    all_goals
      rename_i here
      obtain ⟨rfl, rfl⟩ := Outcome.reads_ok_iff.mp tail
      exact .inl ⟨by simp [Ended, here], rfl, rfl⟩
  · rintro ⟨e, more, read, tail⟩
    obtain ⟨r, found, rfl⟩ := first.mpr read
    refine ⟨e, r, found, ?_⟩
    dsimp only
    split
    case h_4 =>
      rename_i c bar parenthesis here
      rcases tail with ⟨ended, -⟩ | ⟨-, fs, later, rfl⟩
      · exact ((ended c here).elim bar parenthesis).elim
      · exact .weaken (.map (.after later) _) _
    all_goals
      rename_i here
      rcases tail with ⟨-, rfl, rfl⟩ | ⟨goesOn, -⟩
      · exact .ok rfl
      · exact absurd (by simp [Ended, here]) goesOn

theorem alternatives_reads_iff : (alternatives cs).Reads fs rest ↔
    ∃ es more, (elements cs).Reads es more ∧
      ((skipSpaces more).chars.head? ≠ some '|' ∧ fs = [seq es] ∧ rest = (skipSpaces more).chars ∨
        ∃ next gs, (skipSpaces more).chars = '|' :: next ∧ (alternatives next).Reads gs rest ∧
          fs = seq es :: gs) := by
  rw [alternatives]
  refine reads_separated_iff (fun es r ended => ?_) (fun es r bar found => ?_)
  · dsimp only
    rw [ended]
  · dsimp only
    rw [found]

theorem Starred.append (h : Starred f more e rest) (closes : Closes d) :
    Starred f (more ++ d :: ds) e (rest ++ d :: ds) := by
  rcases h with ⟨rfl, rfl⟩ | ⟨last, rfl, rfl⟩
  · exact .inl ⟨rfl, rfl⟩
  · exact .inr ⟨head?_append_ne last closes.ne_star, rfl, rfl⟩

/-- What more is read of a text when `tail` follows what was left of it, and what is left then: nothing
more is read before a closing parenthesis, but a bar at the end of the text brings further alternatives. -/
inductive GoesOn : (rest tail : List Char) → List (PathExpr PathAtom) → List Char → Prop where
  | within {rest tail : List Char} (some : rest ≠ []) : GoesOn rest tail [] (rest ++ tail)
  | closed {rest ds : List Char} : GoesOn rest (')' :: ds) [] (rest ++ ')' :: ds)
  | barred {rest ds more : List Char} {fs : List (PathExpr PathAtom)}
    (none : (skipSpaces rest).chars = []) (read : (alternatives ds).Reads fs more) :
    GoesOn rest ('|' :: ds) fs more

mutual

theorem reads_element_append (closes : Closes d) {cs rest : List Char} {e : PathExpr PathAtom}
    (read : (element cs).Reads e rest) : (element (cs ++ d :: ds)).Reads e (rest ++ d :: ds) := by
  have next := ellipsis?_append closes cs ds
  cases found : ellipsis? cs with
  | some r =>
    rw [found] at next
    obtain ⟨r', found', left⟩ := Option.map_eq_some_iff.mp next
    obtain ⟨rfl, rfl⟩ := (element_ellipsis_reads_iff found).mp read
    exact (element_ellipsis_reads_iff found').mpr ⟨rfl, left.symm⟩
  | none =>
    rw [found] at next
    have none := Option.map_eq_none_iff.mp next
    by_cases group : cs.head? = some '('
    · obtain ⟨cs, rfl⟩ := List.head?_eq_some_iff.mp group
      obtain ⟨es, inner, more, body, text, starred⟩ := element_group_reads_iff.mp read
      have some : inner ≠ [] := by
        rintro rfl
        cases text
      refine element_group_reads_iff.mpr ⟨es, inner ++ d :: ds, more ++ d :: ds, ?_, ?_,
        starred.append closes⟩
      · have body := reads_alternatives_append closes body (.within some)
        rwa [List.append_nil] at body
      · rw [skipSpaces_append closes.stops.space, text]
        rfl
    · obtain ⟨s, more, atom, starred⟩ := (element_atom_reads_iff found group).mp read
      exact (element_atom_reads_iff none (head?_append_ne group closes.ne_parenthesis)).mpr
        ⟨s, more ++ d :: ds, closes.stops.reads_topItem_append atom, starred.append closes⟩
termination_by (cs.length, 0)

theorem reads_elements_append (closes : Closes d) {cs rest : List Char} {es : List (PathExpr PathAtom)}
    (read : (elements cs).Reads es rest) : (elements (cs ++ d :: ds)).Reads es (rest ++ d :: ds) := by
  obtain ⟨e, more, first, tail⟩ := elements_reads_iff.mp read
  have space := closes.stops.space
  refine elements_reads_iff.mpr ⟨e, more ++ d :: ds, ?_, ?_⟩
  · rw [skipSpaces_append space]
    exact reads_element_append closes first
  · rw [skipSpaces_append space, Ended.append closes]
    rcases tail with ⟨ended, rfl, rfl⟩ | ⟨goesOn, fs, later, rfl⟩
    · exact .inl ⟨ended, rfl, rfl⟩
    · have shorter : (skipSpaces more).chars.length < cs.length := by
        have := first.length_le
        have := (skipSpaces cs).length_le
        have := (skipSpaces more).length_le
        omega
      exact .inr ⟨goesOn, fs, reads_elements_append closes later, rfl⟩
termination_by (cs.length, 1)
decreasing_by
  · have := (skipSpaces cs).length_le
    by_cases h : (skipSpaces cs).chars.length = cs.length
    · rw [h]
      exact Prod.Lex.right _ (by decide)
    · exact Prod.Lex.left _ _ (by omega)
  · exact Prod.Lex.left _ _ shorter

theorem reads_alternatives_append (closes : Closes d) {cs rest more : List Char}
    {es fs : List (PathExpr PathAtom)} (read : (alternatives cs).Reads es rest)
    (goesOn : GoesOn rest (d :: ds) fs more) : (alternatives (cs ++ d :: ds)).Reads (es ++ fs) more := by
  obtain ⟨first, left, sequence, tail⟩ := alternatives_reads_iff.mp read
  refine alternatives_reads_iff.mpr ⟨first, left ++ d :: ds, reads_elements_append closes sequence, ?_⟩
  rw [skipSpaces_append closes.stops.space]
  rcases tail with ⟨last, rfl, eq⟩ | ⟨next, gs, bar, later, rfl⟩
  · rw [← eq] at last ⊢
    cases goesOn with
    | within some =>
      refine .inl ⟨?_, rfl, rfl⟩
      rwa [List.head?_append_of_ne_nil _ some]
    | closed => exact .inl ⟨head?_append_ne last (by decide), rfl, rfl⟩
    | barred none next =>
      rw [eq, skipSpaces_skipSpaces, ← eq] at none
      subst none
      exact .inr ⟨ds, fs, rfl, next, rfl⟩
  · have shorter : next.length < cs.length := by
      have := length_lt_of_skipSpaces bar
      have := sequence.length_le
      omega
    refine .inr ⟨next ++ d :: ds, gs ++ fs, ?_, reads_alternatives_append closes later goesOn, rfl⟩
    rw [bar]
    rfl
termination_by (cs.length, 2)
decreasing_by
  · exact Prod.Lex.right _ (by decide)
  · exact Prod.Lex.left _ _ shorter

end

theorem ofText_eq_ok_iff {text : String} : ofText text = .ok e ↔
    ∃ es rest, (alternatives text.toList).Reads es rest ∧ (skipSpaces rest).chars = [] ∧ e = alt es := by
  rw [ofText]
  constructor
  · intro h
    cases found : Query.run (fun cs => finish (alternatives cs)) text with
    | error => rw [found] at h; cases h
    | ok es =>
      rw [found] at h
      cases h
      obtain ⟨rest, read⟩ := run_eq_ok_iff.mp found
      obtain ⟨more, read, none, -⟩ := finish_reads_iff.mp read
      exact ⟨es, more, read, none, rfl⟩
  · rintro ⟨es, rest, read, none, rfl⟩
    rw [run_eq_ok_iff.mpr ⟨[], finish_reads_iff.mpr ⟨rest, read, none, rfl⟩⟩]
    rfl

theorem reads_group (read : (alternatives cs).Reads es rest) (none : (skipSpaces rest).chars = [])
    (starred : Starred (alt es) ds e more) : (element ('(' :: (cs ++ ')' :: ds))).Reads e more := by
  refine element_group_reads_iff.mpr ⟨es, rest ++ ')' :: ds, ds, ?_, ?_, starred⟩
  · have closed : (alternatives (cs ++ ')' :: ds)).Reads (es ++ []) (rest ++ ')' :: ds) :=
      reads_alternatives_append (.inr rfl) read .closed
    rwa [List.append_nil] at closed
  · rw [skipSpaces_append (by decide), none]
    rfl

theorem reads_elements_singleton (start : (skipSpaces cs).chars = cs) (read : (element cs).Reads e []) :
    (elements cs).Reads [e] [] := by
  refine elements_reads_iff.mpr ⟨e, [], ?_, .inl ⟨nofun, rfl, rfl⟩⟩
  rwa [start]

theorem reads_elements_cons (first : (element ('(' :: cs)).Reads e ('(' :: ds))
    (later : (elements ('(' :: ds)).Reads es rest) : (elements ('(' :: cs)).Reads (e :: es) rest := by
  have goesOn : ¬ Ended ('(' :: ds) := by
    intro ended
    exact absurd (ended '(' rfl) (by decide)
  refine elements_reads_iff.mpr ⟨e, '(' :: ds, ?_, .inr ?_⟩
  · rwa [skipSpaces_cons (by decide)]
  · rw [skipSpaces_cons (by decide)]
    exact ⟨goesOn, es, later, rfl⟩

theorem ofText_of_elements {text : String} (read : (elements text.toList).Reads es []) :
    ofText text = .ok (alt [seq es]) := by
  refine ofText_eq_ok_iff.mpr ⟨[seq es], [], ?_, rfl, rfl⟩
  exact alternatives_reads_iff.mpr ⟨es, [], read, .inl ⟨by decide, rfl, rfl⟩⟩

theorem ne_nil_of_reads_alternatives (read : (alternatives cs).Reads es rest) : es ≠ [] := by
  obtain ⟨first, more, -, ⟨-, rfl, -⟩ | ⟨next, gs, -, -, rfl⟩⟩ := alternatives_reads_iff.mp read
  · exact List.cons_ne_nil _ _
  · exact List.cons_ne_nil _ _

def accepted (g : Graph) (e : PathExpr PathAtom) : Language String :=
  {word | (Automaton.recognizes (Simulation.ofNfa (e.map (·.predicate g)).nfa) word).1 = true}

variable {g : Graph}

theorem accepted_eq : accepted g e = language (e.map (·.predicate g)) :=
  Set.ext (recognizes_nfa _)

theorem accepted_alt (some : es ≠ []) : accepted g (alt es) = (es.map (accepted g)).sum := by
  obtain ⟨e, es, rfl⟩ := List.exists_cons_of_ne_nil some
  rw [accepted_eq, map, mapAll_eq, List.map_cons, language, languages_eq_map, ← List.map_cons,
    List.map_map]
  exact congrArg List.sum (List.map_congr_left fun _ _ => accepted_eq.symm)

theorem accepted_seq : accepted g (seq es) = (es.map (accepted g)).prod := by
  rw [accepted_eq, map, mapAll_eq, language, languages_eq_map, List.map_map]
  exact congrArg List.prod (List.map_congr_left fun _ _ => accepted_eq.symm)

theorem accepted_star : accepted g (star e) = (accepted g e)∗ := by
  rw [accepted_eq, accepted_eq, map, language]

/-- Texts of expressions that are put together with a bar, in parentheses side by side, or in parentheses
before a star are expressions again. They accept what one of both does, what they accept one after the
other, and what the one accepts any number of times. -/
theorem ofText_composes {s t : String} (left : ofText s = .ok e) (right : ofText t = .ok f) :
    ∃ union product rounds, ofText (s ++ "|" ++ t) = .ok union ∧
      ofText ("(" ++ s ++ ")(" ++ t ++ ")") = .ok product ∧
      ofText ("(" ++ s ++ ")*") = .ok rounds ∧
      ∀ g, accepted g union = accepted g e + accepted g f ∧
        accepted g product = accepted g e * accepted g f ∧ accepted g rounds = (accepted g e)∗ := by
  obtain ⟨es, rest, readLeft, endLeft, rfl⟩ := ofText_eq_ok_iff.mp left
  obtain ⟨fs, more, readRight, endRight, rfl⟩ := ofText_eq_ok_iff.mp right
  refine ⟨alt (es ++ fs), alt [seq [alt es, alt fs]], alt [seq [star (alt es)]], ?_, ?_, ?_,
    fun g => ⟨?_, ?_, ?_⟩⟩
  · have text : (s ++ "|" ++ t).toList = s.toList ++ '|' :: t.toList := by simp
    refine ofText_eq_ok_iff.mpr ⟨es ++ fs, more, ?_, endRight, rfl⟩
    rw [text]
    exact reads_alternatives_append (.inl rfl) readLeft (.barred endLeft readRight)
  · have text : ("(" ++ s ++ ")(" ++ t ++ ")").toList =
        '(' :: (s.toList ++ ')' :: '(' :: (t.toList ++ [')'])) := by simp
    have first : Starred (alt es) ('(' :: (t.toList ++ [')'])) (alt es) _ := .inr ⟨by simp, rfl, rfl⟩
    have second : Starred (alt fs) [] (alt fs) [] := .inr ⟨by simp, rfl, rfl⟩
    refine ofText_of_elements ?_
    rw [text]
    exact reads_elements_cons (reads_group readLeft endLeft first)
      (reads_elements_singleton (skipSpaces_cons (by decide) _)
        (reads_group readRight endRight second))
  · have text : ("(" ++ s ++ ")*").toList = '(' :: (s.toList ++ [')', '*']) := by simp
    have rounds : Starred (alt es) ['*'] (star (alt es)) [] := .inl ⟨rfl, rfl⟩
    refine ofText_of_elements ?_
    rw [text]
    exact reads_elements_singleton (skipSpaces_cons (by decide) _)
      (reads_group readLeft endLeft rounds)
  · rw [accepted_alt (by simp [ne_nil_of_reads_alternatives readLeft]),
      accepted_alt (ne_nil_of_reads_alternatives readLeft),
      accepted_alt (ne_nil_of_reads_alternatives readRight), List.map_append, List.sum_append]
  · simp [accepted_alt, accepted_seq]
  · simp [accepted_alt, accepted_seq, accepted_star]

theorem ofText_word {w : String} (word : IsWord w) (plain : w.toList.head? ≠ some '.') :
    ofText w = .ok (alt [seq [one (.node (.name w))]]) := by
  obtain ⟨c, cs, eq⟩ := List.exists_cons_of_ne_nil word.1
  have letter := word.2 c (eq ▸ List.mem_cons_self)
  have read := (Selector.item_word word (.inl rfl)).map Selector.optimize
  rw [List.append_nil] at read
  rw [eq] at plain
  have dot : '.' ≠ c := fun same => plain (congrArg some same.symm)
  have none : ellipsis? w.toList = none := by
    rw [eq, ellipsis?, eat?_eq_none dot]
    rfl
  have group : w.toList.head? ≠ some '(' := by
    rw [eq]
    rintro ⟨⟩
    exact Bool.false_ne_true
      ((Selector.isWordChar_eq_false_of_sign (by decide)).symm.trans letter)
  refine ofText_of_elements (reads_elements_singleton ?_ ?_)
  · rw [eq, Selector.skipSpaces_word letter]
  · exact (element_atom_reads_iff none group).mpr ⟨_, [], read, .inr ⟨by simp, rfl, rfl⟩⟩

theorem ofText_ellipsis : ofText "..." = .ok (alt [seq [star (one .any)]]) := by
  obtain ⟨r, found, left⟩ : ∃ r, ellipsis? "...".toList = some r ∧ r.chars = [] := ⟨_, rfl, rfl⟩
  refine ofText_of_elements (reads_elements_singleton rfl ?_)
  exact (element_ellipsis_reads_iff found).mpr ⟨rfl, left.symm⟩

end

theorem ofText_composes_a_ellipsis : ofText "a" = .ok (alt [seq [one (.node (.name "a"))]]) ∧
    ofText "..." = .ok (alt [seq [star (one .any)]]) ∧
      ∃ union product rounds, ofText "a|..." = .ok union ∧ ofText "(a)(...)" = .ok product ∧
        ofText "(a)*" = .ok rounds ∧
        ∀ g, accepted g rounds = (accepted g (alt [seq [one (.node (.name "a"))]]))∗ := by
  have left : ofText "a" = .ok (alt [seq [one (.node (.name "a"))]]) :=
    ofText_word (isWord_of_isLower (by decide) (by decide)) (by decide)
  obtain ⟨union, product, rounds, hu, hp, hr, all⟩ := ofText_composes left ofText_ellipsis
  exact ⟨left, ofText_ellipsis, union, product, rounds, hu, hp, hr, fun g => (all g).2.2⟩

end CallAtlas.PathExpr
