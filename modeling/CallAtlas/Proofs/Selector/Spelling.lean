import CallAtlas.Pattern.Engine
import CallAtlas.Proofs.Selector.Names
import CallAtlas.Proofs.Selector.Shape
/-!
Selectors written as texts, and read again. Every group comes back inside a choice of conjunctions, and a
shorter form takes these out again. Main statement: `ofText_text`.
-/
namespace CallAtlas

theorem Pattern.text_of_ofText [PatternEngine] {text : String} {p : Pattern} (h : Pattern.ofText text = .ok p) :
    p.text = text := by
  rw [Pattern.ofText] at h
  split at h
  · cases h
  · cases h
    rfl

namespace Selector

open Query

def escape (c : Char) : List Char := if c = '"' ∨ c = '\\' then ['\\', c] else [c]

variable {cs rest : List Char}

theorem reads_quoted_escape (cs rest : List Char) :
    (quoted (cs.flatMap escape ++ '"' :: rest)).Reads cs rest := by
  induction cs with
  | nil => exact .ok rfl
  | cons c cs ih =>
    rw [List.flatMap_cons, List.append_assoc, escape]
    by_cases special : c = '"' ∨ c = '\\'
    · rw [if_pos special]
      exact .weaken (.map (.after ih) _) _
    · obtain ⟨quote, slash⟩ := not_or.mp special
      rw [if_neg special, List.singleton_append, quoted_cons quote slash]
      exact .weaken (.map (.after ih) _) _

theorem reads_patternBody (h : ∀ c ∈ cs, c ≠ '/' ∧ c ≠ '\\') (rest : List Char) :
    (patternBody (cs ++ '/' :: rest)).Reads cs rest := by
  induction cs with
  | nil => exact .ok rfl
  | cons c cs ih =>
    obtain ⟨⟨slash, escape⟩, h⟩ := List.forall_mem_cons.mp h
    rw [List.cons_append, patternBody_cons slash escape]
    exact .weaken (.map (.after (ih h)) _) _

def AtMark (rest : List Char) : Prop := ∀ c ∈ rest.head?, c ∈ [',', '|', ']']

theorem AtMark.skipSpaces (h : AtMark rest) : (Query.skipSpaces rest).chars = rest := by
  cases rest with
  | nil => rfl
  | cons c cs =>
    have space : [',', '|', ']'].all (!Text.isSpace ·) = true := by decide
    have mark := List.all_eq_true.mp space c (h c rfl)
    rw [Bool.not_eq_true'] at mark
    exact skipSpaces_cons mark cs

theorem AtMark.closures (h : AtMark rest) : Selector.closures rest = ([], .all rest) := by
  refine closures_eq_nil fun colon => ?_
  rw [h.skipSpaces] at colon
  exact absurd (h ':' colon) (by decide)

theorem AtMark.closures_text (h : AtMark rest) (k : Closure) :
    (Selector.closures (k.text.toList ++ rest)).1 = [k] ∧
      (Selector.closures (k.text.toList ++ rest)).2.chars = rest := by
  have start : (Query.skipSpaces (k.text.toList ++ rest)).chars = k.text.toList ++ rest := by
    cases k <;> exact skipSpaces_cons (by decide) _
  obtain ⟨r, found, left⟩ : ∃ r, closure? (Query.skipSpaces (k.text.toList ++ rest)).chars =
      some (k, r) ∧ r.chars = rest := by
    rw [start]
    exact closure?_text k rest
  rw [← left] at h
  rw [Selector.closures, found]
  dsimp only
  rw [h.closures]
  exact ⟨rfl, left⟩

theorem atMark_cons {c : Char} (h : c ∈ [',', '|', ']']) (rest : List Char) : AtMark (c :: rest) := by
  rintro d ⟨⟩
  exact h

theorem atMark_bracket (rest : List Char) : AtMark (']' :: rest) := atMark_cons (by decide) rest

section

variable [PatternEngine]

mutual

def spell : Selector → List Char
  | name n => '"' :: (n.toList.flatMap escape ++ ['"'])
  | pattern p => '/' :: (p.text.toList ++ ['/'])
  | label l => '[' :: (l.toList ++ [']'])
  | both ss => '[' :: (spellAll ',' ss ++ [']'])
  | either ss => '[' :: (spellAll '|' ss ++ [']'])
  | not s => '!' :: '[' :: (spell s ++ [']'])
  | closure k s => '[' :: (spell s ++ ']' :: k.text.toList)

def spellAll (mark : Char) : List Selector → List Char
  | [] => []
  | [s] => spell s
  | s :: ss => spell s ++ mark :: spellAll mark ss

end

theorem spellAll_cons_cons (mark : Char) (s t : Selector) (ss : List Selector) :
    spellAll mark (s :: t :: ss) = spell s ++ mark :: spellAll mark (t :: ss) := by
  rw [spellAll]
  nofun

def text (s : Selector) : String := String.ofList (spell s)

mutual

/-- Whether a selector has a text: labels are words, patterns are valid and have neither slashes nor
backslashes, and there is something to choose from. -/
def Spellable : Selector → Prop
  | name _ => True
  | pattern p => Pattern.ofText p.text = .ok p ∧ ∀ c ∈ p.text.toList, c ≠ '/' ∧ c ≠ '\\'
  | label l => IsWord l
  | both ss => SpellableAll ss
  | either ss => ss ≠ [] ∧ SpellableAll ss
  | not s | closure _ s => Spellable s

def SpellableAll : List Selector → Prop
  | [] => True
  | s :: ss => Spellable s ∧ SpellableAll ss

end

mutual

/-- What is read from the text of a selector: each group is a choice of conjunctions. -/
def echo : Selector → Selector
  | name n => name n
  | pattern p => pattern p
  | label l => either [both [label l]]
  | both [] => either [both [both []]]
  | both (s :: ss) => either [both (echoAll (s :: ss))]
  | either ss => either ((echoAll ss).map fun s => both [s])
  | not s => not (either [both [echo s]])
  | closure k s => closure k (either [both [echo s]])

def echoAll : List Selector → List Selector
  | [] => []
  | s :: ss => echo s :: echoAll ss

end

theorem length_echoAll (ss : List Selector) : (echoAll ss).length = ss.length := by
  induction ss with
  | nil => rfl
  | cons s ss ih => rw [echoAll, List.length_cons, ih, List.length_cons]

mutual

theorem optimize_echo (s : Selector) : optimize (echo s) = optimize s := by
  match s with
  | name _ | pattern _ | label _ | both [] => rfl
  | both [s] => exact optimize_echo s
  | both (s :: t :: ss) =>
    have parts := map_optimize_echoAll (s :: t :: ss)
    rw [echo, optimize, optimize_both (by simp [echoAll]), optimize_both (by simp), parts]
  | either ss =>
    by_cases single : ss.length = 1
    · obtain ⟨s, rfl⟩ := List.length_eq_one_iff.mp single
      have part := map_optimize_echoAll [s]
      exact (List.cons.inj part).1
    · have parts := map_optimize_echoAll ss
      rw [echo, optimize_either (by simpa [length_echoAll] using single), optimize_either single,
        List.map_map, ← parts]
      rfl
  | not s => rw [echo, optimize, optimize, optimize, optimize, optimize_echo s]
  | closure k s => rw [echo, optimize, optimize, optimize, optimize, optimize_echo s]

theorem map_optimize_echoAll (ss : List Selector) : (echoAll ss).map optimize = ss.map optimize := by
  match ss with
  | [] => rfl
  | s :: ss => rw [echoAll, List.map_cons, List.map_cons, optimize_echo s, map_optimize_echoAll ss]

end

variable {s : Selector} {ss : List Selector}

theorem AtMark.item_reads (ends : AtMark rest) {inside : Bool} {c : Char} (space : Text.isSpace c = false)
    (plain : c ≠ '!') (read : (base inside (c :: cs)).Reads s rest) :
    (item inside (c :: cs)).Reads s rest := by
  have item := item_reads_of_base space plain read
  rwa [ends.closures] at item

theorem conjuncts_reads_last (read : (item true cs).Reads s rest) (ends : AtMark rest)
    (last : rest.head? ≠ some ',') : (conjuncts cs).Reads [s] rest := by
  refine conjuncts_reads_iff.mpr ⟨s, rest, read, ?_⟩
  rw [ends.skipSpaces]
  exact .inl ⟨last, rfl, rfl⟩

theorem alternatives_reads_last (read : (conjuncts cs).Reads ss rest) (ends : AtMark rest)
    (last : rest.head? ≠ some '|') : (alternatives cs).Reads [both ss] rest := by
  refine alternatives_reads_iff.mpr ⟨ss, rest, read, ?_⟩
  rw [ends.skipSpaces]
  exact .inl ⟨last, rfl, rfl⟩

theorem base_reads_both (inside : Bool) (read : (conjuncts cs).Reads ss (']' :: rest)) :
    (base inside ('[' :: cs)).Reads (either [both ss]) rest :=
  base_bracket_reads_iff.mpr
    ⟨[both ss], alternatives_reads_last read (atMark_bracket rest) (by simp), rfl⟩

theorem base_reads_group (inside : Bool) (read : (item true cs).Reads s (']' :: rest)) :
    (base inside ('[' :: cs)).Reads (either [both [s]]) rest :=
  base_reads_both inside (conjuncts_reads_last read (atMark_bracket rest) (by simp))

theorem item_reads_label {l : String} (h : IsWord l) (rest : List Char) :
    (item true (l.toList ++ ']' :: rest)).Reads (label l) (']' :: rest) := by
  obtain ⟨c, cs, eq⟩ := List.exists_cons_of_ne_nil h.1
  have letter : Text.isWordChar c = true := h.2 c (eq ▸ List.mem_cons_self)
  have mark := not_mem_marks_of_isWordChar letter
  have ends : ∀ d ∈ (']' :: rest).head?, Text.isWordChar d = false := by
    rintro d ⟨⟩
    exact isWordChar_eq_false_of_sign (by decide)
  obtain ⟨r, found, left⟩ := word?_word h ends
  have read : (base true (l.toList ++ ']' :: rest)).Reads (label l) (']' :: rest) := by
    rw [base_eq_bare_of_head, bare, found]
    · exact .ok left
    · rw [eq]
      rintro d ⟨⟩ opening
      exact mark (List.subset_def.mp (by decide) opening)
  rw [eq] at read ⊢
  exact (atMark_bracket rest).item_reads (isSpace_eq_false_of_isWordChar letter) (ne_bang mark) read

theorem item_reads_nothing (rest : List Char) :
    (item true (']' :: rest)).Reads (both []) (']' :: rest) := by
  have sign : Text.isWordChar ']' = false := isWordChar_eq_false_of_sign (by decide)
  have read : (base true (']' :: rest)).Reads (both []) (']' :: rest) := by
    rw [base_eq_bare_of_head, bare, word?_eq_none sign]
    · exact .ok rfl
    · rintro d ⟨⟩
      decide
  exact (atMark_bracket rest).item_reads (by decide) (by decide) read

mutual

/-- The text of a selector is an item wherever it stands, if a mark or nothing follows. -/
theorem item_reads_spell (inside : Bool) {rest : List Char} (ends : AtMark rest) {s : Selector}
    (h : s.Spellable) : (item inside (spell s ++ rest)).Reads (echo s) rest := by
  match s with
  | name n =>
    have read : (base inside ('"' :: (n.toList.flatMap escape ++ '"' :: rest))).Reads (name n) rest :=
      base_quote_reads_iff.mpr ⟨n.toList, reads_quoted_escape n.toList rest, by simp⟩
    rw [spell, List.cons_append, List.append_assoc]
    exact ends.item_reads (by decide) (by decide) read
  | pattern p =>
    obtain ⟨valid, plain⟩ := h
    have read : (base inside ('/' :: (p.text.toList ++ '/' :: rest))).Reads (pattern p) rest :=
      base_slash_reads_iff.mpr
        ⟨p.text.toList, p, reads_patternBody plain rest, by rwa [String.ofList_toList], rfl⟩
    rw [spell, List.cons_append, List.append_assoc]
    exact ends.item_reads (by decide) (by decide) read
  | label l =>
    rw [spell, List.cons_append, List.append_assoc]
    exact ends.item_reads (by decide) (by decide) (base_reads_group inside (item_reads_label h rest))
  | both [] =>
    exact ends.item_reads (by decide) (by decide) (base_reads_group inside (item_reads_nothing rest))
  | both (s :: ss) =>
    have inner := conjuncts_reads_spellAll (atMark_bracket rest) (by simp) h (List.cons_ne_nil s ss)
    rw [spell, List.cons_append, List.append_assoc]
    exact ends.item_reads (by decide) (by decide) (base_reads_both inside inner)
  | either ss =>
    have inner := alternatives_reads_spellAll rest h.2 h.1
    rw [spell, List.cons_append, List.append_assoc]
    exact ends.item_reads (by decide) (by decide) (base_bracket_reads_iff.mpr ⟨_, inner, rfl⟩)
  | not s =>
    -- the part stands in brackets of its own, so that what follows the group does not matter to it
    have inner := item_reads_spell true (atMark_bracket rest) (s := s) h
    have read := item_reads_of_bang (base_reads_group inside inner)
    rw [ends.closures] at read
    rw [spell, List.cons_append, List.cons_append, List.append_assoc]
    exact read
  | closure k s =>
    have inner := item_reads_spell true (atMark_bracket (k.text.toList ++ rest)) (s := s) h
    have read := item_reads_of_base (by decide) (by decide) (base_reads_group inside inner)
    obtain ⟨one, left⟩ := ends.closures_text k
    rw [one, left] at read
    rw [spell, List.cons_append, List.append_assoc]
    exact read

theorem conjuncts_reads_spellAll {rest : List Char} (ends : AtMark rest) (last : rest.head? ≠ some ',')
    {ss : List Selector} (h : SpellableAll ss) (some : ss ≠ []) :
    (conjuncts (spellAll ',' ss ++ rest)).Reads (echoAll ss) rest := by
  match ss with
  | [] => exact absurd rfl some
  | [s] => exact conjuncts_reads_last (item_reads_spell true ends h.1) ends last
  | s :: t :: ss =>
    have comma : AtMark (',' :: (spellAll ',' (t :: ss) ++ rest)) := atMark_cons (by decide) _
    have first := item_reads_spell true comma h.1
    have later := conjuncts_reads_spellAll ends last h.2 (List.cons_ne_nil t ss)
    rw [spellAll_cons_cons, List.append_assoc]
    exact conjuncts_reads_iff.mpr ⟨echo s, _, first, .inr ⟨_, _, comma.skipSpaces, later, rfl⟩⟩

theorem alternatives_reads_spellAll (rest : List Char) {ss : List Selector} (h : SpellableAll ss)
    (some : ss ≠ []) : (alternatives (spellAll '|' ss ++ ']' :: rest)).Reads
      ((echoAll ss).map fun s => both [s]) (']' :: rest) := by
  have ends := atMark_bracket rest
  match ss with
  | [] => exact absurd rfl some
  | [s] =>
    have first := conjuncts_reads_last (item_reads_spell true ends h.1) ends (by simp)
    exact alternatives_reads_last first ends (by simp)
  | s :: t :: ss =>
    have bar : AtMark ('|' :: (spellAll '|' (t :: ss) ++ ']' :: rest)) := atMark_cons (by decide) _
    have first := conjuncts_reads_last (item_reads_spell true bar h.1) bar (by simp)
    have later := alternatives_reads_spellAll rest h.2 (List.cons_ne_nil t ss)
    rw [spellAll_cons_cons, List.append_assoc]
    exact alternatives_reads_iff.mpr ⟨[echo s], _, first, .inr ⟨_, _, bar.skipSpaces, later, rfl⟩⟩

end

/-- A selector is read back from its text, in its shorter form. -/
theorem ofText_text {s : Selector} (h : s.Spellable) : ofText s.text = .ok (optimize s) := by
  have read : (topItem (spell s)).Reads (optimize s) [] := by
    have ends : AtMark [] := nofun
    have read := (item_reads_spell false ends h).map optimize
    rwa [List.append_nil, optimize_echo] at read
  have all : (items (spell s)).Reads [optimize s] [] :=
    items_reads_iff.mpr ⟨optimize s, [], read, .inl ⟨rfl, rfl, rfl⟩⟩
  have found : Query.run items s.text = .ok [optimize s] := by
    refine run_eq_ok_iff.mpr ⟨[], ?_⟩
    rwa [text, String.toList_ofList]
  rw [ofText, found]
  exact congrArg Except.ok (optimize_optimize s)

end

theorem ofText_text_nested : ∃ p, Pattern.ofText "io" = .ok p ∧
    ofText "[[\"a\\\"\",[read]]|![[/io/]:all_callers]|[]]" =
      .ok (either [both [name "a\"", label "read"], not (closure .allCallers (pattern p)), both []]) := by
  obtain ⟨p, known⟩ : ∃ p, Pattern.ofText "io" = .ok p := by
    have valid : (Pattern.ofText "io").isOk = true := by decide +kernel
    cases found : Pattern.ofText "io" with
    | error e => rw [found] at valid; cases valid
    | ok p => exact ⟨p, rfl⟩
  have same := Pattern.text_of_ofText known
  have word : IsWord "read" := isWord_of_isLower (by decide) (by decide)
  have plain : ∀ c ∈ "io".toList, c ≠ '/' ∧ c ≠ '\\' := by simp
  have read := ofText_text (s := either
    [both [name "a\"", label "read"], not (closure .allCallers (pattern p)), both []])
    ⟨nofun, ⟨trivial, word, trivial⟩, ⟨by rwa [same], by rwa [same]⟩, trivial, trivial⟩
  refine ⟨p, known, ?_⟩
  simp only [text, spell, spellAll, same] at read
  exact read

end Selector

end CallAtlas
