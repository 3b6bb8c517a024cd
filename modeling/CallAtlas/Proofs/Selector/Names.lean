import CallAtlas.Proofs.Selector.Reading
import CallAtlas.Selector.Words
import Mathlib.Data.List.TakeWhile
/-!
The names that a text can mention. Main statements: `mentioned_of_ofText`, the names in a selector are
shorter than its text, unless the text is a bare word, and `ofText_words`, bare words are names.
-/
namespace CallAtlas

/-- A name that can stand in a query as it is. -/
def IsWord (n : String) : Prop := n.toList ≠ [] ∧ ∀ c ∈ n.toList, Text.isWordChar c = true

theorem isWord_of_isLower {n : String} (h : n.toList ≠ [])
    (lower : n.toList.all Char.isLower = true) : IsWord n :=
  ⟨h, fun c hc => Text.isWordChar_of_isLower (List.all_eq_true.mp lower c hc)⟩

namespace Selector

open Query

/-- A name is shorter than what was taken for it, or it is a bare word and all that was taken. -/
def Fits (n : String) (cs rest : List Char) : Prop :=
  n.length + rest.length < cs.length ∨ IsWord n ∧ n.toList ++ rest = cs

variable {n w : String} {cs ds rest more : List Char}

theorem Fits.before (h : Fits n ds rest) (suffix : ds <:+ cs) : Fits n cs rest := by
  obtain ⟨taken, rfl⟩ := suffix
  cases taken with
  | nil => exact h
  | cons c taken =>
    left
    rcases h with h | ⟨-, rfl⟩
    · simp only [List.cons_append, List.length_cons, List.length_append]
      omega
    · simp only [List.cons_append, List.length_cons, List.length_append, String.length_toList]
      omega

theorem Fits.beyond (h : Fits n cs rest) (suffix : more <:+ rest) : Fits n cs more := by
  obtain ⟨taken, rfl⟩ := suffix
  cases taken with
  | nil => exact h
  | cons c taken =>
    left
    rcases h with h | ⟨-, rfl⟩
    · simp only [List.cons_append, List.length_cons, List.length_append] at h
      omega
    · simp only [List.cons_append, List.length_cons, List.length_append, String.length_toList]
      omega

theorem word?_spec {r : Rest 1 cs} (h : word? cs = some (n, r)) :
    IsWord n ∧ cs = n.toList ++ r.chars ∧ ∀ c ∈ r.chars.head?, Text.isWordChar c = false := by
  rw [word?] at h
  split at h
  · rename_i taken
    cases h
    have split := cs.takeWhile_append_dropWhile (p := Text.isWordChar)
    rw [IsWord, String.toList_ofList]
    refine ⟨⟨fun none => ?_, fun c hc => List.mem_takeWhile_imp hc⟩, split.symm, fun c first => ?_⟩
    · rw [none, List.nil_append] at split
      rw [split] at taken
      exact Nat.lt_irrefl _ taken
    · have ends := cs.head?_dropWhile_not Text.isWordChar
      rwa [first] at ends
  · cases h

theorem fits_of_word? {r : Rest 1 cs} (h : word? cs = some (n, r)) : Fits n cs r.chars := by
  obtain ⟨word, split, -⟩ := word?_spec h
  exact .inr ⟨word, split.symm⟩

theorem holds_quoted (cs : List Char) :
    (quoted cs).Holds fun body rest => body.length + rest.length < cs.length := by
  fun_induction quoted cs with
  | case1 => exact .error
  | case2 => exact .error
  | case3 cs => exact .ok (by simp [Rest.tail])
  | case4 c cs ih =>
    refine .weaken (.map (.after (ih.mono fun body r h => ?_))) _
    simp only [List.length_cons]
    omega
  | case5 c cs _ _ _ ih =>
    refine .weaken (.map (.after (ih.mono fun body r h => ?_))) _
    simp only [List.length_cons]
    omega

theorem outsideWords_spaces : Text.OutsideWords Text.spaces :=
  ⟨by decide +kernel, by decide +kernel, by decide⟩

theorem isSpace_eq_false_of_isWordChar {c : Char} (h : Text.isWordChar c = true) :
    Text.isSpace c = false :=
  outsideWords_spaces.contains_eq_false h

/-- The signs of ASCII that stand in no word: all but the low line and the full stop. -/
def signs : Text.Ranges :=
  [(0x21, 0x2d), (0x2f, 0x2f), (0x3a, 0x40), (0x5b, 0x5e), (0x60, 0x60), (0x7b, 0x7e)]

theorem outsideWords_signs : Text.OutsideWords signs :=
  ⟨by decide +kernel, by decide +kernel, by decide⟩

theorem isWordChar_eq_false_of_sign {c : Char} (h : signs.contains c = true) :
    Text.isWordChar c = false := by
  rw [Bool.eq_false_iff]
  intro word
  exact Bool.false_ne_true ((outsideWords_signs.contains_eq_false word).symm.trans h)

/-- The characters that begin an item or a closure and stand in no word. -/
def marks : List Char := ['"', '/', '[', '!', ':']

theorem not_mem_marks_of_isWordChar {c : Char} (h : Text.isWordChar c = true) : c ∉ marks := by
  have all : marks.all signs.contains = true := by decide
  intro mark
  have sign := List.all_eq_true.mp all c mark
  exact Bool.false_ne_true ((isWordChar_eq_false_of_sign sign).symm.trans h)

def Gap (rest : List Char) : Prop :=
  rest = [] ∨ ∃ c cs, rest = ' ' :: c :: cs ∧ Text.isWordChar c = true

theorem Gap.head?_not_word (h : Gap rest) : ∀ c ∈ rest.head?, Text.isWordChar c = false := by
  rcases h with rfl | ⟨c, cs, rfl, -⟩
  · nofun
  · rintro c ⟨⟩
    rw [Bool.eq_false_iff]
    intro word
    exact absurd (isSpace_eq_false_of_isWordChar word) (by decide)

theorem skipSpaces_word {c : Char} (h : Text.isWordChar c = true) (cs : List Char) :
    (skipSpaces (c :: cs)).chars = c :: cs :=
  skipSpaces_cons (isSpace_eq_false_of_isWordChar h) cs

theorem closures_gap (h : Gap rest) : closures rest = ([], .all rest) := by
  refine closures_eq_nil ?_
  rcases h with rfl | ⟨c, cs, rfl, word⟩
  · nofun
  · have spaces : (skipSpaces (' ' :: c :: cs)).chars = c :: cs := skipSpaces_word word cs
    rw [spaces]
    rintro ⟨⟩
    exact not_mem_marks_of_isWordChar word (by decide)

theorem ne_bang {c : Char} (mark : c ∉ marks) : c ≠ '!' := by
  rintro rfl
  exact mark (by decide)

theorem word?_word (h : IsWord w) (ends : ∀ c ∈ rest.head?, Text.isWordChar c = false) :
    ∃ r, word? (w.toList ++ rest) = some (w, r) ∧ r.chars = rest := by
  have stops : rest.takeWhile Text.isWordChar = [] ∧ rest.dropWhile Text.isWordChar = rest := by
    cases rest with
    | nil => exact ⟨rfl, rfl⟩
    | cons c cs =>
      rw [List.takeWhile_cons, List.dropWhile_cons, ends c rfl]
      exact ⟨rfl, rfl⟩
  have taken : (w.toList ++ rest).takeWhile Text.isWordChar = w.toList := by
    rw [List.takeWhile_append_of_pos h.2, stops.1, List.append_nil]
  have left : (w.toList ++ rest).dropWhile Text.isWordChar = rest := by
    rw [List.dropWhile_append_of_pos h.2, stops.2]
  have shorter :
      ((w.toList ++ rest).dropWhile Text.isWordChar).length < (w.toList ++ rest).length := by
    have := List.length_pos_iff.mpr h.1
    rw [left, List.length_append]
    omega
  rw [word?, dif_pos shorter, taken, String.ofList_toList]
  exact ⟨_, rfl, left⟩

theorem exists_cons_intercalate (h : IsWord w) (ws : List String) :
    ∃ c cs, [' '].intercalate ((w :: ws).map String.toList) = c :: cs ∧
      Text.isWordChar c = true := by
  obtain ⟨c, cs, eq⟩ := List.exists_cons_of_ne_nil h.1
  have letter := h.2 c (eq ▸ List.mem_cons_self)
  cases ws with
  | nil =>
    rw [List.map_singleton, List.intercalate_singleton]
    exact ⟨c, cs, eq, letter⟩
  | cons v ws =>
    rw [List.map_cons, List.map_cons, List.intercalate_cons_cons, eq]
    exact ⟨c, _, rfl, letter⟩

variable [PatternEngine]

mutual

def mentioned : Selector → List String
  | name n => [n]
  | pattern _ | label _ => []
  | both ss | either ss => mentionedAll ss
  | not s | closure _ s => mentioned s

def mentionedAll : List Selector → List String
  | [] => []
  | s :: ss => mentioned s ++ mentionedAll ss

end

theorem mentioned_negate (s : Selector) : s.negate.mentioned = s.mentioned := by
  cases s <;> rfl

mutual

theorem mentioned_optimize (s : Selector) : s.optimize.mentioned = s.mentioned := by
  match s with
  | name _ | pattern _ | label _ | both [] | either [] => rfl
  | both [s] | either [s] =>
    rw [optimize, mentioned_optimize s, mentioned, mentionedAll, mentionedAll, List.append_nil]
  | both (s :: t :: ss) =>
    rw [optimize, mentioned, mentionedAll_optimizeAll, mentioned]
    nofun
  | either (s :: t :: ss) =>
    rw [optimize, mentioned, mentionedAll_optimizeAll, mentioned]
    nofun
  | not s => rw [optimize, mentioned_negate, mentioned_optimize s, mentioned]
  | closure k s => rw [optimize, mentioned, mentioned_optimize s, mentioned]

theorem mentionedAll_optimizeAll (ss : List Selector) :
    mentionedAll (optimizeAll ss) = mentionedAll ss := by
  match ss with
  | [] => rfl
  | s :: ss =>
    rw [optimizeAll, mentionedAll, mentioned_optimize s, mentionedAll_optimizeAll ss, mentionedAll]

end

theorem mentioned_close (s : Selector) (ks : List Closure) : (s.close ks).mentioned = s.mentioned := by
  rw [close]
  induction ks generalizing s with
  | nil => rfl
  | cons k ks ih => exact ih (closure k s)

theorem mem_mentioned_of_names? {s : Selector} {ns : List String} (h : s.names? = some ns) :
    ∀ n ∈ ns, n ∈ s.mentioned := by
  cases s with
  | name m =>
    cases h
    exact fun n hn => hn
  | either ss =>
    have listed : ∀ {ss : List Selector} {ns}, ss.mapM name? = some ns → ns = mentionedAll ss := by
      intro ss
      induction ss with
      | nil =>
        rintro ns ⟨⟩
        rfl
      | cons s ss ih =>
        intro ns h
        rw [List.mapM_cons] at h
        simp only [Option.bind_eq_bind, Option.bind_eq_some_iff] at h
        obtain ⟨n, hn, ms, hms, ⟨⟩⟩ := h
        cases s <;> cases hn
        rw [mentionedAll, mentioned, ih hms]
        rfl
    rw [listed h]
    exact fun n hn => hn
  | _ => cases h

def AllFit (cs : List Char) (s : Selector) (rest : List Char) : Prop :=
  ∀ n ∈ s.mentioned, Fits n cs rest

def ListFits (cs : List Char) (ss : List Selector) (rest : List Char) : Prop :=
  ∀ n ∈ mentionedAll ss, Fits n cs rest

theorem holds_bare (inside : Bool) (cs : List Char) : (bare inside cs).Holds (AllFit cs) := by
  cases inside with
  | false =>
    rw [bare]
    split
    · rename_i m r found
      refine .ok fun n hn => ?_
      rw [List.mem_singleton.mp hn]
      exact fits_of_word? found
    · exact .expected
  | true =>
    rw [bare]
    split <;> exact .ok nofun

mutual

theorem holds_base (inside : Bool) (cs : List Char) : (base inside cs).Holds (AllFit cs) := by
  rw [base.eq_def]
  split
  · rename_i cs
    refine .weaken (.map (.after ((holds_quoted cs).mono fun body r h n hn => .inl ?_))) _
    rw [List.mem_singleton.mp hn, String.length_ofList, List.length_cons]
    omega
  · rename_i cs
    have read : (slashed cs).Holds (AllFit ('/' :: cs)) := by
      unfold slashed
      split
      · exact .error
      · split
        · exact .error
        · exact .ok nofun
    exact .weaken (.after read) _
  · rename_i cs
    have body : ((alternatives cs).map fun ss => either ss).Holds (AllFit cs) :=
      .map (holds_alternatives cs)
    refine .weaken (.after (P := AllFit ('[' :: cs)) (.weaken (body.andThen fun s r h => ?_) _)) _
    split
    · rename_i rest _
      exact .ok fun n hn => ((h n hn).beyond rest.suffix).before (List.suffix_cons _ _)
    · exact .expected
  · exact holds_bare inside cs
termination_by (cs.length, 0)

theorem holds_item (inside : Bool) (cs : List Char) : (item inside cs).Holds (AllFit cs) := by
  rw [item_eq]
  refine .weaken (.after (.weaken
    ((holds_base inside (negation cs).2.chars).andThen fun s r h => .ok fun n hn => ?_) _)) _
  rw [mentioned_close] at hn
  have inner : n ∈ s.mentioned := by
    split at hn <;> exact hn
  exact ((h n inner).beyond (closures r.chars).2.suffix).before (negation cs).2.suffix
termination_by (cs.length, 1)
decreasing_by
  have := (negation cs).2.length_le
  by_cases h : (negation cs).2.chars.length = cs.length
  · rw [h]
    exact Prod.Lex.right _ (by decide)
  · exact Prod.Lex.left _ _ (by omega)

theorem holds_conjuncts (cs : List Char) : (conjuncts cs).Holds (ListFits cs) := by
  rw [conjuncts]
  refine (holds_item true cs).andThen fun s r h => ?_
  have spaces := (skipSpaces r.chars).suffix
  dsimp only
  split
  · refine .ok fun n hn => ?_
    rw [mentionedAll, mentionedAll, List.append_nil] at hn
    exact (h n hn).beyond spaces
  · rename_i comma _
    have shorter : comma.chars.length < cs.length := Nat.lt_of_lt_of_le comma.length_lt
      (Nat.le_trans (skipSpaces r.chars).length_le r.length_le)
    refine .weaken (.map (.after ?_)) _
    refine (holds_conjuncts comma.chars).mono fun ss rest later n hn => ?_
    rcases List.mem_append.mp hn with hn | hn
    · exact (h n hn).beyond ((rest.suffix.trans comma.suffix).trans spaces)
    · exact (later n hn).before ((comma.suffix.trans spaces).trans r.suffix)
termination_by (cs.length, 2)
decreasing_by
  · exact Prod.Lex.right _ (by decide)
  · exact Prod.Lex.left _ _ shorter

theorem holds_alternatives (cs : List Char) : (alternatives cs).Holds (ListFits cs) := by
  rw [alternatives]
  refine (holds_conjuncts cs).andThen fun ss r h => ?_
  have spaces := (skipSpaces r.chars).suffix
  dsimp only
  split
  · refine .ok fun n hn => ?_
    rw [mentionedAll, mentionedAll, List.append_nil] at hn
    exact (h n hn).beyond spaces
  · rename_i bar _
    have shorter : bar.chars.length < cs.length := Nat.lt_of_lt_of_le bar.length_lt
      (Nat.le_trans (skipSpaces r.chars).length_le r.length_le)
    refine .weaken (.map (.after ?_)) _
    refine (holds_alternatives bar.chars).mono fun ts rest later n hn => ?_
    rcases List.mem_append.mp hn with hn | hn
    · exact (h n hn).beyond ((rest.suffix.trans bar.suffix).trans spaces)
    · exact (later n hn).before ((bar.suffix.trans spaces).trans r.suffix)
termination_by (cs.length, 3)
decreasing_by
  · exact Prod.Lex.right _ (by decide)
  · exact Prod.Lex.left _ _ shorter

end

theorem holds_items (cs : List Char) : (items cs).Holds fun ss rest => rest = [] ∧ ListFits cs ss rest := by
  rw [items]
  have top : (topItem cs).Holds (AllFit cs) := by
    refine .map ((holds_item false cs).mono fun s r h n hn => ?_)
    rw [mentioned_optimize] at hn
    exact h n hn
  refine top.andThen fun s r h => ?_
  have spaces := (skipSpaces r.chars).suffix
  dsimp only
  split
  · rename_i none
    refine .ok ⟨none, fun n hn => ?_⟩
    rw [mentionedAll, mentionedAll, List.append_nil] at hn
    exact (h n hn).beyond spaces
  · refine .weaken (.map (.after ?_)) _
    refine (holds_items (skipSpaces r.chars).chars).mono fun ss rest later =>
      ⟨later.1, fun n hn => ?_⟩
    rcases List.mem_append.mp hn with hn | hn
    · exact (h n hn).beyond (rest.suffix.trans spaces)
    · exact (later.2 n hn).before (spaces.trans r.suffix)
termination_by cs.length
decreasing_by
  have := r.length_lt
  have := (skipSpaces r.chars).length_le
  omega

/-- The names in a selector are shorter than its text, unless the text is a name itself. -/
theorem mentioned_of_ofText {text : String} {s : Selector} (h : ofText text = .ok s) :
    ∀ n ∈ s.mentioned, n.length < text.length ∨ IsWord text := by
  rw [ofText, Query.run] at h
  cases read : items text.toList with
  | error e =>
    rw [read] at h
    cases h
  | ok result =>
    obtain ⟨ss, r⟩ := result
    rw [read] at h
    cases h
    obtain ⟨ended, fits⟩ := holds_items text.toList ss r read
    intro n hn
    rw [mentioned_optimize] at hn
    rcases fits n hn with shorter | ⟨word, eq⟩
    · left
      rw [String.length_toList] at shorter
      omega
    · right
      rw [ended, List.append_nil] at eq
      rwa [← String.toList_injective eq]

theorem base_eq_bare (h : ∀ c ∈ cs.head?, c ∉ marks) : base false cs = bare false cs :=
  base_eq_bare_of_head fun c hc opening => h c hc (List.subset_def.mp (by decide) opening)

theorem ofText_refused {text : String} {c : Char} (h : text.toList = c :: cs)
    (space : Text.isSpace c = false) (mark : c ∉ marks) (word : Text.isWordChar c = false) :
    ∃ e, ofText text = .error e := by
  obtain ⟨-, start⟩ := negation_eq_false space (ne_bang mark) cs
  have read : ∃ e, base false (negation text.toList).2.chars = .error e := by
    rw [h, start, base_eq_bare (by rintro d ⟨⟩; exact mark), bare, word?_eq_none word]
    exact ⟨_, rfl⟩
  obtain ⟨e, read⟩ := read
  exact ofText_of_base_error read

theorem bare_word (h : IsWord w) (gap : Gap rest) :
    (bare false (w.toList ++ rest)).Reads (name w) rest := by
  obtain ⟨r, found, left⟩ := word?_word h gap.head?_not_word
  rw [bare, found]
  exact .ok left

theorem item_word (h : IsWord w) (gap : Gap rest) :
    (item false (w.toList ++ rest)).Reads (name w) rest := by
  obtain ⟨c, cs, eq⟩ := List.exists_cons_of_ne_nil h.1
  have letter : Text.isWordChar c = true := h.2 c (eq ▸ List.mem_cons_self)
  have mark := not_mem_marks_of_isWordChar letter
  have read : (base false (w.toList ++ rest)).Reads (name w) rest := by
    rw [base_eq_bare (by rw [eq]; rintro d ⟨⟩; exact mark)]
    exact bare_word h gap
  rw [eq] at read ⊢
  have item := item_reads_of_base (isSpace_eq_false_of_isWordChar letter) (ne_bang mark) read
  rwa [closures_gap gap] at item

theorem items_words {ws : List String} (h : ∀ v ∈ w :: ws, IsWord v) :
    (items ([' '].intercalate ((w :: ws).map String.toList))).Reads ((w :: ws).map name) [] := by
  induction ws generalizing w with
  | nil =>
    have read := (item_word (List.forall_mem_singleton.mp h) (.inl rfl)).map optimize
    rw [List.append_nil] at read
    rw [List.map_singleton, List.intercalate_singleton, items]
    refine read.andThen fun r left => ?_
    have spaces : (skipSpaces r.chars).chars = [] := by
      rw [left]
      rfl
    dsimp only
    split
    · exact .ok spaces
    · rename_i some
      exact absurd spaces some
  | cons v ws ih =>
    obtain ⟨first, others⟩ := List.forall_mem_cons.mp h
    have later := ih others
    obtain ⟨c, cs, tail, word⟩ := exists_cons_intercalate (others v List.mem_cons_self) ws
    have read := (item_word first (.inr ⟨c, cs, rfl, word⟩)).map optimize
    rw [List.map_cons] at tail
    rw [List.map_cons, List.map_cons, List.intercalate_cons_cons, tail, List.append_assoc, items]
    refine read.andThen fun r left => ?_
    have spaces : (skipSpaces r.chars).chars = c :: cs := by
      rw [left]
      exact skipSpaces_word word cs
    dsimp only
    split
    · rename_i none
      rw [spaces] at none
      cases none
    · refine .weaken (.map (.after ?_) _) _
      rw [spaces, ← tail]
      exact later

theorem ofText_words {ws : List String} (some : ws ≠ []) (h : ∀ w ∈ ws, IsWord w) :
    ofText (" ".intercalate ws) = .ok (optimize (either (ws.map name))) := by
  obtain ⟨w, ws, rfl⟩ := List.exists_cons_of_ne_nil some
  have chars : (" ".intercalate (w :: ws)).toList = [' '].intercalate ((w :: ws).map String.toList) :=
    String.toList_intercalate
  have read := items_words h
  rw [← chars] at read
  obtain ⟨r, read, -⟩ := read
  rw [ofText, Query.run, read]
  rfl

theorem ofText_of_isWord {text : String} (h : IsWord text) : ofText text = .ok (name text) := by
  have read := ofText_words (List.cons_ne_nil text []) (List.forall_mem_singleton.mpr h)
  rwa [String.intercalate_singleton] at read

end Selector

end CallAtlas
