import CallAtlas.Proofs.Selector.Names
/-!
The grammar of selectors. Items stand side by side; each is a word, a quoted name, a pattern or a group,
maybe with an exclamation mark before it and closures after it. The readers of bodies, words and closures
are known here; `Derivation` puts items together.
-/
namespace CallAtlas.Selector

open Query

def Blank (cs : List Char) : Prop := ∀ c ∈ cs, Text.isSpace c = true

/-- What a text before a closing mark stands for. A backslash takes the next character, even the mark;
together they stand for `taken`. -/
inductive Body (mark : Char) (taken : Char → List Char) : List Char → List Char → Prop where
  | nil : Body mark taken [] []
  | char {c : Char} {body cs : List Char} (other : c ≠ mark) (plain : c ≠ '\\')
      (rest : Body mark taken body cs) : Body mark taken (c :: body) (c :: cs)
  | escaped {c : Char} {body cs : List Char} (rest : Body mark taken body cs) :
      Body mark taken (taken c ++ body) ('\\' :: c :: cs)

/-- In a quoted name an escaped character stands for itself. -/
abbrev IsQuoted : List Char → List Char → Prop := Body '"' fun c => [c]

/-- In a pattern only an escaped slash loses its backslash. -/
abbrev IsPatternBody : List Char → List Char → Prop :=
  Body '/' fun c => if c = '/' then [c] else ['\\', c]

inductive AreClosures : List Closure → List Char → Prop where
  | nil : AreClosures [] []
  | cons {k : Closure} {ks : List Closure} {before cs : List Char} (blank : Blank before)
      (rest : AreClosures ks cs) : AreClosures (k :: ks) (before ++ (k.text.toList ++ cs))

variable {c d : Char} {cs ds rest before body : List Char} {ks : List Closure}

theorem exists_blank (cs : List Char) : ∃ before, Blank before ∧ cs = before ++ (skipSpaces cs).chars :=
  ⟨cs.takeWhile Text.isSpace, fun _ hc => List.mem_takeWhile_imp hc,
    List.takeWhile_append_dropWhile.symm⟩

theorem Blank.skipSpaces_append (h : Blank before) (cs : List Char) :
    (skipSpaces (before ++ cs)).chars = (skipSpaces cs).chars :=
  List.dropWhile_append_of_pos h

theorem Blank.nil : Blank [] := nofun

theorem Blank.append (h : Blank cs) (h' : Blank ds) : Blank (cs ++ ds) :=
  List.forall_mem_append.mpr ⟨h, h'⟩

theorem Blank.head?_not_word (h : Blank before) : ∀ c ∈ before.head?, Text.isWordChar c = false := by
  intro c first
  rw [Bool.eq_false_iff]
  intro word
  have space := h c (List.mem_of_mem_head? first)
  exact Bool.false_ne_true ((isSpace_eq_false_of_isWordChar word).symm.trans space)

theorem Blank.append_not_word (h : Blank before) (word : ∀ c ∈ rest.head?, Text.isWordChar c = false) :
    ∀ c ∈ (before ++ rest).head?, Text.isWordChar c = false := by
  cases before with
  | nil => exact word
  | cons c before => exact h.head?_not_word

theorem Blank.append_head?_ne (h : Blank before) (space : Text.isSpace c = false)
    (other : rest.head? ≠ some c) : (before ++ rest).head? ≠ some c := by
  cases before with
  | nil => exact other
  | cons d before =>
    rintro ⟨⟩
    exact Bool.false_ne_true (space.symm.trans (h c List.mem_cons_self))

def Starts (c : Char) : Prop := Text.isWordChar c = true ∨ c ∈ ['"', '/', '[', '!']

theorem Starts.not_space (h : Starts c) : Text.isSpace c = false := by
  rcases h with word | mark
  · exact isSpace_eq_false_of_isWordChar word
  · have all : ['"', '/', '[', '!'].all (!Text.isSpace ·) = true := by decide
    exact Bool.not_eq_true' _ ▸ List.all_eq_true.mp all c mark

theorem Starts.ne (h : Starts c) (sign : signs.contains d = true) (other : d ∉ ['"', '/', '[', '!']) :
    c ≠ d := by
  rintro rfl
  rcases h with word | mark
  · exact Bool.false_ne_true ((isWordChar_eq_false_of_sign sign).symm.trans word)
  · exact other mark

/-- A character that stands after an item inside brackets, and neither begins an item nor belongs to a
word. -/
def Ends (c : Char) : Prop := Text.isSpace c = true ∨ c ∈ [':', ',', '|', ']']

theorem Ends.not_word (h : Ends c) : Text.isWordChar c = false := by
  rcases h with space | mark
  · exact Blank.head?_not_word (List.forall_mem_singleton.mpr space) c rfl
  · have all : [':', ',', '|', ']'].all signs.contains = true := by decide
    exact isWordChar_eq_false_of_sign (List.all_eq_true.mp all c mark)

theorem Ends.not_opening (h : Ends c) : c ∉ ['"', '/', '[', '!'] := by
  intro opening
  rcases h with space | mark
  · exact Bool.false_ne_true ((Starts.not_space (.inr opening)).symm.trans space)
  · have all : [':', ',', '|', ']'].all (· ∉ ['"', '/', '[', '!']) = true := by decide
    exact of_decide_eq_true (List.all_eq_true.mp all c mark) opening

theorem ends_of_skipSpaces (h : ∀ c ∈ (skipSpaces cs).chars.head?, Ends c) : ∀ c ∈ cs.head?, Ends c := by
  cases cs with
  | nil => nofun
  | cons c cs =>
    rintro d ⟨⟩
    cases space : Text.isSpace c with
    | true => exact .inl space
    | false =>
      rw [skipSpaces_cons space] at h
      exact h c rfl

/-- What a reader of a body and of its closing mark reads, depending on the character that comes first. -/
structure ReadsBody (mark : Char) (taken : Char → List Char)
    (read : (cs : List Char) → Outcome (List Char) 1 cs) : Prop where
  nil {body rest : List Char} : ¬ (read []).Reads body rest
  lone {body rest : List Char} : ¬ (read ['\\']).Reads body rest
  closing {cs body rest : List Char} : (read (mark :: cs)).Reads body rest ↔ body = [] ∧ rest = cs
  escaped {c : Char} {cs body rest : List Char} : (read ('\\' :: c :: cs)).Reads body rest ↔
    ∃ more, (read cs).Reads more rest ∧ body = taken c ++ more
  char {c : Char} {cs body rest : List Char} (other : c ≠ mark) (plain : c ≠ '\\') :
    (read (c :: cs)).Reads body rest ↔ ∃ more, (read cs).Reads more rest ∧ body = c :: more

section Bodies

variable {mark : Char} {taken : Char → List Char}
  {read : (cs : List Char) → Outcome (List Char) 1 cs}

theorem ReadsBody.complete (h : ReadsBody mark taken read) (whole : Body mark taken body cs) :
    (read (cs ++ mark :: rest)).Reads body rest := by
  induction whole with
  | nil => exact h.closing.mpr ⟨rfl, rfl⟩
  | char other plain _ ih => exact (h.char other plain).mpr ⟨_, ih, rfl⟩
  | escaped _ ih => exact h.escaped.mpr ⟨_, ih, rfl⟩

theorem ReadsBody.sound (h : ReadsBody mark taken read) {cs body : List Char}
    (found : (read cs).Reads body rest) :
    ∃ text, cs = text ++ mark :: rest ∧ Body mark taken body text := by
  match cs with
  | [] => exact absurd found h.nil
  | c :: cs =>
    by_cases closing : c = mark
    · subst closing
      obtain ⟨rfl, rfl⟩ := h.closing.mp found
      exact ⟨[], rfl, .nil⟩
    by_cases escape : c = '\\'
    · subst escape
      match cs with
      | [] => exact absurd found h.lone
      | d :: cs =>
        obtain ⟨more, inner, rfl⟩ := h.escaped.mp found
        obtain ⟨text, rfl, body⟩ := h.sound inner
        exact ⟨'\\' :: d :: text, rfl, .escaped body⟩
    · obtain ⟨more, inner, rfl⟩ := (h.char closing escape).mp found
      obtain ⟨text, rfl, body⟩ := h.sound inner
      exact ⟨c :: text, rfl, .char closing escape body⟩

theorem ReadsBody.append (h : ReadsBody mark taken read) (found : (read cs).Reads body rest)
    (ds : List Char) : (read (cs ++ ds)).Reads body (rest ++ ds) := by
  obtain ⟨text, rfl, whole⟩ := h.sound found
  rw [List.append_assoc, List.cons_append]
  exact h.complete whole

end Bodies

theorem readsBody_quoted : ReadsBody '"' (fun c => [c]) quoted where
  nil := Outcome.not_reads_error
  lone := Outcome.not_reads_error
  closing := Outcome.reads_ok_iff
  escaped := by
    intro c cs body rest
    rw [quoted, Outcome.reads_weaken_iff, Outcome.reads_map_iff]
    exact exists_congr fun more => and_congr_left fun _ => Outcome.reads_after_iff
  char := by
    intro c cs body rest other plain
    rw [quoted_cons other plain, Outcome.reads_weaken_iff, Outcome.reads_map_iff]
    exact exists_congr fun more => and_congr_left fun _ => Outcome.reads_after_tail_iff

theorem readsBody_patternBody :
    ReadsBody '/' (fun c => if c = '/' then [c] else ['\\', c]) patternBody where
  nil := Outcome.not_reads_error
  lone := Outcome.not_reads_error
  closing := Outcome.reads_ok_iff
  escaped := by
    intro c cs body rest
    have joined (more : List Char) : (if c = '/' then c :: more else '\\' :: c :: more) =
        (if c = '/' then [c] else ['\\', c]) ++ more := by
      split <;> rfl
    rw [patternBody, Outcome.reads_weaken_iff, Outcome.reads_map_iff]
    refine exists_congr fun more => ?_
    rw [joined]
    exact and_congr_left fun _ => Outcome.reads_after_iff
  char := by
    intro c cs body rest other plain
    rw [patternBody_cons other plain, Outcome.reads_weaken_iff, Outcome.reads_map_iff]
    exact exists_congr fun more => and_congr_left fun _ => Outcome.reads_after_tail_iff

theorem head?_not_word (h : word? cs = none) : ∀ c ∈ cs.head?, Text.isWordChar c = false := by
  rintro c first
  obtain ⟨cs, rfl⟩ := List.head?_eq_some_iff.mp first
  rw [word?] at h
  split at h
  · cases h
  · rename_i taken
    rw [Bool.eq_false_iff]
    intro word
    rw [List.dropWhile_cons, if_pos word] at taken
    exact taken (Nat.lt_succ_of_le (List.dropWhile_suffix _).length_le)

theorem closure?_spec {k : Closure} {r : Rest 1 cs} (h : closure? cs = some (k, r)) :
    cs = k.text.toList ++ r.chars := by
  obtain ⟨j, -, found⟩ := List.exists_of_findSome?_eq_some h
  obtain ⟨eaten, ate, eq⟩ := Option.map_eq_some_iff.mp found
  obtain ⟨rfl, rfl⟩ := Prod.mk.inj eq
  exact eq_append_of_eat? ate

theorem closures_none (h : closure? (skipSpaces cs).chars = none) : closures cs = ([], .all cs) := by
  rw [closures, h]

theorem closures_some {k : Closure} {r : Rest 1 (skipSpaces cs).chars}
    (h : closure? (skipSpaces cs).chars = some (k, r)) :
    (closures cs).1 = k :: (closures r.chars).1 ∧
      (closures cs).2.chars = (closures r.chars).2.chars := by
  rw [closures, h]
  exact ⟨rfl, rfl⟩

theorem closures_spec (cs : List Char) : ∃ text, cs = text ++ (closures cs).2.chars ∧
    AreClosures (closures cs).1 text ∧ closure? (skipSpaces (closures cs).2.chars).chars = none := by
  obtain ⟨before, blank, eq⟩ := exists_blank cs
  cases found : closure? (skipSpaces cs).chars with
  | none =>
    rw [closures_none found]
    exact ⟨[], rfl, .nil, found⟩
  | some result =>
    obtain ⟨k, r⟩ := result
    have shorter : r.chars.length < cs.length :=
      Nat.lt_of_lt_of_le r.length_lt (skipSpaces cs).length_le
    obtain ⟨text, split, rest, last⟩ := closures_spec r.chars
    obtain ⟨ks, left⟩ := closures_some found
    rw [ks, left]
    refine ⟨before ++ (k.text.toList ++ text), ?_, .cons blank rest, last⟩
    rw [List.append_assoc, List.append_assoc, ← split, ← closure?_spec found]
    exact eq
termination_by cs.length

theorem AreClosures.closures_append (h : AreClosures ks cs)
    (last : closure? (skipSpaces rest).chars = none) :
    (closures (cs ++ rest)).1 = ks ∧ (closures (cs ++ rest)).2.chars = rest := by
  induction h with
  | nil =>
    rw [List.nil_append, closures_none last]
    exact ⟨rfl, rfl⟩
  | @cons k ks before cs blank _ ih =>
    have start : (skipSpaces (before ++ (k.text.toList ++ cs) ++ rest)).chars =
        k.text.toList ++ (cs ++ rest) := by
      rw [List.append_assoc, List.append_assoc, blank.skipSpaces_append]
      cases k <;> exact skipSpaces_cons (by decide) _
    obtain ⟨r, found, left⟩ : ∃ r, closure? (skipSpaces (before ++ (k.text.toList ++ cs) ++ rest)).chars =
        some (k, r) ∧ r.chars = cs ++ rest := by
      rw [start]
      exact closure?_text k (cs ++ rest)
    obtain ⟨all, after⟩ := closures_some found
    rw [all, after, left, ih.1]
    exact ⟨rfl, ih.2⟩

theorem closures_skipSpaces (cs : List Char) :
    (closures (skipSpaces cs).chars).1 = (closures cs).1 ∧
      (skipSpaces (closures (skipSpaces cs).chars).2.chars).chars =
        (skipSpaces (closures cs).2.chars).chars := by
  have again := skipSpaces_skipSpaces cs
  cases found : closure? (skipSpaces cs).chars with
  | none =>
    rw [closures_none found, closures_none (by rw [again]; exact found)]
    exact ⟨rfl, again⟩
  | some result =>
    obtain ⟨r', found', left⟩ : ∃ r',
        closure? (skipSpaces (skipSpaces cs).chars).chars = some (result.1, r') ∧
          r'.chars = result.2.chars := by
      rw [again]
      exact ⟨result.2, found, rfl⟩
    rw [(closures_some found).1, (closures_some found).2, (closures_some found').1,
      (closures_some found').2, left]
    exact ⟨rfl, rfl⟩

theorem negation_spec (cs : List Char) : ∃ before, Blank before ∧
    cs = before ++ ((if (negation cs).1 then ['!'] else []) ++ (negation cs).2.chars) := by
  obtain ⟨before, blank, eq⟩ := exists_blank cs
  refine ⟨before, blank, ?_⟩
  rw [negation]
  cases found : eat? ['!'] (skipSpaces cs).chars with
  | none => exact eq
  | some r => exact (eq_append_of_eat? found) ▸ eq

theorem negation_eq_skipSpaces (h : (skipSpaces cs).chars.head? ≠ some '!') :
    (negation cs).1 = false ∧ (negation cs).2.chars = (skipSpaces cs).chars := by
  rw [negation, eat?_eq_none_iff.mpr (mt singleton_prefix_iff.mp h)]
  exact ⟨rfl, rfl⟩

theorem Blank.negation_append (h : Blank before) (cs : List Char) :
    (negation (before ++ cs)).1 = (negation cs).1 ∧
      (negation (before ++ cs)).2.chars = (negation cs).2.chars := by
  have start := h.skipSpaces_append cs
  cases found : eat? ['!'] (skipSpaces cs).chars with
  | none =>
    have missing : eat? ['!'] (skipSpaces (before ++ cs)).chars = none := by rwa [start]
    rw [negation, negation, found, missing]
    exact ⟨rfl, start⟩
  | some r =>
    have text : (skipSpaces (before ++ cs)).chars = ['!'] ++ r.chars :=
      start.trans (eq_append_of_eat? found)
    obtain ⟨r', eaten, left⟩ := eat?_eq_some text
    rw [negation, negation, found, eaten]
    exact ⟨rfl, left⟩

variable [PatternEngine]

mutual

/-- An item without its negation and its closures, outside or inside brackets. It is bare if a further
character of a word would become part of it. -/
inductive IsBase : (inside bare : Bool) → Selector → List Char → Prop where
  | name {n : String} (word : IsWord n) : IsBase false true (name n) n.toList
  | label {l : String} (word : IsWord l) : IsBase true true (label l) l.toList
  | nothing : IsBase true true (both []) []
  | quoted {inside : Bool} {body cs : List Char} (quoted : IsQuoted body cs) :
      IsBase inside false (name (String.ofList body)) ('"' :: (cs ++ ['"']))
  | slashed {inside : Bool} {body cs : List Char} {p : Pattern} (slashed : IsPatternBody body cs)
      (valid : Pattern.ofText (String.ofList body) = .ok p) :
      IsBase inside false (pattern p) ('/' :: (cs ++ ['/']))
  | group {inside : Bool} {ss : List Selector} {cs : List Char} (group : IsGroup ss cs) :
      IsBase inside false (either ss) ('[' :: (cs ++ [']']))

inductive IsItem : (inside bare : Bool) → Selector → List Char → Prop where
  | plain {inside bare : Bool} {s : Selector} {ks : List Closure} {cs ds : List Char}
      (base : IsBase inside bare s cs) (closures : AreClosures ks ds) :
      IsItem inside (bare && ks.isEmpty) (close s ks) (cs ++ ds)
  | negated {inside bare : Bool} {s : Selector} {ks : List Closure} {cs ds : List Char}
      (base : IsBase inside bare s cs) (closures : AreClosures ks ds) :
      IsItem inside (bare && ks.isEmpty) (close (not s) ks) ('!' :: (cs ++ ds))

inductive IsConjunction : List Selector → List Char → Prop where
  | last {bare : Bool} {s : Selector} {before cs after : List Char} (blank : Blank before)
      (item : IsItem true bare s cs) (blank' : Blank after) :
      IsConjunction [s] (before ++ (cs ++ after))
  | cons {bare : Bool} {s : Selector} {ss : List Selector} {before cs after ds : List Char}
      (blank : Blank before) (item : IsItem true bare s cs) (blank' : Blank after)
      (rest : IsConjunction ss ds) :
      IsConjunction (s :: ss) (before ++ (cs ++ (after ++ ',' :: ds)))

inductive IsGroup : List Selector → List Char → Prop where
  | last {ss : List Selector} {cs : List Char} (conjunction : IsConjunction ss cs) :
      IsGroup [both ss] cs
  | cons {ss ts : List Selector} {cs ds : List Char} (conjunction : IsConjunction ss cs)
      (rest : IsGroup ts ds) : IsGroup (both ss :: ts) (cs ++ '|' :: ds)

end

/-- Items side by side, with white space between them and after the last one. Which gaps are possible
depends on the item before and on the text after the gap. -/
inductive IsRow (gaps : (bare : Bool) → (gap next : List Char) → Prop) :
    List Selector → List Char → Prop where
  | last {bare : Bool} {s : Selector} {cs after : List Char} (item : IsItem false bare s cs)
      (blank : Blank after) : IsRow gaps [s] (cs ++ after)
  | cons {bare : Bool} {s : Selector} {ss : List Selector} {cs gap next : List Char}
      (item : IsItem false bare s cs) (blank : Blank gap) (fits : gaps bare gap next)
      (rest : IsRow gaps ss next) : IsRow gaps (s :: ss) (cs ++ (gap ++ next))

/-- In the documented grammar there is white space between any two items. -/
def Separated (_ : Bool) (gap _ : List Char) : Prop := gap ≠ []

/-- What the reader asks of the gaps: there is one between a bare word and another character of a word. -/
def Discernible (bare : Bool) (gap next : List Char) : Prop :=
  bare = true → ∀ c ∈ (gap ++ next).head?, Text.isWordChar c = false

/-- What follows an item: no closure, and no more of a bare word. -/
structure Follows (bare : Bool) (rest : List Char) : Prop where
  closure : closure? (skipSpaces rest).chars = none
  word : bare = true → ∀ c ∈ rest.head?, Text.isWordChar c = false

variable {inside bare : Bool} {s : Selector} {ss : List Selector}

theorem IsBase.starts {s : Selector} (h : IsBase inside bare s cs) :
    ∀ c ∈ cs.head?, Starts c ∧ c ≠ '!' := by
  have named {n : String} (word : IsWord n) : ∀ c ∈ n.toList.head?, Starts c ∧ c ≠ '!' := by
    intro c first
    have letter := word.2 c (List.mem_of_mem_head? first)
    exact ⟨.inl letter, ne_bang (not_mem_marks_of_isWordChar letter)⟩
  cases h with
  | name word => exact named word
  | label word => exact named word
  | nothing => nofun
  | quoted | slashed | group =>
    rintro c ⟨⟩
    exact ⟨.inr (by decide), by decide⟩

theorem IsBase.ne_nil (h : IsBase false bare s cs) : cs ≠ [] := by
  cases h with
  | name word => exact word.1
  | quoted | slashed | group => exact List.cons_ne_nil _ _

theorem IsBase.exists_mark {s : Selector} (h : IsBase inside false s cs) :
    ∃ c ds, cs = c :: ds ∧ Text.isWordChar c = false := by
  cases h with
  | quoted | slashed | group => exact ⟨_, _, rfl, isWordChar_eq_false_of_sign (by decide)⟩

theorem IsItem.exists_not_word (h : IsItem inside bare s cs) (closed : bare = false) :
    ∃ c ∈ cs, Text.isWordChar c = false := by
  cases h with
  | negated => exact ⟨'!', List.mem_cons_self, isWordChar_eq_false_of_sign (by decide)⟩
  | @plain _ bare s ks cs ds base closures =>
    cases bare with
    | false =>
      obtain ⟨c, cs, rfl, mark⟩ := base.exists_mark
      exact ⟨c, List.mem_append_left ds List.mem_cons_self, mark⟩
    | true =>
      cases closures with
      | nil => cases closed
      | @cons k ks before ds =>
        have colon : ':' ∈ k.text.toList := by cases k <;> decide
        exact ⟨':', by simp [colon], isWordChar_eq_false_of_sign (by decide)⟩

theorem IsItem.exists_cons (h : IsItem false bare s cs) : ∃ c ds, cs = c :: ds ∧ Starts c := by
  cases h with
  | negated => exact ⟨_, _, rfl, .inr (by decide)⟩
  | @plain _ _ s ks cs ds base =>
    obtain ⟨c, cs, rfl⟩ := List.exists_cons_of_ne_nil base.ne_nil
    exact ⟨c, cs ++ ds, rfl, (base.starts c rfl).1⟩

theorem IsRow.exists_cons {gaps : Bool → List Char → List Char → Prop} (h : IsRow gaps ss cs) :
    ∃ c ds, cs = c :: ds ∧ Starts c := by
  cases h with
  | last item | cons item =>
    obtain ⟨c, ds, rfl, first⟩ := item.exists_cons
    exact ⟨c, _, rfl, first⟩

end CallAtlas.Selector
