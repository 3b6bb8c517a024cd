import CallAtlas.Text.Lines
import CallAtlas.Text.Token
/-!
Tokens that are written and read. Main statements: `split_join`, a line of quoted tokens has these
tokens, `isLine_join`, such a line stays one line if no token holds a line feed, and
`sublist_of_splitFrom`, tokens hold no characters that their line does not hold.
-/
namespace CallAtlas.Token

/-- A character that stands for itself in a token that is not quoted. -/
def isBare (c : Char) : Bool := !Text.isSpace c && c != '"' && c != '\\'

theorem isPlain_iff {token : List Char} : isPlain token = true ↔
    ∃ c cs, token = c :: cs ∧ c ≠ '#' ∧ ∀ d ∈ c :: cs, isBare d = true := by
  cases token with
  | nil => simp [isPlain]
  | cons c cs => simp [isPlain, isBare, and_assoc]

theorem foldr_push_cons (token : List Char) (t : List Char) (ts : List (List Char)) :
    token.foldr push (t :: ts) = (token ++ t) :: ts := by
  induction token with
  | nil => rfl
  | cons c cs ih =>
    rw [List.foldr_cons, ih]
    rfl

theorem splitFrom_bare {place : Place} (h : place ≠ .quoted) {c : Char} (bare : isBare c = true)
    (start : place = .gap → c ≠ '#') (cs : List Char) :
    splitFrom place (c :: cs) = (splitFrom .plain cs).map (push c) := by
  simp only [isBare, Bool.and_eq_true, Bool.not_eq_true', bne_iff_ne, ne_eq] at bare
  obtain ⟨⟨space, quote⟩, slash⟩ := bare
  cases place with
  | quoted => exact absurd rfl h
  | plain =>
    rw [splitFrom, space, if_neg Bool.false_ne_true]
    all_goals simp_all
  | gap =>
    rw [splitFrom, space, if_neg Bool.false_ne_true, if_neg (start rfl)]
    all_goals simp_all

theorem splitFrom_plain_append {cs : List Char} (bare : ∀ c ∈ cs, isBare c = true)
    (tail : List Char) :
    splitFrom .plain (cs ++ tail) = (splitFrom .plain tail).map (cs.foldr push ·) := by
  induction cs with
  | nil =>
    rw [List.nil_append]
    cases splitFrom .plain tail <;> rfl
  | cons c cs ih =>
    obtain ⟨first, rest⟩ := List.forall_mem_cons.mp bare
    rw [List.cons_append, splitFrom_bare (by decide) first (by nofun), ih rest]
    cases splitFrom .plain tail <;> rfl

theorem splitFrom_quoted_escape (token tail : List Char) :
    splitFrom .quoted (escape token ++ '"' :: tail) =
      (splitFrom .plain tail).map (token.foldr push ·) := by
  induction token with
  | nil =>
    have close : splitFrom .quoted ('"' :: tail) = splitFrom .plain tail := rfl
    rw [escape, List.nil_append, close]
    cases splitFrom .plain tail <;> rfl
  | cons c cs ih =>
    rw [escape]
    split
    · show (splitFrom .quoted (escape cs ++ '"' :: tail)).map (push c) = _
      rw [ih]
      cases splitFrom .plain tail <;> rfl
    · rename_i other
      obtain ⟨quote, slash⟩ := not_or.mp other
      have step : splitFrom .quoted (c :: (escape cs ++ '"' :: tail)) =
          (splitFrom .quoted (escape cs ++ '"' :: tail)).map (push c) := by
        rw [splitFrom]
        all_goals simp_all
      rw [List.cons_append, step, ih]
      cases splitFrom .plain tail <;> rfl

theorem splitFrom_quoteChars (token tail : List Char) :
    splitFrom .gap (quoteChars token ++ tail) =
      (splitFrom .plain tail).map (token.foldr push ·) := by
  rw [quoteChars]
  split
  · rename_i plain
    obtain ⟨c, cs, rfl, start, bare⟩ := isPlain_iff.mp plain
    obtain ⟨first, rest⟩ := List.forall_mem_cons.mp bare
    rw [List.cons_append, splitFrom_bare (by decide) first (fun _ => start),
      splitFrom_plain_append rest]
    cases splitFrom .plain tail <;> rfl
  · show splitFrom .quoted (escape token ++ ['"'] ++ tail) = _
    rw [List.append_assoc]
    exact splitFrom_quoted_escape token tail

theorem toList_join (tokens : List String) :
    (join tokens).toList = [' '].intercalate (tokens.map fun t => quoteChars t.toList) := by
  rw [join, String.toList_intercalate, List.map_map]
  congr 1
  exact List.map_congr_left fun t _ => String.toList_ofList

theorem splitFrom_join (tokens : List String) :
    splitFrom .gap (join tokens).toList = .ok (tokens.map String.toList) := by
  rw [toList_join]
  induction tokens with
  | nil => rfl
  | cons token tokens ih =>
    cases tokens with
    | nil =>
      have last := splitFrom_quoteChars token.toList []
      rw [List.append_nil] at last
      rw [List.map_singleton, List.intercalate_singleton, last]
      show Except.ok (token.toList.foldr push [[]]) = _
      rw [foldr_push_cons, List.append_nil]
      rfl
    | cons next tokens =>
      rw [List.map_cons, List.map_cons, List.intercalate_cons_cons, List.append_assoc,
        List.singleton_append, splitFrom_quoteChars]
      rw [List.map_cons] at ih
      show ((splitFrom .gap _).map ([] :: ·)).map _ = _
      rw [ih]
      show Except.ok (token.toList.foldr push ([] :: _)) = _
      rw [foldr_push_cons, List.append_nil]
      rfl

/-- Whatever the tokens are, a line of them is split into them. -/
theorem split_join (tokens : List String) : split (join tokens) = .ok tokens := by
  have chars : (tokens.map String.toList).map String.ofList = tokens := by simp
  rw [split, splitFrom_join]
  exact congrArg Except.ok chars

theorem mem_of_mem_escape {token : List Char} {c : Char} (h : c ∈ escape token) :
    c = '\\' ∨ c ∈ token := by
  induction token with
  | nil => cases h
  | cons d ds ih =>
    rw [escape] at h
    split at h
    · rcases List.mem_cons.mp h with rfl | h
      · exact .inl rfl
      · rcases List.mem_cons.mp h with rfl | h
        · exact .inr List.mem_cons_self
        · exact (ih h).imp id (List.mem_cons_of_mem _)
    · rcases List.mem_cons.mp h with rfl | h
      · exact .inr List.mem_cons_self
      · exact (ih h).imp id (List.mem_cons_of_mem _)

theorem getLast?_quoteChars (token : List Char) :
    ∃ c, (quoteChars token).getLast? = some c ∧ Text.isSpace c = false := by
  rw [quoteChars]
  split
  · rename_i plain
    obtain ⟨c, cs, rfl, -, bare⟩ := isPlain_iff.mp plain
    obtain ⟨last, eq⟩ := Option.isSome_iff_exists.mp
      (List.getLast?_isSome.mpr (List.cons_ne_nil c cs))
    refine ⟨last, eq, ?_⟩
    have := bare last (List.mem_of_mem_getLast? eq)
    simp only [isBare, Bool.and_eq_true, Bool.not_eq_true'] at this
    exact this.1.1
  · refine ⟨'"', ?_, by decide⟩
    rw [← List.cons_append, List.getLast?_append]
    rfl

theorem newline_not_mem_quoteChars {token : List Char} (h : '\n' ∉ token) :
    '\n' ∉ quoteChars token := by
  rw [quoteChars]
  split
  · exact h
  · intro inside
    rcases List.mem_cons.mp inside with eq | inside
    · exact absurd eq (by decide)
    · rcases List.mem_append.mp inside with inside | inside
      · rcases mem_of_mem_escape inside with eq | inside
        · exact absurd eq (by decide)
        · exact h inside
      · exact absurd (List.mem_singleton.mp inside) (by decide)

theorem isLine_join {tokens : List String} (h : ∀ t ∈ tokens, '\n' ∉ t.toList) :
    Lines.IsLine (join tokens) := by
  rw [Lines.IsLine, toList_join]
  induction tokens with
  | nil => exact ⟨List.not_mem_nil, nofun⟩
  | cons token tokens ih =>
    obtain ⟨first, rest⟩ := List.forall_mem_cons.mp h
    cases tokens with
    | nil =>
      obtain ⟨c, last, space⟩ := getLast?_quoteChars token.toList
      rw [List.map_singleton, List.intercalate_singleton, last]
      refine ⟨newline_not_mem_quoteChars first, ?_⟩
      rintro ⟨⟩
      exact absurd space (by decide)
    | cons next tokens =>
      obtain ⟨inner, last⟩ := ih rest
      rw [List.map_cons] at inner last
      rw [List.map_cons, List.map_cons, List.intercalate_cons_cons]
      refine ⟨?_, ?_⟩
      · simp only [List.mem_append, List.mem_singleton, not_or]
        exact ⟨⟨newline_not_mem_quoteChars first, by decide⟩, inner⟩
      · rw [List.getLast?_append]
        cases ended : ([' '].intercalate (quoteChars next.toList ::
            tokens.map fun t => quoteChars t.toList)).getLast? with
        | none => simp
        | some c =>
          rw [ended] at last
          exact last

theorem flatten_push (c : Char) (ts : List (List Char)) :
    (push c ts).flatten = c :: ts.flatten := by
  cases ts <;> rfl

theorem sublist_of_splitFrom {place : Place} {cs : List Char} {ts : List (List Char)}
    (h : splitFrom place cs = .ok ts) : ts.flatten.Sublist cs := by
  have pushed {c : Char} {cs : List Char} {place : Place}
      (ih : ∀ {ts}, splitFrom place cs = .ok ts → ts.flatten.Sublist cs)
      {ts : List (List Char)} (h : (splitFrom place cs).map (push c) = .ok ts) :
      ts.flatten.Sublist (c :: cs) := by
    cases rest : splitFrom place cs with
    | error e =>
      rw [rest] at h
      cases h
    | ok us =>
      rw [rest] at h
      cases h
      rw [flatten_push]
      exact (ih rest).cons_cons c
  fun_induction splitFrom place cs generalizing ts with
  | case1 =>
    cases h
    exact .slnil
  | case2 =>
    cases h
    exact .slnil
  | case3 => cases h
  | case4 => cases h
  | case5 place c cs ih => exact (pushed ih h).cons '\\'
  | case6 place cs ih => exact (ih h).cons '"'
  | case7 => exact pushed ‹_› h
  | case8 c cs _ _ _ space ih =>
    cases rest : splitFrom .gap cs with
    | error e =>
      rw [rest] at h
      cases h
    | ok us =>
      rw [rest] at h
      cases h
      exact (ih rest).cons c
  | case9 => exact pushed ‹_› h
  | case10 c cs _ _ _ space ih => exact (ih h).cons c
  | case11 =>
    cases h
    exact List.nil_sublist _
  | case12 => exact pushed ‹_› h

theorem newline_not_mem_of_split {line : String} {tokens : List String}
    (h : split line = .ok tokens) (inner : '\n' ∉ line.toList) : ∀ t ∈ tokens, '\n' ∉ t.toList := by
  rw [split] at h
  cases read : splitFrom .gap line.toList with
  | error e =>
    rw [read] at h
    cases h
  | ok ts =>
    rw [read] at h
    cases h
    intro t ht inside
    obtain ⟨cs, hcs, rfl⟩ := List.mem_map.mp ht
    rw [String.toList_ofList] at inside
    exact inner ((sublist_of_splitFrom read).subset (List.mem_flatten.mpr ⟨cs, hcs, inside⟩))

end CallAtlas.Token
