import CallAtlas.Proofs.Query.Outcome
import Mathlib.Data.List.DropRight
/-!
Tokens, words and white space at the front of a text, and what becomes of them when the text goes on.
-/
namespace CallAtlas.Query

variable {c d : Char} {cs ds rest token : List Char}

theorem dropWhile_append_cons {p : Char → Bool} (h : p d = false) (cs ds : List Char) :
    (cs ++ d :: ds).dropWhile p = cs.dropWhile p ++ d :: ds := by
  induction cs with
  | nil => rw [List.nil_append, List.dropWhile_cons, h]; rfl
  | cons c cs ih =>
    rw [List.cons_append, List.dropWhile_cons, List.dropWhile_cons, ih]
    split <;> rfl

theorem takeWhile_append_cons {p : Char → Bool} (h : p d = false) (cs ds : List Char) :
    (cs ++ d :: ds).takeWhile p = cs.takeWhile p := by
  induction cs with
  | nil => rw [List.nil_append, List.takeWhile_cons, h]; rfl
  | cons c cs ih => rw [List.cons_append, List.takeWhile_cons, List.takeWhile_cons, ih]

theorem skipSpaces_cons (h : Text.isSpace c = false) (cs : List Char) :
    (skipSpaces (c :: cs)).chars = c :: cs := by
  show (c :: cs).dropWhile Text.isSpace = _
  rw [List.dropWhile_cons, h, if_neg Bool.false_ne_true]

theorem skipSpaces_append (space : Text.isSpace d = false) (cs ds : List Char) :
    (skipSpaces (cs ++ d :: ds)).chars = (skipSpaces cs).chars ++ d :: ds :=
  dropWhile_append_cons space cs ds

theorem skipSpaces_skipSpaces (cs : List Char) :
    (skipSpaces (skipSpaces cs).chars).chars = (skipSpaces cs).chars :=
  List.dropWhile_idempotent Text.isSpace cs

theorem length_lt_of_skipSpaces (h : (skipSpaces cs).chars = c :: rest) : rest.length < cs.length := by
  have le := (skipSpaces cs).length_le
  rw [h, List.length_cons] at le
  omega

theorem word?_eq_none (h : Text.isWordChar c = false) (cs : List Char) : word? (c :: cs) = none := by
  rw [word?, dif_neg]
  rw [List.dropWhile_cons, h, if_neg Bool.false_ne_true]
  exact Nat.lt_irrefl _

theorem word?_append (word : Text.isWordChar d = false) (cs ds : List Char) :
    (word? (cs ++ d :: ds)).map (fun r => (r.1, r.2.chars)) =
      (word? cs).map fun r => (r.1, r.2.chars ++ d :: ds) := by
  have left := dropWhile_append_cons word cs ds
  have taken := takeWhile_append_cons word cs ds
  rw [word?, word?]
  by_cases shorter : (cs.dropWhile Text.isWordChar).length < cs.length
  · have longer : ((cs ++ d :: ds).dropWhile Text.isWordChar).length < (cs ++ d :: ds).length := by
      rw [left, List.length_append, List.length_append]
      omega
    rw [dif_pos shorter, dif_pos longer]
    simp only [Option.map_some, taken, left]
  · have same : ¬ ((cs ++ d :: ds).dropWhile Text.isWordChar).length < (cs ++ d :: ds).length := by
      rw [left, List.length_append, List.length_append]
      omega
    rw [dif_neg shorter, dif_neg same]
    rfl

theorem eq_append_of_eat? {r : Rest token.length cs} (h : eat? token cs = some r) :
    cs = token ++ r.chars := by
  rw [eat?] at h
  split at h
  · rename_i here
    cases h
    exact (List.prefix_iff_eq_append.mp here).symm
  · cases h

theorem eat?_eq_some (h : cs = token ++ rest) : ∃ r, eat? token cs = some r ∧ r.chars = rest := by
  subst h
  rw [eat?, dif_pos (List.prefix_append token rest)]
  exact ⟨_, rfl, List.drop_left⟩

theorem eat?_eq_none_iff : eat? token cs = none ↔ ¬ token <+: cs := by
  rw [eat?]
  split <;> simp_all

theorem head?_append_ne (h : cs.head? ≠ some c) (other : d ≠ c) : (cs ++ d :: ds).head? ≠ some c := by
  intro here
  rw [List.head?_append, Option.or_eq_some_iff] at here
  rcases here with here | ⟨-, there⟩
  · exact h here
  · exact other (Option.some.inj there)

theorem singleton_prefix_iff : [c] <+: cs ↔ cs.head? = some c := by
  cases cs with
  | nil => simp
  | cons d cs => simp [eq_comm]

theorem eat?_eq_none (h : c ≠ d) (token cs : List Char) : eat? (c :: token) (d :: cs) = none :=
  eat?_eq_none_iff.mpr fun here => h (List.cons_prefix_cons.mp here).1

theorem prefix_append_cons_iff (free : d ∉ token) : token <+: cs ++ d :: ds ↔ token <+: cs := by
  refine ⟨fun h => ?_, fun h => h.trans (List.prefix_append cs _)⟩
  rcases List.prefix_or_prefix_of_prefix h (List.prefix_append cs _) with here | ⟨more, rfl⟩
  · exact here
  · have rest := (List.prefix_append_right_inj cs).mp h
    cases more with
    | nil => exact (List.append_nil cs).symm ▸ cs.prefix_refl
    | cons c more =>
      obtain ⟨rfl, -⟩ := List.cons_prefix_cons.mp rest
      exact absurd (List.mem_append_right cs List.mem_cons_self) free

theorem eat?_append (free : d ∉ token) (cs ds : List Char) :
    (eat? token (cs ++ d :: ds)).map (·.chars) = (eat? token cs).map (·.chars ++ d :: ds) := by
  rw [eat?, eat?]
  by_cases here : token <+: cs
  · rw [dif_pos here, dif_pos ((prefix_append_cons_iff free).mpr here)]
    simp only [Option.map_some, List.drop_append_of_le_length here.length_le]
  · rw [dif_neg here, dif_neg (mt (prefix_append_cons_iff free).mp here)]
    rfl

theorem reads_separated_iff {α β γ : Type} {j m : Nat} {t : Char} {first : Outcome γ j cs} {a : α}
    {tail : γ → (r : Rest j cs) → Outcome α 0 r.chars} {last : γ → α} {join : γ → β → α}
    {next : (ds : List Char) → Outcome β m ds}
    (ended : ∀ s r, eat? [t] (skipSpaces r.chars).chars = none →
      tail s r = .ok (last s, skipSpaces r.chars))
    (goesOn : ∀ s r mark, eat? [t] (skipSpaces r.chars).chars = some mark → tail s r =
      (((next mark.chars).after ((skipSpaces r.chars).andThen mark)).map (join s)).weaken
        (Nat.zero_le _)) :
    (first.andThen tail).Reads a rest ↔ ∃ s more, first.Reads s more ∧
      ((skipSpaces more).chars.head? ≠ some t ∧ a = last s ∧ rest = (skipSpaces more).chars ∨
        ∃ ds b, (skipSpaces more).chars = t :: ds ∧ (next ds).Reads b rest ∧ a = join s b) := by
  have after (s : γ) (r : Rest j cs) : (tail s r).Reads a rest ↔
      (skipSpaces r.chars).chars.head? ≠ some t ∧ a = last s ∧ rest = (skipSpaces r.chars).chars ∨
        ∃ ds b, (skipSpaces r.chars).chars = t :: ds ∧ (next ds).Reads b rest ∧ a = join s b := by
    cases found : eat? [t] (skipSpaces r.chars).chars with
    | none =>
      have none := mt singleton_prefix_iff.mpr (eat?_eq_none_iff.mp found)
      rw [ended s r found, Outcome.reads_ok_iff]
      refine ⟨fun read => .inl ⟨none, read⟩, ?_⟩
      rintro (⟨-, read⟩ | ⟨ds, b, eq, -⟩)
      · exact read
      · exact absurd (by rw [eq]; rfl) none
    | some mark =>
      have text := eq_append_of_eat? found
      rw [goesOn s r mark found, Outcome.reads_weaken_iff, Outcome.reads_map_iff]
      constructor
      · rintro ⟨b, later, rfl⟩
        exact .inr ⟨mark.chars, b, text,
          (Outcome.reads_after_iff (r := (skipSpaces r.chars).andThen mark)).mp later, rfl⟩
      · rintro (⟨none, -⟩ | ⟨ds, b, eq, later, rfl⟩)
        · exact absurd (by rw [text]; rfl) none
        · obtain ⟨-, rfl⟩ := List.cons.inj (text.symm.trans eq)
          exact ⟨b, Outcome.Reads.after (r := (skipSpaces r.chars).andThen mark) later, rfl⟩
  rw [Outcome.reads_andThen_iff]
  constructor
  · rintro ⟨s, r, read, rest⟩
    exact ⟨s, r.chars, ⟨r, read, rfl⟩, (after s r).mp rest⟩
  · rintro ⟨s, more, ⟨r, read, rfl⟩, rest⟩
    exact ⟨s, r, read, (after s r).mpr rest⟩

theorem finish_reads_iff {α : Type} {k : Nat} {o : Outcome α k cs} {a : α} :
    (finish o).Reads a rest ↔ ∃ more, o.Reads a more ∧ (skipSpaces more).chars = [] ∧ rest = [] := by
  rw [finish, Outcome.reads_andThen_iff]
  constructor
  · rintro ⟨b, r, read, ended⟩
    dsimp only at ended
    split at ended
    · rename_i none
      obtain ⟨rfl, rfl⟩ := Outcome.reads_ok_iff.mp ended
      exact ⟨r.chars, ⟨r, read, rfl⟩, List.isEmpty_iff.mp none, List.isEmpty_iff.mp none⟩
    · exact absurd ended Outcome.not_reads_expected
  · rintro ⟨more, ⟨r, read, rfl⟩, none, rfl⟩
    refine ⟨a, r, read, ?_⟩
    dsimp only
    rw [if_pos (List.isEmpty_iff.mpr none)]
    exact .ok none

theorem run_eq_ok_iff {α : Type} {k : Nat} {read : (cs : List Char) → Outcome α k cs} {text : String}
    {a : α} : Query.run read text = .ok a ↔ ∃ rest, (read text.toList).Reads a rest := by
  rw [Query.run]
  constructor
  · intro h
    split at h
    · rename_i r found
      cases h
      exact ⟨r.chars, r, found, rfl⟩
    · cases h
  · rintro ⟨rest, r, found, -⟩
    rw [found]

end CallAtlas.Query
