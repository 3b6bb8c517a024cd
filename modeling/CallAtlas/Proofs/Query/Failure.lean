import CallAtlas.Proofs.Query.Token
/-!
Where readers fail. For each way of putting readers together there is one rule for the places at which the
whole fails, and a fault lies at the first error if what stands before it begins a text of the language.
Main statement: `Viable.firstError`.
-/
namespace CallAtlas.Query

variable {c : Char} {cs rest : List Char}

namespace Outcome

variable {α β : Type} {j k : Nat} {a : α}

def Fails (o : Outcome α k cs) (rest : List Char) : Prop := ∃ e, o = .error e ∧ e.rest.chars = rest

theorem fails_error_iff {e : Stop cs} : Fails (.error e : Outcome α k cs) rest ↔ rest = e.rest.chars := by
  constructor
  · rintro ⟨e, ⟨⟩, rfl⟩
    rfl
  · rintro rfl
    exact ⟨e, rfl, rfl⟩

theorem fails_expected_iff {wanted : Wanted} {r : Rest j cs} :
    Fails (expected wanted r : Outcome α k cs) rest ↔ rest = r.chars := fails_error_iff

theorem not_fails_ok {r : Rest k cs} : ¬ Fails (.ok (a, r) : Outcome α k cs) rest := by
  rintro ⟨e, ⟨⟩, -⟩

theorem fails_map_iff {o : Outcome α k cs} {f : α → β} : (o.map f).Fails rest ↔ o.Fails rest := by
  cases o with
  | error e => exact fails_error_iff.trans fails_error_iff.symm
  | ok read => exact iff_of_false not_fails_ok not_fails_ok

theorem fails_weaken_iff {o : Outcome α k cs} {le : j ≤ k} : (o.weaken le).Fails rest ↔ o.Fails rest := by
  cases o with
  | error e => exact fails_error_iff.trans fails_error_iff.symm
  | ok read => exact iff_of_false not_fails_ok not_fails_ok

theorem fails_after_iff {r : Rest j cs} {o : Outcome α k r.chars} :
    (after r o).Fails rest ↔ o.Fails rest := by
  cases o with
  | error e =>
    rw [after, fails_error_iff, fails_error_iff]
    exact Iff.rfl
  | ok read => exact iff_of_false not_fails_ok not_fails_ok

theorem fails_after_tail_iff {o : Outcome α k cs} :
    (after (.tail c cs) o).Fails rest ↔ o.Fails rest := fails_after_iff

theorem fails_andThen_iff {o : Outcome α j cs} {f : α → (r : Rest j cs) → Outcome β k r.chars} :
    (o.andThen f).Fails rest ↔ o.Fails rest ∨ ∃ a r, o = .ok (a, r) ∧ (f a r).Fails rest := by
  cases o with
  | error e =>
    refine (fails_error_iff.trans fails_error_iff.symm).trans (or_iff_left ?_).symm
    rintro ⟨a, r, ⟨⟩, -⟩
  | ok read =>
    refine fails_after_iff.trans ⟨fun fails => .inr ⟨read.1, read.2, rfl, fails⟩, ?_⟩
    rintro (fails | ⟨a, r, ⟨⟩, fails⟩)
    · exact absurd fails not_fails_ok
    · exact fails

end Outcome

theorem fails_separated_iff {α β γ : Type} {j m : Nat} {t : Char} {first : Outcome γ j cs}
    {tail : γ → (r : Rest j cs) → Outcome α 0 r.chars} (last : γ → α) (join : γ → β → α)
    {next : (ds : List Char) → Outcome β m ds}
    (ended : ∀ s r, eat? [t] (skipSpaces r.chars).chars = none →
      tail s r = .ok (last s, skipSpaces r.chars))
    (goesOn : ∀ s r mark, eat? [t] (skipSpaces r.chars).chars = some mark → tail s r =
      (((next mark.chars).after ((skipSpaces r.chars).andThen mark)).map (join s)).weaken
        (Nat.zero_le _)) :
    (first.andThen tail).Fails rest ↔ first.Fails rest ∨ ∃ s more ds,
      first.Reads s more ∧ (skipSpaces more).chars = t :: ds ∧ (next ds).Fails rest := by
  have after (s : γ) (r : Rest j cs) : (tail s r).Fails rest ↔
      ∃ ds, (skipSpaces r.chars).chars = t :: ds ∧ (next ds).Fails rest := by
    cases found : eat? [t] (skipSpaces r.chars).chars with
    | none =>
      rw [ended s r found]
      refine iff_of_false Outcome.not_fails_ok ?_
      rintro ⟨ds, eq, -⟩
      exact eat?_eq_none_iff.mp found (singleton_prefix_iff.mpr (by rw [eq]; rfl))
    | some mark =>
      have text := eq_append_of_eat? found
      rw [goesOn s r mark found, Outcome.fails_weaken_iff, Outcome.fails_map_iff]
      refine (Outcome.fails_after_iff (r := (skipSpaces r.chars).andThen mark)).trans ?_
      refine ⟨fun fails => ⟨mark.chars, text, fails⟩, ?_⟩
      rintro ⟨ds, eq, fails⟩
      obtain ⟨-, rfl⟩ := List.cons.inj (text.symm.trans eq)
      exact fails
  rw [Outcome.fails_andThen_iff]
  refine or_congr_right ⟨?_, ?_⟩
  · rintro ⟨s, r, read, fails⟩
    obtain ⟨ds, mark, later⟩ := (after s r).mp fails
    exact ⟨s, r.chars, ds, ⟨r, read, rfl⟩, mark, later⟩
  · rintro ⟨s, more, ds, ⟨r, read, rfl⟩, mark, later⟩
    exact ⟨s, r, read, (after s r).mpr ⟨ds, mark, later⟩⟩

theorem finish_fails_iff {α : Type} {k : Nat} {o : Outcome α k cs} : (finish o).Fails rest ↔
    o.Fails rest ∨ ∃ a more, o.Reads a more ∧ (skipSpaces more).chars ≠ [] ∧
      rest = (skipSpaces more).chars := by
  rw [finish, Outcome.fails_andThen_iff]
  refine or_congr_right ⟨?_, ?_⟩
  · rintro ⟨a, r, read, fails⟩
    dsimp only at fails
    split at fails
    · exact absurd fails Outcome.not_fails_ok
    · rename_i some
      exact ⟨a, r.chars, ⟨r, read, rfl⟩, mt List.isEmpty_iff.mpr some, Outcome.fails_expected_iff.mp fails⟩
  · rintro ⟨a, more, ⟨r, read, rfl⟩, some, rfl⟩
    refine ⟨a, r, read, ?_⟩
    dsimp only
    rw [if_neg (mt List.isEmpty_iff.mp some)]
    exact Outcome.fails_expected_iff.mpr rfl

theorem run_eq_error_iff {α : Type} {k : Nat} (read : (cs : List Char) → Outcome α k cs) {text : String}
    {position : Nat} : (∃ e, Query.run read text = .error e ∧ e.position = position) ↔
      ∃ rest, (read text.toList).Fails rest ∧
        position = text.utf8ByteSize - (String.ofList rest).utf8ByteSize := by
  rw [Query.run]
  constructor
  · rintro ⟨e, h, rfl⟩
    split at h
    · cases h
    · rename_i stop found
      cases h
      exact ⟨stop.rest.chars, ⟨stop, found, rfl⟩, rfl⟩
  · rintro ⟨rest, ⟨stop, found, rfl⟩, rfl⟩
    rw [found]
    exact ⟨_, rfl, rfl⟩

/-- What was taken of `cs` before `rest` begins a text of the language, and it can go on with something
that makes no word longer. -/
def Viable (language : List Char → Prop) (cs rest : List Char) : Prop :=
  ∃ taken more, cs = taken ++ rest ∧ language (taken ++ more) ∧
    ∀ c ∈ more.head?, Text.isWordChar c = false

variable {P Q : List Char → Prop}

theorem Viable.mono (h : Viable P cs rest) (imp : ∀ ds, P ds → Q ds) : Viable Q cs rest := by
  obtain ⟨taken, more, split, text, ends⟩ := h
  exact ⟨taken, more, split, imp _ text, ends⟩

theorem Viable.of_text {ds : List Char} (h : P ds) : Viable P (ds ++ rest) rest := by
  refine ⟨ds, [], rfl, by rwa [List.append_nil], fun c first => ?_⟩
  cases first

theorem Viable.closed (h : Viable P cs rest) {mark : Char} (sign : Text.isWordChar mark = false)
    (imp : ∀ ds, P ds → Q (ds ++ [mark])) : Viable Q cs rest := by
  obtain ⟨taken, more, split, text, ends⟩ := h
  refine ⟨taken, more ++ [mark], split, ?_, ?_⟩
  · rw [← List.append_assoc]
    exact imp _ text
  · cases more with
    | nil =>
      rintro c ⟨⟩
      exact sign
    | cons c more => exact ends

theorem Viable.behind (h : Viable P cs rest) (before : List Char)
    (imp : ∀ ds, P ds → (∀ c ∈ ds.head?, Text.isWordChar c = true → c ∈ cs.head?) → Q (before ++ ds)) :
    Viable Q (before ++ cs) rest := by
  obtain ⟨taken, more, rfl, text, ends⟩ := h
  refine ⟨before ++ taken, more, (List.append_assoc ..).symm, ?_, ends⟩
  rw [List.append_assoc]
  refine imp _ text fun c first word => ?_
  cases taken with
  | nil => exact absurd (word.symm.trans (ends c first)) (by decide)
  | cons d taken => exact first

/-- A position in a text, in bytes, before which the beginning of an accepted text stands. -/
def IsFirstError (accepts : String → Prop) (text : String) (position : Nat) : Prop :=
  position ≤ text.utf8ByteSize ∧ ∃ before after more, text = before ++ after ∧
    before.utf8ByteSize = position ∧ accepts (before ++ more)

theorem Viable.firstError {accepts : String → Prop} {text : String} (h : Viable P text.toList rest)
    (imp : ∀ t : String, P t.toList → accepts t) :
    IsFirstError accepts text (text.utf8ByteSize - (String.ofList rest).utf8ByteSize) := by
  obtain ⟨taken, more, split, whole, -⟩ := h
  have joined : text = String.ofList taken ++ String.ofList rest := by
    rw [← String.ofList_append, ← split, String.ofList_toList]
  have size : text.utf8ByteSize =
      (String.ofList taken).utf8ByteSize + (String.ofList rest).utf8ByteSize := by
    rw [joined, String.utf8ByteSize_append]
  refine ⟨Nat.sub_le _ _, String.ofList taken, String.ofList rest, String.ofList more, joined, ?_, ?_⟩
  · rw [size, Nat.add_sub_cancel]
  · refine imp _ ?_
    rwa [← String.ofList_append, String.toList_ofList]

end CallAtlas.Query
