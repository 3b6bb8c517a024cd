import CallAtlas.Selector.Normal
/-!
The form of a selector that was made shorter. Main statements: `short_optimize`, no group of one member and
no double negation is left at any depth, so that one pass is enough; `size_optimize_le`, nothing gets larger;
and `normal_form_optimize`, a selector is left as it is if and only if nothing in it can be taken out.
-/
namespace CallAtlas.Selector

variable [PatternEngine]

/-- What can be taken out of a selector: a group of one member, a double negation. -/
inductive Redundant : Selector → Prop
  | both (s : Selector) : Redundant (both [s])
  | either (s : Selector) : Redundant (either [s])
  | not (s : Selector) : Redundant (not (not s))

inductive Part (t : Selector) : Selector → Prop
  | self : Part t t
  | both {s : Selector} {ss : List Selector} (mem : s ∈ ss) (h : Part t s) : Part t (both ss)
  | either {s : Selector} {ss : List Selector} (mem : s ∈ ss) (h : Part t s) : Part t (either ss)
  | not {s : Selector} (h : Part t s) : Part t (not s)
  | closure {k : Closure} {s : Selector} (h : Part t s) : Part t (closure k s)

def Short (s : Selector) : Prop := ∀ t, Part t s → ¬ Redundant t

theorem short_both {ss : List Selector} :
    Short (both ss) ↔ ss.length ≠ 1 ∧ ∀ s ∈ ss, Short s := by
  constructor
  · intro h
    refine ⟨fun single => ?_, fun s mem t part => h t (.both mem part)⟩
    obtain ⟨s, rfl⟩ := List.length_eq_one_iff.mp single
    exact h _ .self (.both s)
  · rintro ⟨several, members⟩ t part
    cases part with
    | self =>
      rintro ⟨⟩
      exact several rfl
    | both mem part => exact members _ mem t part

theorem short_either {ss : List Selector} :
    Short (either ss) ↔ ss.length ≠ 1 ∧ ∀ s ∈ ss, Short s := by
  constructor
  · intro h
    refine ⟨fun single => ?_, fun s mem t part => h t (.either mem part)⟩
    obtain ⟨s, rfl⟩ := List.length_eq_one_iff.mp single
    exact h _ .self (.either s)
  · rintro ⟨several, members⟩ t part
    cases part with
    | self =>
      rintro ⟨⟩
      exact several rfl
    | either mem part => exact members _ mem t part

theorem short_not {s : Selector} : Short (not s) ↔ (∀ t, s ≠ not t) ∧ Short s := by
  constructor
  · intro h
    refine ⟨?_, fun t part => h t (.not part)⟩
    rintro t rfl
    exact h _ .self (.not t)
  · rintro ⟨single, inner⟩ t part
    cases part with
    | self =>
      rintro ⟨⟩
      exact single _ rfl
    | not part => exact inner t part

theorem short_closure {k : Closure} {s : Selector} : Short (closure k s) ↔ Short s := by
  constructor
  · exact fun h t part => h t (.closure part)
  · intro h t part
    cases part with
    | self => nofun
    | closure part => exact h t part

theorem optimizeAll_eq_map (ss : List Selector) : optimizeAll ss = ss.map optimize := by
  induction ss with
  | nil => rfl
  | cons s ss ih => rw [optimizeAll, ih, List.map_cons]

theorem optimize_both {ss : List Selector} (h : ss.length ≠ 1) :
    optimize (both ss) = both (ss.map optimize) := by
  match ss with
  | [] => rfl
  | [s] => exact absurd rfl h
  | s :: t :: ss =>
    rw [optimize, optimizeAll_eq_map]
    nofun

theorem optimize_either {ss : List Selector} (h : ss.length ≠ 1) :
    optimize (either ss) = either (ss.map optimize) := by
  match ss with
  | [] => rfl
  | [s] => exact absurd rfl h
  | s :: t :: ss =>
    rw [optimize, optimizeAll_eq_map]
    nofun

theorem negate_cases (s : Selector) :
    (∃ t, s = not t ∧ negate s = t) ∨ (∀ t, s ≠ not t) ∧ negate s = not s := by
  cases s with
  | not t => exact .inl ⟨t, rfl, rfl⟩
  | _ => exact .inr ⟨nofun, rfl⟩

theorem Short.negate {s : Selector} (h : Short s) : Short (negate s) := by
  rcases negate_cases s with ⟨t, rfl, taken⟩ | ⟨single, kept⟩
  · rw [taken]
    exact (short_not.mp h).2
  · rw [kept]
    exact short_not.mpr ⟨single, h⟩

/-- Induction on a selector: groups come after their members. -/
theorem members_induction {motive : Selector → Prop} (name : ∀ n, motive (name n))
    (pattern : ∀ p, motive (pattern p)) (label : ∀ l, motive (label l))
    (both : ∀ ss, (∀ s ∈ ss, motive s) → motive (both ss))
    (either : ∀ ss, (∀ s ∈ ss, motive s) → motive (either ss))
    (not : ∀ s, motive s → motive (not s)) (closure : ∀ k s, motive s → motive (closure k s))
    (s : Selector) : motive s :=
  @Selector.rec _ motive (fun ss => ∀ s ∈ ss, motive s) name pattern label both either not closure
    (List.forall_mem_nil _) (fun _ _ first rest => List.forall_mem_cons.mpr ⟨first, rest⟩) s

theorem short_optimize (s : Selector) : Short (optimize s) := by
  induction s using members_induction with
  | name | pattern | label =>
    intro t part
    cases part
    nofun
  | both ss ih =>
    by_cases single : ss.length = 1
    · obtain ⟨s, rfl⟩ := List.length_eq_one_iff.mp single
      exact ih s List.mem_cons_self
    · rw [optimize_both single, short_both, List.length_map, List.forall_mem_map]
      exact ⟨single, ih⟩
  | either ss ih =>
    by_cases single : ss.length = 1
    · obtain ⟨s, rfl⟩ := List.length_eq_one_iff.mp single
      exact ih s List.mem_cons_self
    · rw [optimize_either single, short_either, List.length_map, List.forall_mem_map]
      exact ⟨single, ih⟩
  | not s ih =>
    rw [optimize]
    exact ih.negate
  | closure k s ih =>
    rw [optimize, short_closure]
    exact ih

theorem Short.optimize_eq {s : Selector} (h : Short s) : optimize s = s := by
  induction s using members_induction with
  | name | pattern | label => rfl
  | both ss ih =>
    obtain ⟨several, members⟩ := short_both.mp h
    rw [optimize_both several, List.map_congr_left fun s mem => ih s mem (members s mem), List.map_id']
  | either ss ih =>
    obtain ⟨several, members⟩ := short_either.mp h
    rw [optimize_either several, List.map_congr_left fun s mem => ih s mem (members s mem), List.map_id']
  | not s ih =>
    obtain ⟨single, inner⟩ := short_not.mp h
    rw [optimize, ih inner]
    rcases negate_cases s with ⟨t, double, -⟩ | ⟨-, kept⟩
    · exact absurd double (single t)
    · exact kept
  | closure k s ih => rw [optimize, ih (short_closure.mp h)]

theorem optimize_optimize (s : Selector) : optimize (optimize s) = optimize s :=
  (short_optimize s).optimize_eq

theorem size_negate_le (s : Selector) : size (negate s) ≤ 1 + size s := by
  rcases negate_cases s with ⟨t, rfl, taken⟩ | ⟨-, kept⟩
  · rw [taken, size]
    omega
  · rw [kept]
    exact Nat.le_refl _

theorem sizeAll_map_le {f : Selector → Selector} {ss : List Selector}
    (h : ∀ s ∈ ss, size (f s) ≤ size s) : sizeAll (ss.map f) ≤ sizeAll ss := by
  induction ss with
  | nil => exact Nat.le_refl _
  | cons s ss ih =>
    obtain ⟨first, rest⟩ := List.forall_mem_cons.mp h
    exact Nat.add_le_add first (ih rest)

theorem size_optimize_le (s : Selector) : size (optimize s) ≤ size s := by
  induction s using members_induction with
  | name | pattern | label => exact Nat.le_refl _
  | both ss ih =>
    by_cases single : ss.length = 1
    · obtain ⟨s, rfl⟩ := List.length_eq_one_iff.mp single
      exact Nat.le_trans (ih s List.mem_cons_self) (Nat.le_add_left (size s) 1)
    · rw [optimize_both single]
      exact Nat.add_le_add_left (sizeAll_map_le ih) 1
  | either ss ih =>
    by_cases single : ss.length = 1
    · obtain ⟨s, rfl⟩ := List.length_eq_one_iff.mp single
      exact Nat.le_trans (ih s List.mem_cons_self) (Nat.le_add_left (size s) 1)
    · rw [optimize_either single]
      exact Nat.add_le_add_left (sizeAll_map_le ih) 1
  | not s ih =>
    rw [optimize, size]
    exact Nat.le_trans (size_negate_le _) (Nat.add_le_add_left ih 1)
  | closure k s ih =>
    rw [optimize, size, size]
    exact Nat.add_le_add_left ih 1

/-- One pass takes out all that can be taken out at any depth, makes nothing larger, and leaves alone what
is short already; so a second pass changes nothing. -/
theorem normal_form_optimize (s : Selector) :
    (∀ t, Part t (optimize s) → ¬ Redundant t) ∧ size (optimize s) ≤ size s ∧
      optimize (optimize s) = optimize s ∧ (optimize s = s ↔ Short s) := by
  refine ⟨short_optimize s, size_optimize_le s, optimize_optimize s, ?_, Short.optimize_eq⟩
  intro same
  rw [← same]
  exact short_optimize s

end CallAtlas.Selector
