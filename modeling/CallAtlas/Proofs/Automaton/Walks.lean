import CallAtlas.Proofs.Automaton.Interpretation
/-!
Runs of a nondeterministic automaton move by move. Main statement: `mem_run`, a configuration holds the
states that some run with the word ends in.
-/
namespace CallAtlas

inductive Nfa.Step (n : Nfa) : Nat → List String → Nat → Prop
  | silent {p t : Nat} (h : t ∈ n.silent p) : Step n p [] t
  | reads {p : Nat} {move : Predicate × Nat} {a : String} (h : move ∈ n.moves p)
    (accepted : move.1 a = true) : Step n p [a] move.2

inductive Walks (move : Nat → List String → Nat → Prop) : Nat → List String → Nat → Prop
  | refl (p : Nat) : Walks move p [] p
  | step {p q r : Nat} {u w : List String} (h : move p u q) (rest : Walks move q w r) :
    Walks move p (u ++ w) r

namespace Walks

variable {move move' : Nat → List String → Nat → Prop} {p q r : Nat} {u w : List String}

theorem single (h : move p u q) : Walks move p u q := by
  have walks := Walks.step h (.refl q)
  rwa [List.append_nil] at walks

theorem trans (h : Walks move p u q) (h' : Walks move q w r) : Walks move p (u ++ w) r := by
  induction h with
  | refl => exact h'
  | step hs _ ih =>
    rw [List.append_assoc]
    exact .step hs (ih h')

theorem mono (le : ∀ {p u q}, move p u q → move' p u q) (h : Walks move p w r) :
    Walks move' p w r := by
  induction h with
  | refl => exact .refl _
  | step hs _ ih => exact .step (le hs) ih

theorem within (region : Nat → Prop) (h : Walks move p w r) (inside : region p)
    (stays : ∀ {p u q}, region p → move p u q → region q ∧ move' p u q) :
    Walks move' p w r := by
  induction h with
  | refl => exact .refl _
  | step hs _ ih =>
    obtain ⟨next, hs'⟩ := stays inside hs
    exact .step hs' (ih next)

theorem eq_nil_of_ends (ends : ∀ {u q}, ¬ move p u q) (h : Walks move p w r) : w = [] ∧ r = p := by
  cases h with
  | refl => exact ⟨rfl, rfl⟩
  | step hs _ => exact absurd hs ends

end Walks

namespace Nfa

variable {n : Nfa} {p r : Nat}

theorem row_eq_of_size_le {q : Nat} (h : n.size ≤ q) : n.row q = {} := by
  rw [row, Array.getElem?_eq_none h]
  rfl

theorem lt_size_of_mem_moves {move : Predicate × Nat} (h : move ∈ n.moves p) : p < n.size := by
  refine Nat.lt_of_not_le fun le => ?_
  rw [moves, n.row_eq_of_size_le le] at h
  cases h

theorem lt_size_of_mem_silent (h : r ∈ n.silent p) : p < n.size := by
  refine Nat.lt_of_not_le fun le => ?_
  rw [Nfa.silent, n.row_eq_of_size_le le] at h
  cases h

theorem Step.lt_size {u : List String} (h : n.Step p u r) : p < n.size ∧ r < n.size := by
  cases h with
  | silent h => exact ⟨lt_size_of_mem_silent h, n.silent_lt h⟩
  | reads h => exact ⟨lt_size_of_mem_moves h, n.moves_lt h⟩

theorem walks_nil : Walks n.Step p [] r ↔ Reaches n.silent p r := by
  constructor
  · intro h
    generalize eq : ([] : List String) = word at h
    induction h with
    | refl => exact .refl _
    | step hs _ ih =>
      cases hs with
      | silent hs => exact .step hs (ih eq)
      | reads => cases eq
  · intro h
    induction h with
    | refl => exact .refl _
    | step hs _ ih => exact .step (.silent hs) ih

theorem walks_cons {a : String} {w : List String} : Walks n.Step p (a :: w) r ↔
    ∃ s, Reaches n.silent p s ∧ ∃ move ∈ n.moves s, move.1 a = true ∧ Walks n.Step move.2 w r := by
  constructor
  · intro h
    generalize eq : a :: w = word at h
    induction h with
    | refl => cases eq
    | step hs rest ih =>
      cases hs with
      | silent hs =>
        obtain ⟨s, hr, more⟩ := ih eq
        exact ⟨s, .step hs hr, more⟩
      | reads hm accepted =>
        cases eq
        exact ⟨_, .refl _, _, hm, accepted, rest⟩
  · rintro ⟨s, hr, move, hm, accepted, rest⟩
    exact (walks_nil.mpr hr).trans (.step (.reads hm accepted) rest)

theorem mem_targets {S : IndexSet} {a : String} {t : Nat} : t ∈ n.targets S a ↔
    ∃ s ∈ S, ∃ move ∈ n.moves s, move.1 a = true ∧ move.2 = t := by
  rw [targets, List.mem_flatMap]
  constructor
  · rintro ⟨s, hs, ht⟩
    obtain ⟨move, hm, rfl⟩ := List.mem_map.mp ht
    obtain ⟨hm, accepted⟩ := List.mem_filter.mp hm
    exact ⟨s, IndexSet.mem_toList.mp hs, move, hm, accepted, rfl⟩
  · rintro ⟨s, hs, move, hm, accepted, rfl⟩
    exact ⟨s, IndexSet.mem_toList.mpr hs,
      List.mem_map.mpr ⟨move, List.mem_filter.mpr ⟨hm, accepted⟩, rfl⟩⟩

theorem mem_foldl_after {qs : List Nat} (h : ∀ q ∈ qs, q < n.size) (word : List String) :
    r ∈ word.foldl n.after (n.closure qs) ↔ ∃ q ∈ qs, Walks n.Step q word r := by
  induction word generalizing qs with
  | nil =>
    rw [List.foldl_nil, n.mem_closure h]
    simp only [walks_nil]
  | cons a word ih =>
    rw [List.foldl_cons, after, ih fun t ht => n.targets_lt ht]
    constructor
    · rintro ⟨t, ht, walks⟩
      obtain ⟨s, hs, move, hm, accepted, rfl⟩ := mem_targets.mp ht
      obtain ⟨q, hq, hr⟩ := (n.mem_closure h).mp hs
      exact ⟨q, hq, walks_cons.mpr ⟨s, hr, move, hm, accepted, walks⟩⟩
    · rintro ⟨q, hq, walks⟩
      obtain ⟨s, hr, move, hm, accepted, walks⟩ := walks_cons.mp walks
      have hs := (n.mem_closure h).mpr ⟨q, hq, hr⟩
      exact ⟨move.2, mem_targets.mpr ⟨s, hs, move, hm, accepted, rfl⟩, walks⟩

theorem mem_run (inhabited : 0 < n.size) (word : List String) :
    r ∈ n.run word ↔ Walks n.Step 0 word r := by
  rw [run, initial, mem_foldl_after (by simpa using inhabited)]
  simp

theorem row_addState (n : Nfa) (q : Nat) : n.addState.row q = n.row q := by
  unfold row addState
  rw [Array.getElem?_push]
  split
  · rename_i h
    simp [h]
  · rfl

theorem step_addState {u : List String} : n.addState.Step p u r ↔ n.Step p u r := by
  have silent : n.addState.silent p = n.silent p := congrArg Row.silent (n.row_addState p)
  have moves : n.addState.moves p = n.moves p := congrArg Row.moves (n.row_addState p)
  constructor
  · rintro (h | ⟨h, accepted⟩)
    · exact .silent (silent ▸ h)
    · exact .reads (moves ▸ h) accepted
  · rintro (h | ⟨h, accepted⟩)
    · exact .silent (silent ▸ h)
    · exact .reads (moves ▸ h) accepted

theorem step_markFinal {q : Nat} {u : List String} : (n.markFinal q).Step p u r ↔ n.Step p u r := by
  constructor
  · rintro (h | ⟨h, accepted⟩)
    · exact .silent h
    · exact .reads h accepted
  · rintro (h | ⟨h, accepted⟩)
    · exact .silent h
    · exact .reads h accepted

theorem size_setRow (n : Nfa) (q : Nat) (row : Row) (h : row.InRange n.size) :
    (n.setRow q row h).size = n.size := Array.size_setIfInBounds

theorem row_setRow (n : Nfa) {q : Nat} (hq : q < n.size) (row : Row) (h : row.InRange n.size)
    (s : Nat) : (n.setRow q row h).row s = if s = q then row else n.row s := by
  have hq' : q < n.rows.size := hq
  unfold Nfa.row setRow
  by_cases eq : q = s
  · subst eq
    simp [hq']
  · simp [eq, Ne.symm eq]

theorem size_addSilent (n : Nfa) (q t : Nat) : (n.addSilent q t).size = n.size := by
  unfold addSilent
  split
  · exact size_setRow ..
  · rfl

theorem finals_addSilent (n : Nfa) (q t : Nat) : (n.addSilent q t).finals = n.finals := by
  unfold addSilent
  split <;> rfl

theorem finals_addMove (n : Nfa) (q : Nat) (a : Predicate) (t : Nat) :
    (n.addMove q a t).finals = n.finals := by
  unfold addMove
  split <;> rfl

theorem row_addSilent {q t : Nat} (hq : q < n.size) (ht : t < n.size) (s : Nat) :
    (n.addSilent q t).row s = if s = q then ⟨n.moves q, n.silent q ++ [t]⟩ else n.row s := by
  rw [addSilent, dif_pos ht]
  exact n.row_setRow hq _ _ s

theorem row_addMove {q t : Nat} {a : Predicate} (hq : q < n.size) (ht : t < n.size) (s : Nat) :
    (n.addMove q a t).row s =
      if s = q then ⟨n.moves q ++ [(a, t)], n.silent q⟩ else n.row s := by
  rw [addMove, dif_pos ht]
  exact n.row_setRow hq _ _ s

theorem moves_addSilent {q t : Nat} (hq : q < n.size) (ht : t < n.size) (s : Nat) :
    (n.addSilent q t).moves s = n.moves s := by
  rw [Nfa.moves, row_addSilent hq ht]
  split
  · rename_i eq
    rw [eq]
  · rfl

theorem mem_silent_addSilent {q t : Nat} (hq : q < n.size) (ht : t < n.size) :
    r ∈ (n.addSilent q t).silent p ↔ r ∈ n.silent p ∨ p = q ∧ r = t := by
  rw [Nfa.silent, row_addSilent hq ht]
  split
  · rename_i eq
    simp [eq]
  · rename_i ne
    simp [ne, Nfa.silent]

theorem mem_moves_addMove {q t : Nat} {a : Predicate} (hq : q < n.size) (ht : t < n.size)
    {move : Predicate × Nat} :
    move ∈ (n.addMove q a t).moves p ↔ move ∈ n.moves p ∨ p = q ∧ move = (a, t) := by
  rw [Nfa.moves, row_addMove hq ht]
  split
  · rename_i eq
    simp [eq]
  · rename_i ne
    simp [ne, Nfa.moves]

theorem step_addSilent {q t : Nat} (hq : q < n.size) (ht : t < n.size) {u : List String} :
    (n.addSilent q t).Step p u r ↔ n.Step p u r ∨ p = q ∧ u = [] ∧ r = t := by
  have moves := n.moves_addSilent hq ht p
  constructor
  · rintro (h | ⟨h, accepted⟩)
    · rcases (mem_silent_addSilent hq ht).mp h with h | ⟨source, target⟩
      · exact .inl (.silent h)
      · exact .inr ⟨source, rfl, target⟩
    · exact .inl (.reads (moves ▸ h) accepted)
  · rintro ((h | ⟨h, accepted⟩) | ⟨source, rfl, target⟩)
    · exact .silent ((mem_silent_addSilent hq ht).mpr (.inl h))
    · exact .reads (moves ▸ h) accepted
    · exact .silent ((mem_silent_addSilent hq ht).mpr (.inr ⟨source, target⟩))

theorem step_addMove {q t : Nat} {a : Predicate} (hq : q < n.size) (ht : t < n.size)
    {u : List String} : (n.addMove q a t).Step p u r ↔
      n.Step p u r ∨ p = q ∧ (∃ name, a name = true ∧ u = [name]) ∧ r = t := by
  have silent : (n.addMove q a t).silent p = n.silent p := by rw [Simulation.silent_addMove]
  constructor
  · rintro (h | ⟨h, accepted⟩)
    · exact .inl (.silent (silent ▸ h))
    · rcases (mem_moves_addMove hq ht).mp h with h | ⟨at', rfl⟩
      · exact .inl (.reads h accepted)
      · exact .inr ⟨at', ⟨_, accepted, rfl⟩, rfl⟩
  · rintro ((h | ⟨h, accepted⟩) | ⟨at', ⟨name, accepted, rfl⟩, rfl⟩)
    · exact .silent (silent ▸ h)
    · exact .reads ((mem_moves_addMove hq ht).mpr (.inl h)) accepted
    · have entry : (a, r) ∈ (n.addMove q a r).moves p := (mem_moves_addMove hq ht).mpr (.inr ⟨at', rfl⟩)
      exact .reads entry accepted

end Nfa

end CallAtlas
