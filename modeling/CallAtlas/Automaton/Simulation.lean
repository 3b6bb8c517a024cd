import CallAtlas.Automaton.Nfa
/-!
A nondeterministic automaton that is run and built by turns, and that remembers the silent closures it
has computed. Main statement: `closure_eq`, remembering changes no answer.
-/
namespace CallAtlas

/-- An automaton with the closures known so far. -/
structure Simulation where
  nfa : Nfa := .empty
  /-- closures of single states, by state -/
  memo : List (Nat × IndexSet) := []
  memo_sound : ∀ e ∈ memo, e.1 < nfa.size ∧ ∀ r, r ∈ e.2 ↔ Reaches nfa.silent e.1 r := by
    intro e h; simp at h

namespace Simulation

def ofNfa (n : Nfa) : Simulation := { nfa := n }

def empty : Simulation := ofNfa .empty

instance : Inhabited Simulation := ⟨empty⟩

theorem silent_addState (n : Nfa) : n.addState.silent = n.silent := by
  funext q
  unfold Nfa.silent Nfa.row Nfa.addState
  rw [Array.getElem?_push]
  split
  · rename_i h
    simp [h]
  · rfl

theorem size_addState (n : Nfa) : n.addState.size = n.size + 1 := by
  simp [Nfa.addState, Nfa.size]

theorem size_addMove (n : Nfa) (q : Nat) (p : Predicate) (t : Nat) :
    (n.addMove q p t).size = n.size := by
  unfold Nfa.addMove Nfa.setRow
  split <;> simp [Nfa.size]

theorem silent_addMove (n : Nfa) (q : Nat) (p : Predicate) (t : Nat) :
    (n.addMove q p t).silent = n.silent := by
  funext r
  unfold Nfa.addMove
  split
  · simp only [Nfa.silent, Nfa.row, Nfa.setRow, Array.getElem?_setIfInBounds]
    by_cases h : q = r
    · subst h
      by_cases hq : q < n.rows.size <;> simp [hq]
    · simp [h]
  · rfl

def addState (s : Simulation) : Simulation where
  nfa := s.nfa.addState
  memo := s.memo
  memo_sound := by
    intro e h
    rw [silent_addState, size_addState]
    exact ⟨Nat.lt_succ_of_lt (s.memo_sound e h).1, (s.memo_sound e h).2⟩

def addMove (s : Simulation) (q : Nat) (p : Predicate) (t : Nat) : Simulation where
  nfa := s.nfa.addMove q p t
  memo := s.memo
  memo_sound := by
    intro e h
    rw [silent_addMove, size_addMove]
    exact s.memo_sound e h

def addSilent (s : Simulation) (q t : Nat) : Simulation := ofNfa (s.nfa.addSilent q t)

def markFinal (s : Simulation) (q : Nat) : Simulation where
  nfa := s.nfa.markFinal q
  memo := s.memo
  memo_sound := s.memo_sound

/-- The states that an edge needs; the target is looked at first. -/
def checkEdge (s : Simulation) (q t : Nat) : Except MissingState Unit :=
  if s.nfa.size ≤ t then .error (.target t)
  else if s.nfa.size ≤ q then .error (.source q)
  else .ok ()

def addMove? (s : Simulation) (q : Nat) (p : Predicate) (t : Nat) :
    Except MissingState Simulation := do
  s.checkEdge q t
  return s.addMove q p t

def addSilent? (s : Simulation) (q t : Nat) : Except MissingState Simulation := do
  s.checkEdge q t
  return s.addSilent q t

def markFinal? (s : Simulation) (q : Nat) : Except MissingState Simulation :=
  if s.nfa.size ≤ q then .error (.target q) else .ok (s.markFinal q)

def remember (s : Simulation) (q : Nat) (S : IndexSet) (hq : q < s.nfa.size)
    (hS : S = s.nfa.closure [q]) : Simulation where
  nfa := s.nfa
  memo := (q, S) :: s.memo
  memo_sound := by
    intro e h
    rcases List.mem_cons.mp h with rfl | h
    · refine ⟨hq, fun r => ?_⟩
      rw [hS, s.nfa.mem_closure (by simpa using hq)]
      simp
    · exact s.memo_sound e h

/-- The closure of one state, looked up if it is known. A state that is not there has none. -/
def closure (s : Simulation) (q : Nat) : IndexSet × Simulation :=
  if hq : q < s.nfa.size then
    match s.memo.lookup q with
    | some known => (known, s)
    | none =>
      let S := s.nfa.closure [q]
      (S, s.remember q S hq rfl)
  else (∅, s)

def closure? (s : Simulation) (q : Nat) : Except MissingState (IndexSet × Simulation) :=
  if s.nfa.size ≤ q then .error (.source q) else .ok (s.closure q)

def closeAll (s : Simulation) : List Nat → IndexSet × Simulation
  | [] => (∅, s)
  | q :: qs =>
    let (here, s) := s.closure q
    let (rest, s) := s.closeAll qs
    (here ∪ rest, s)

instance : Automaton Simulation IndexSet where
  start s := s.closeAll [0]
  step s S a := s.closeAll (s.nfa.targets S a)
  accepts s S := s.nfa.accepting S
  dead _ S := S.isEmpty

theorem mem_of_lookup {memo : List (Nat × IndexSet)} {q : Nat} {S : IndexSet}
    (h : memo.lookup q = some S) : (q, S) ∈ memo := by
  induction memo with
  | nil => simp at h
  | cons e memo ih =>
    obtain ⟨p, T⟩ := e
    by_cases eq : q = p
    · subst eq
      simp_all
    · simp only [List.lookup_cons, beq_false_of_ne eq] at h
      exact List.mem_cons_of_mem _ (ih h)

@[simp] theorem closure_nfa (s : Simulation) (q : Nat) : (s.closure q).2.nfa = s.nfa := by
  unfold closure
  split
  · split <;> rfl
  · rfl

theorem closure_eq (s : Simulation) {q : Nat} (hq : q < s.nfa.size) :
    (s.closure q).1 = s.nfa.closure [q] := by
  unfold closure
  rw [dif_pos hq]
  split
  · rename_i known h
    ext r
    rw [(s.memo_sound _ (mem_of_lookup h)).2 r, s.nfa.mem_closure (by simpa using hq)]
    simp
  · rfl

@[simp] theorem closeAll_nfa (s : Simulation) (qs : List Nat) :
    (s.closeAll qs).2.nfa = s.nfa := by
  induction qs generalizing s with
  | nil => rfl
  | cons q qs ih => simp [closeAll, ih]

theorem closeAll_eq (s : Simulation) {qs : List Nat} (h : ∀ q ∈ qs, q < s.nfa.size) :
    (s.closeAll qs).1 = s.nfa.closure qs := by
  induction qs generalizing s with
  | nil =>
    ext r
    simp [closeAll, Nfa.closure, walk]
  | cons q qs ih =>
    have tail := ih (s := (s.closure q).2) (by
      rw [closure_nfa]
      exact fun p hp => h p (by simp [hp]))
    simp only [closeAll, tail, closure_nfa, s.closure_eq (h q (by simp))]
    rw [s.nfa.closure_cons h]

end Simulation

end CallAtlas
