import CallAtlas.Proofs.Automaton.Walks
import Mathlib.Data.List.Forall2
import Mathlib.Logic.Relation
/-!
Machines that are built, copied and asked by turns, while each remembers the closures it has computed. A
blueprint lists the moves that a machine was given and nothing else; it says which reply is owed. Main
statements: `Builds.serve` and `owes_serve`, one request keeps a machine with its blueprint and gets what is
owed, and `replies_without_memory`, the same after any requests to a machine and its clones.
-/
namespace CallAtlas

inductive Request where
  | addState
  | addMove (q : Nat) (p : Predicate) (t : Nat)
  | addSilent (q t : Nat)
  | markFinal (q : Nat)
  | clone
  | start
  | closure (q : Nat)
  | step (S : IndexSet) (a : String)

inductive Reply where
  | done
  | state (q : Nat)
  | states (S : IndexSet)
  | refused (missing : MissingState)
deriving DecidableEq, Repr

structure Blueprint where
  size : Nat
  moves : List (Nat × Predicate × Nat)
  silent : List (Nat × Nat)

namespace Blueprint

variable {b : Blueprint} {n : Nfa} {request : Request} {reply reply' : Reply}
  {missing missing' : MissingState} {q r t : Nat}

def ofNfa (n : Nfa) : Blueprint where
  size := n.size
  moves := (List.range n.size).flatMap fun q => (n.moves q).map (q, ·)
  silent := (List.range n.size).flatMap fun q => (n.silent q).map (q, ·)

/-- A move between states that are there is noted, any other is not. -/
def changed (b : Blueprint) : Request → Blueprint
  | .addState => { b with size := b.size + 1 }
  | .addMove q p t => if q < b.size ∧ t < b.size then { b with moves := (q, p, t) :: b.moves } else b
  | .addSilent q t => if q < b.size ∧ t < b.size then { b with silent := (q, t) :: b.silent } else b
  | .markFinal _ | .clone | .start | .closure _ | .step _ _ => b

def Leads (b : Blueprint) : Nat → Nat → Prop := Relation.ReflTransGen fun q t => (q, t) ∈ b.silent

/-- The first state that a request needs and the machine does not have: a target is looked for before a
source, and of a set the least one is named. -/
inductive Lacks (b : Blueprint) : Request → MissingState → Prop
  | moveTarget {q t : Nat} {p : Predicate} (h : b.size ≤ t) : Lacks b (.addMove q p t) (.target t)
  | moveSource {q t : Nat} {p : Predicate} (ht : t < b.size) (h : b.size ≤ q) :
    Lacks b (.addMove q p t) (.source q)
  | silentTarget {q t : Nat} (h : b.size ≤ t) : Lacks b (.addSilent q t) (.target t)
  | silentSource {q t : Nat} (ht : t < b.size) (h : b.size ≤ q) : Lacks b (.addSilent q t) (.source q)
  | final {q : Nat} (h : b.size ≤ q) : Lacks b (.markFinal q) (.target q)
  | closure {q : Nat} (h : b.size ≤ q) : Lacks b (.closure q) (.source q)
  | step {q : Nat} {S : IndexSet} {a : String} (mem : q ∈ S) (h : b.size ≤ q)
    (least : ∀ p ∈ S, p < q → p < b.size) : Lacks b (.step S a) (.source q)

/-- The reply to a request. A closure is where silent moves lead; a step leads to the closures of the states
that moves on the name enter. -/
inductive Owes (b : Blueprint) : Request → Reply → Prop
  | addState : Owes b .addState (.state b.size)
  | addMove {q t : Nat} {p : Predicate} (hq : q < b.size) (ht : t < b.size) :
    Owes b (.addMove q p t) .done
  | addSilent {q t : Nat} (hq : q < b.size) (ht : t < b.size) : Owes b (.addSilent q t) .done
  | markFinal {q : Nat} (hq : q < b.size) : Owes b (.markFinal q) .done
  | clone : Owes b .clone .done
  | start {S : IndexSet} (h : ∀ r, r ∈ S ↔ 0 < b.size ∧ b.Leads 0 r) : Owes b .start (.states S)
  | closure {q : Nat} {S : IndexSet} (hq : q < b.size) (h : ∀ r, r ∈ S ↔ b.Leads q r) :
    Owes b (.closure q) (.states S)
  | step {S T : IndexSet} {a : String} (hS : S.Below b.size)
    (h : ∀ r, r ∈ T ↔ ∃ q ∈ S, ∃ p t, (q, p, t) ∈ b.moves ∧ p a = true ∧ b.Leads t r) :
    Owes b (.step S a) (.states T)
  | refused {request : Request} {missing : MissingState} (h : b.Lacks request missing) :
    Owes b request (.refused missing)

theorem Lacks.unique (h : b.Lacks request missing) (h' : b.Lacks request missing') :
    missing = missing' := by
  cases h with
  | moveTarget h =>
    cases h' with
    | moveTarget => rfl
    | moveSource ht => omega
  | moveSource ht h =>
    cases h' with
    | moveTarget h' => omega
    | moveSource => rfl
  | silentTarget h =>
    cases h' with
    | silentTarget => rfl
    | silentSource ht => omega
  | silentSource ht h =>
    cases h' with
    | silentTarget h' => omega
    | silentSource => rfl
  | final h =>
    cases h'
    rfl
  | closure h =>
    cases h'
    rfl
  | step mem h least =>
    cases h' with
    | step mem' h' least' =>
      have first := least _ mem'
      have first' := least' _ mem
      exact congrArg MissingState.source (by omega)

theorem Lacks.reply_eq (lacks : b.Lacks request missing) (h : b.Owes request reply) :
    reply = .refused missing := by
  cases h with
  | addState => cases lacks
  | addMove hq ht => cases lacks <;> omega
  | addSilent hq ht => cases lacks <;> omega
  | markFinal hq =>
    cases lacks
    omega
  | clone => cases lacks
  | start h => cases lacks
  | closure hq h =>
    cases lacks
    omega
  | step hS h =>
    cases lacks with
    | step mem le least => exact absurd (hS _ mem) (Nat.not_lt_of_le le)
  | refused lacks' => rw [lacks.unique lacks']

theorem Owes.unique (h : b.Owes request reply) (h' : b.Owes request reply') : reply = reply' := by
  cases h' with
  | refused lacks => exact lacks.reply_eq h
  | addState =>
    cases h with
    | addState => rfl
    | refused lacks => cases lacks
  | addMove hq ht =>
    cases h with
    | addMove => rfl
    | refused lacks => exact (lacks.reply_eq (.addMove hq ht)).symm
  | addSilent hq ht =>
    cases h with
    | addSilent => rfl
    | refused lacks => exact (lacks.reply_eq (.addSilent hq ht)).symm
  | markFinal hq =>
    cases h with
    | markFinal => rfl
    | refused lacks => exact (lacks.reply_eq (.markFinal hq)).symm
  | clone =>
    cases h with
    | clone => rfl
    | refused lacks => cases lacks
  | start mem' =>
    cases h with
    | start mem => exact congrArg Reply.states (IndexSet.ext fun r => (mem r).trans (mem' r).symm)
    | refused lacks => cases lacks
  | closure hq mem' =>
    cases h with
    | closure _ mem => exact congrArg Reply.states (IndexSet.ext fun r => (mem r).trans (mem' r).symm)
    | refused lacks => exact (lacks.reply_eq (.closure hq mem')).symm
  | step hS mem' =>
    cases h with
    | step _ mem => exact congrArg Reply.states (IndexSet.ext fun r => (mem r).trans (mem' r).symm)
    | refused lacks => exact (lacks.reply_eq (.step hS mem')).symm

structure Builds (b : Blueprint) (n : Nfa) : Prop where
  size_eq : n.size = b.size
  mem_moves : ∀ {q p t}, (p, t) ∈ n.moves q ↔ (q, p, t) ∈ b.moves
  mem_silent : ∀ {q t}, t ∈ n.silent q ↔ (q, t) ∈ b.silent

theorem builds_ofNfa (n : Nfa) : (ofNfa n).Builds n where
  size_eq := rfl
  mem_moves {q p t} := by
    simp only [ofNfa, List.mem_flatMap, List.mem_range, List.mem_map]
    constructor
    · exact fun h => ⟨q, Nfa.lt_size_of_mem_moves h, (p, t), h, rfl⟩
    · rintro ⟨_, -, _, h, eq⟩
      cases eq
      exact h
  mem_silent {q t} := by
    simp only [ofNfa, List.mem_flatMap, List.mem_range, List.mem_map]
    constructor
    · exact fun h => ⟨q, Nfa.lt_size_of_mem_silent h, t, h, rfl⟩
    · rintro ⟨_, -, _, h, eq⟩
      cases eq
      exact h

namespace Builds

theorem addState (h : b.Builds n) : (b.changed .addState).Builds n.addState where
  size_eq := by rw [Simulation.size_addState, h.size_eq]; rfl
  mem_moves {q p t} := by
    rw [Nfa.moves, n.row_addState]
    exact h.mem_moves
  mem_silent {q t} := by
    rw [Simulation.silent_addState]
    exact h.mem_silent

theorem addMove (h : b.Builds n) (hq : q < n.size) (ht : t < n.size) (p : Predicate) :
    (b.changed (.addMove q p t)).Builds (n.addMove q p t) := by
  rw [changed, if_pos (by rw [← h.size_eq]; exact ⟨hq, ht⟩)]
  refine ⟨?_, fun {source p' target} => ?_, fun {source target} => ?_⟩
  · rw [Simulation.size_addMove, h.size_eq]
  · rw [Nfa.mem_moves_addMove hq ht, h.mem_moves, or_comm]
    simp only [List.mem_cons, Prod.mk.injEq]
  · rw [Simulation.silent_addMove]
    exact h.mem_silent

theorem addSilent (h : b.Builds n) (hq : q < n.size) (ht : t < n.size) :
    (b.changed (.addSilent q t)).Builds (n.addSilent q t) := by
  rw [changed, if_pos (by rw [← h.size_eq]; exact ⟨hq, ht⟩)]
  refine ⟨?_, fun {source p target} => ?_, fun {source target} => ?_⟩
  · rw [n.size_addSilent, h.size_eq]
  · rw [n.moves_addSilent hq ht]
    exact h.mem_moves
  · rw [Nfa.mem_silent_addSilent hq ht, h.mem_silent, List.mem_cons, Prod.mk.injEq, or_comm]

theorem reaches_iff (h : b.Builds n) : Reaches n.silent q r ↔ b.Leads q r := by
  constructor
  · intro reaches
    induction reaches with
    | refl => exact .refl
    | step edge _ ih => exact .head (h.mem_silent.mp edge) ih
  · intro leads
    induction leads using Relation.ReflTransGen.head_induction_on with
    | refl => exact .refl _
    | head edge _ ih => exact .step (h.mem_silent.mpr edge) ih

theorem mem_initial (h : b.Builds n) : r ∈ n.initial ↔ 0 < b.size ∧ b.Leads 0 r := by
  rw [← h.size_eq, ← h.reaches_iff]
  by_cases inhabited : 0 < n.size
  · rw [Nfa.initial, n.mem_closure (by simpa using inhabited)]
    simp [inhabited]
  · refine iff_of_false (fun mem => ?_) fun leads => inhabited leads.1
    have := n.closure_below _ r mem
    omega

theorem mem_closure (h : b.Builds n) (hq : q < n.size) : r ∈ n.closure [q] ↔ b.Leads q r := by
  rw [n.mem_closure (by simpa using hq), ← h.reaches_iff]
  simp

theorem mem_after (h : b.Builds n) {S : IndexSet} {a : String} : r ∈ n.after S a ↔
    ∃ q ∈ S, ∃ p t, (q, p, t) ∈ b.moves ∧ p a = true ∧ b.Leads t r := by
  rw [Nfa.after, n.mem_closure fun t ht => n.targets_lt ht]
  constructor
  · rintro ⟨t, ht, reaches⟩
    obtain ⟨q, hq, ⟨p, t⟩, hm, accepted, rfl⟩ := Nfa.mem_targets.mp ht
    exact ⟨q, hq, p, t, h.mem_moves.mp hm, accepted, h.reaches_iff.mp reaches⟩
  · rintro ⟨q, hq, p, t, hm, accepted, leads⟩
    exact ⟨t, Nfa.mem_targets.mpr ⟨q, hq, (p, t), h.mem_moves.mpr hm, accepted, rfl⟩,
      h.reaches_iff.mpr leads⟩

end Builds

end Blueprint

theorem IndexSet.le_of_find? {S : IndexSet} {f : Nat → Bool} {p q : Nat} (found : S.toList.find? f = some q)
    (mem : p ∈ S) (holds : f p = true) : q ≤ p := by
  obtain ⟨-, before, behind, eq, others⟩ := List.find?_eq_some_iff_append.mp found
  have ascending := S.pairwise_lt_toList
  have mem' := mem_toList.mpr mem
  rw [eq] at ascending mem'
  rcases List.mem_append.mp mem' with early | late
  · simpa [holds] using others p early
  · rcases List.mem_cons.mp late with rfl | late
    · exact Nat.le_refl _
    · have apart := (List.pairwise_append.mp ascending).2.1
      exact Nat.le_of_lt (List.rel_of_pairwise_cons apart late)

namespace Simulation

/-- A step from a set of states; the least of them that is missing is named. -/
def step? (s : Simulation) (S : IndexSet) (a : String) : Except MissingState (IndexSet × Simulation) :=
  match S.toList.find? (s.nfa.size ≤ ·) with
  | none => .ok (Automaton.step s S a)
  | some q => .error (.source q)

def build (s : Simulation) : Except MissingState Simulation → Reply × Simulation
  | .ok s' => (.done, s')
  | .error missing => (.refused missing, s)

def tell (s : Simulation) : Except MissingState (IndexSet × Simulation) → Reply × Simulation
  | .ok (S, s') => (.states S, s')
  | .error missing => (.refused missing, s)

/-- The reply to a request, and the machine afterwards. A request that is refused leaves it as it was. -/
def serve (s : Simulation) : Request → Reply × Simulation
  | .addState => (.state s.nfa.size, s.addState)
  | .addMove q p t => s.build (s.addMove? q p t)
  | .addSilent q t => s.build (s.addSilent? q t)
  | .markFinal q => s.build (s.markFinal? q)
  | .clone => (.done, s)
  | .start => s.tell (.ok (Automaton.start s))
  | .closure q => s.tell (s.closure? q)
  | .step S a => s.tell (s.step? S a)

theorem checkEdge_cases (s : Simulation) (q t : Nat) :
    s.nfa.size ≤ t ∧ s.checkEdge q t = .error (.target t) ∨
      t < s.nfa.size ∧ s.nfa.size ≤ q ∧ s.checkEdge q t = .error (.source q) ∨
      t < s.nfa.size ∧ q < s.nfa.size ∧ s.checkEdge q t = .ok () := by
  unfold checkEdge
  split
  · exact .inl ⟨‹_›, rfl⟩
  · split
    · exact .inr (.inl ⟨by omega, ‹_›, rfl⟩)
    · exact .inr (.inr ⟨by omega, by omega, rfl⟩)

/-- Every request gets the reply that is owed, whatever the machine remembers. -/
theorem owes_serve {b : Blueprint} {s : Simulation} (h : b.Builds s.nfa) (request : Request) :
    b.Owes request (s.serve request).1 := by
  have size := h.size_eq
  cases request with
  | addState =>
    rw [serve, size]
    exact .addState
  | addMove q p t =>
    rw [serve, addMove?]
    rcases s.checkEdge_cases q t with ⟨ht, check⟩ | ⟨ht, hq, check⟩ | ⟨ht, hq, check⟩ <;> rw [check]
    · exact .refused (.moveTarget (size ▸ ht))
    · exact .refused (.moveSource (size ▸ ht) (size ▸ hq))
    · exact .addMove (size ▸ hq) (size ▸ ht)
  | addSilent q t =>
    rw [serve, addSilent?]
    rcases s.checkEdge_cases q t with ⟨ht, check⟩ | ⟨ht, hq, check⟩ | ⟨ht, hq, check⟩ <;> rw [check]
    · exact .refused (.silentTarget (size ▸ ht))
    · exact .refused (.silentSource (size ▸ ht) (size ▸ hq))
    · exact .addSilent (size ▸ hq) (size ▸ ht)
  | markFinal q =>
    rw [serve, markFinal?]
    split
    · exact .refused (.final (by omega))
    · exact .markFinal (by omega)
  | clone => exact .clone
  | start =>
    show b.Owes .start (.states (Automaton.start s).1)
    rw [s.start_eq]
    exact .start fun r => h.mem_initial
  | closure q =>
    rw [serve, closure?]
    split
    · exact .refused (.closure (by omega))
    · have hq : q < s.nfa.size := by omega
      show b.Owes (.closure q) (.states (s.closure q).1)
      rw [s.closure_eq hq]
      exact .closure (by omega) fun r => h.mem_closure hq
  | step S a =>
    rw [serve, step?]
    split
    · rename_i missing
      show b.Owes (.step S a) (.states (Automaton.step s S a).1)
      rw [OnDemand.step_eq]
      refine .step (fun q mem => ?_) fun r => h.mem_after
      rw [← size]
      simpa using List.find?_eq_none.mp missing q (IndexSet.mem_toList.mpr mem)
    · rename_i q found
      have mem := IndexSet.mem_toList.mp (List.mem_of_find?_eq_some found)
      have beyond : s.nfa.size ≤ q := by simpa using List.find?_some found
      refine .refused (.step mem (size ▸ beyond) fun p mem' lt => Nat.lt_of_not_le fun le => ?_)
      exact Nat.not_le_of_lt lt (IndexSet.le_of_find? found mem' (decide_eq_true (size ▸ le)))

end Simulation

theorem Blueprint.Builds.serve {b : Blueprint} {s : Simulation} (h : b.Builds s.nfa) (request : Request) :
    (b.changed request).Builds (s.serve request).2.nfa := by
  have size := h.size_eq
  cases request with
  | addState => exact h.addState
  | addMove q p t =>
    rw [Simulation.serve, Simulation.addMove?]
    rcases s.checkEdge_cases q t with ⟨ht, check⟩ | ⟨-, hq, check⟩ | ⟨ht, hq, check⟩ <;> rw [check]
    · rw [changed, if_neg (by omega)]
      exact h
    · rw [changed, if_neg (by omega)]
      exact h
    · exact h.addMove hq ht p
  | addSilent q t =>
    rw [Simulation.serve, Simulation.addSilent?]
    rcases s.checkEdge_cases q t with ⟨ht, check⟩ | ⟨-, hq, check⟩ | ⟨ht, hq, check⟩ <;> rw [check]
    · rw [changed, if_neg (by omega)]
      exact h
    · rw [changed, if_neg (by omega)]
      exact h
    · exact h.addSilent hq ht
  | markFinal q =>
    rw [Simulation.serve, Simulation.markFinal?]
    split
    · exact h
    · exact ⟨h.size_eq, h.mem_moves, h.mem_silent⟩
  | clone => exact h
  | start =>
    show b.Builds (Automaton.start s).2.nfa
    rwa [show (Automaton.start s).2.nfa = s.nfa from s.closeAll_nfa _]
  | closure q =>
    rw [Simulation.serve, Simulation.closure?]
    split
    · exact h
    · show b.Builds (s.closure q).2.nfa
      rwa [s.closure_nfa]
  | step S a =>
    rw [Simulation.serve, Simulation.step?]
    split
    · show b.Builds (Automaton.step s S a).2.nfa
      rwa [OnDemand.step_nfa]
    · exact h

/-- Let one of several machines serve a request; a clone of it is put behind the others. Without such a
machine nothing happens. -/
def serveAt {M : Type} (serve : M → Request → M) (machines : List M) (call : Nat × Request) : List M :=
  match machines[call.1]?, call.2 with
  | none, _ => machines
  | some m, .clone => machines ++ [m]
  | some m, request => machines.set call.1 (serve m request)

section

variable {M M' : Type} {R : M → M' → Prop} {machines : List M} {machines' : List M'}

theorem rel_getElem? (h : List.Forall₂ R machines machines') (i : Nat) :
    Option.Rel R machines[i]? machines'[i]? := by
  induction h generalizing i with
  | nil => exact .none
  | cons head _ ih =>
    cases i with
    | zero => exact .some head
    | succ i => exact ih i

theorem forall₂_set {m : M} {m' : M'} (h : List.Forall₂ R machines machines') (rel : R m m') (i : Nat) :
    List.Forall₂ R (machines.set i m) (machines'.set i m') := by
  induction h generalizing i with
  | nil => exact .nil
  | cons head tail ih =>
    cases i with
    | zero => exact .cons rel tail
    | succ i => exact .cons head (ih i)

variable {serve : M → Request → M} {serve' : M' → Request → M'}

/-- What holds of two machines and is kept when both serve a request holds of their clones too. -/
theorem forall₂_serveAt (keeps : ∀ {m m'}, R m m' → ∀ request, R (serve m request) (serve' m' request))
    (h : List.Forall₂ R machines machines') (call : Nat × Request) :
    List.Forall₂ R (serveAt serve machines call) (serveAt serve' machines' call) := by
  obtain ⟨i, request⟩ := call
  have found := rel_getElem? h i
  simp only [serveAt]
  generalize machines[i]? = here at found ⊢
  generalize machines'[i]? = here' at found ⊢
  cases found with
  | none => exact h
  | some rel =>
    cases request with
    | clone => exact List.rel_append h (.cons rel .nil)
    | _ => exact forall₂_set h (keeps rel _) i

theorem forall₂_foldl_serveAt
    (keeps : ∀ {m m'}, R m m' → ∀ request, R (serve m request) (serve' m' request))
    (h : List.Forall₂ R machines machines') (calls : List (Nat × Request)) :
    List.Forall₂ R (calls.foldl (serveAt serve) machines) (calls.foldl (serveAt serve') machines') := by
  induction calls generalizing machines machines' with
  | nil => exact h
  | cons call calls ih => exact ih (forall₂_serveAt keeps h call)

end

/-- After any calls to a machine and its clones each of them replies to whatever comes next as the moves it
was given ask for, and as a machine with these moves does that remembers nothing. -/
theorem Simulation.replies_without_memory (s : Simulation) (calls : List (Nat × Request)) :
    List.Forall₂
      (fun (b : Blueprint) (m : Simulation) => ∀ request,
        b.Owes request (m.serve request).1 ∧ (m.serve request).1 = ((ofNfa m.nfa).serve request).1)
      (calls.foldl (serveAt Blueprint.changed) [.ofNfa s.nfa])
      (calls.foldl (serveAt fun m request => (m.serve request).2) [s]) := by
  have built : List.Forall₂ (fun (b : Blueprint) (m : Simulation) => b.Builds m.nfa) [.ofNfa s.nfa] [s] :=
    .cons (Blueprint.builds_ofNfa s.nfa) .nil
  refine (forall₂_foldl_serveAt Blueprint.Builds.serve built calls).imp fun b m h request => ?_
  have owed := m.owes_serve h request
  have owed' := (ofNfa m.nfa).owes_serve h request
  exact ⟨owed, owed.unique owed'⟩

/-- A closure is asked for before a silent move is added and after it; the clone made in between keeps
the first one. -/
example :
    let calls := [(0, .addState), (0, .addState), (0, .closure 0), (0, .clone), (0, .addSilent 0 1)]
    let machines := calls.foldl (serveAt fun m request => (m.serve request).2) [Simulation.empty]
    machines.map (fun m => (m.serve (.closure 0)).1) =
      [.states (.ofList [0, 1]), .states (.ofList [0])] := by
  cbv

end CallAtlas
