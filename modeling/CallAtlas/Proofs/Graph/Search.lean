import CallAtlas.Proofs.Automaton.Interpretation
import CallAtlas.Proofs.Graph.Paths
/-!
What a search finds. Each level of its stack stands for the continuations it has not tried yet, and a
move either drops a continuation that is not accepted or yields the first one that is. Main statements:
`Search.answers_move` for one move and `Search.drain_eq` for all of them.
-/
namespace CallAtlas

open Automaton (Interpretation)

variable {g : Graph} {scope : Scope} {M σ : Type}

namespace Frame

/-- The paths that frames may still lead to, oldest node first. -/
def pending (g : Graph) (scope : Scope) : List (Frame σ) → List (List Nat)
  | [] => []
  | frame :: below =>
    (g.continuations scope (.ofList (nodes (frame :: below))) frame.node frame.candidates).map
      ((nodes (frame :: below)).reverse ++ ·) ++ pending g scope below

/-- Every frame holds a state that stands for the names of the path up to it. -/
def InStep (g : Graph) (Stands : M → σ → List String → Prop) (machine : M) :
    List (Frame σ) → Prop
  | [] => True
  | frame :: below =>
    Stands machine frame.state ((nodes (frame :: below)).reverse.map g.displayAt) ∧
      InStep g Stands machine below

theorem pending_skip {visited : IndexSet} {last : Option Nat} {state : σ} {i : Nat} {rest : List Nat}
    {below : List (Frame σ)} (eq : visited = .ofList (nodes (⟨last, state, rest⟩ :: below)))
    (h : ¬ (i ∉ visited ∧ g.allows scope last i = true)) :
    pending g scope (⟨last, state, i :: rest⟩ :: below) =
      pending g scope (⟨last, state, rest⟩ :: below) := by
  rw [pending, pending]
  show (g.continuations scope (.ofList (nodes (⟨last, state, rest⟩ :: below))) last (i :: rest)).map
    ((nodes (⟨last, state, rest⟩ :: below)).reverse ++ ·) ++ _ = _
  rw [← eq, Graph.continuations_skip h]

theorem pending_enter {visited : IndexSet} {last : Option Nat} {state : σ} {i : Nat} {rest : List Nat}
    {below : List (Frame σ)} (eq : visited = .ofList (nodes (⟨last, state, rest⟩ :: below)))
    (h : i ∉ visited ∧ g.allows scope last i = true) (state' : σ) :
    pending g scope (⟨last, state, i :: rest⟩ :: below) =
      (i :: nodes (⟨last, state, rest⟩ :: below)).reverse ::
        pending g scope (⟨some i, state', g.calleesAt i⟩ :: ⟨last, state, rest⟩ :: below) := by
  have next : visited.insert i =
      .ofList (nodes (⟨some i, state', g.calleesAt i⟩ :: ⟨last, state, rest⟩ :: below)) := by
    ext q
    rw [eq]
    simp [nodes]
  have here : nodes (⟨some i, state', g.calleesAt i⟩ :: ⟨last, state, rest⟩ :: below) =
      i :: nodes (⟨last, state, rest⟩ :: below) := rfl
  have split := Graph.continuations_enter h rest
  rw [pending, pending, pending, ← next, ← eq, here]
  show (g.continuations scope (.ofList (nodes (⟨last, state, rest⟩ :: below))) last (i :: rest)).map
    ((nodes (⟨last, state, rest⟩ :: below)).reverse ++ ·) ++ _ = _
  rw [← eq, split]
  simp [Function.comp_def]

theorem filter_pending_of_refused {language : List String → Bool} {frame : Frame σ}
    {below : List (Frame σ)}
    (h : ∀ rest, language ((nodes (frame :: below)).reverse.map g.displayAt ++ rest) = false) :
    ((pending g scope (frame :: below)).filter fun path => language (path.map g.displayAt)) =
      (pending g scope below).filter fun path => language (path.map g.displayAt) := by
  have none : (((g.continuations scope (.ofList (nodes (frame :: below))) frame.node
      frame.candidates).map ((nodes (frame :: below)).reverse ++ ·)).filter fun path =>
        language (path.map g.displayAt)) = [] := by
    rw [List.filter_eq_nil_iff]
    intro path hp
    obtain ⟨rest, -, rfl⟩ := List.mem_map.mp hp
    rw [List.map_append, h]
    exact Bool.false_ne_true
  rw [pending, List.filter_append, none, List.nil_append]

theorem InStep.step [Automaton M σ] {m₀ : M} {language : List String → Bool}
    {Stands : M → σ → List String → Prop} (meaning : Interpretation m₀ language Stands) {m : M}
    {s : σ} {word : List String} (h : Stands m s word) (a : String) {frames : List (Frame σ)}
    (hf : InStep g Stands m frames) : InStep g Stands (Automaton.step m s a).2 frames := by
  induction frames with
  | nil => trivial
  | cons frame below ih => exact ⟨meaning.stands_of_step h hf.1 a, ih hf.2⟩

end Frame

namespace Search

def toCome (language : List String → Bool) (s : Search g scope M σ) : List (List Nat) :=
  (Frame.pending g scope s.frames).filter fun path => language (path.map g.displayAt)

structure InStep (Stands : M → σ → List String → Prop) (s : Search g scope M σ) : Prop where
  states : Frame.InStep g Stands s.machine s.frames
  trail : s.trail.names = (Frame.nodes s.frames).map g.displayAt

/-- The move keeps a search in step, and with `found` paths behind it, it answers with the first of
`paths` or leaves all of them to come. -/
def Answers (language : List String → Bool) (Stands : M → σ → List String → Prop)
    (paths : List (List Nat)) (found : Nat) : Move g scope M σ → Prop
  | .ended => paths = []
  | .onward s => s.InStep Stands ∧ s.found = found ∧ s.toCome language = paths
  | .yields trail s => s.InStep Stands ∧ s.found = found + 1 ∧
    ∃ path, trail = g.trailOf path ∧ paths = path :: s.toCome language

variable {language : List String → Bool} {Stands : M → σ → List String → Prop}

theorem InStep.leave {s : Search g scope M σ} (hs : s.InStep Stands) {frame : Frame σ}
    {below : List (Frame σ)} (h : s.frames = frame :: below) : (s.leave h).InStep Stands := by
  have states := hs.states
  have trail := hs.trail
  rw [h] at states trail
  refine ⟨states.2, ?_⟩
  show (frame.node.elim s.trail fun _ => (s.trail.pop?.map Prod.snd).getD s.trail).names =
    (Frame.nodes below).map g.displayAt
  cases eq : frame.node with
  | none => simpa [Frame.nodes, eq] using trail
  | some i =>
    have names : s.trail.names = g.displayAt i :: (Frame.nodes below).map g.displayAt := by
      simpa [Frame.nodes, eq] using trail
    simp [Trail.pop?, names]

theorem InStep.turn {s : Search g scope M σ} (hs : s.InStep Stands) {frame : Frame σ}
    {below : List (Frame σ)} (h : s.frames = frame :: below) (rest : List Nat) :
    (s.turn h rest).InStep Stands := by
  have states := hs.states
  have trail := hs.trail
  rw [h] at states trail
  exact ⟨states, trail⟩

theorem InStep.enter {s : Search g scope M σ} (hs : s.InStep Stands) {i : Nat} (fresh : i ∉ s.visited)
    {state : σ}
    (h : Stands s.machine state ((i :: Frame.nodes s.frames).reverse.map g.displayAt)) :
    (s.enter i fresh state).InStep Stands := by
  refine ⟨⟨h, hs.states⟩, ?_⟩
  show g.displayAt i :: s.trail.names = (i :: Frame.nodes s.frames).map g.displayAt
  rw [hs.trail]
  rfl

theorem InStep.record {s : Search g scope M σ} (hs : s.InStep Stands) : s.record.InStep Stands :=
  ⟨hs.states, hs.trail⟩

theorem InStep.trail_eq {s : Search g scope M σ} (hs : s.InStep Stands) :
    s.trail = g.trailOf (Frame.nodes s.frames).reverse := by
  rw [Graph.trailOf, List.map_reverse, List.reverse_reverse, ← hs.trail]

variable [Automaton M σ] {m₀ : M}

theorem InStep.look (meaning : Interpretation m₀ language Stands) {s : Search g scope M σ}
    (hs : s.InStep Stands) {state : σ} {word : List String} (h : Stands s.machine state word)
    (a : String) {i : Nat} (shown : g.showsAt scope.externals i = true) :
    (s.look i shown (Automaton.step s.machine state a).2).InStep Stands :=
  ⟨Frame.InStep.step meaning h a hs.states, hs.trail⟩

theorem answers_attempt (meaning : Interpretation m₀ language Stands) {s : Search g scope M σ}
    (hs : s.InStep Stands) {last : Option Nat} {state : σ} {rest : List Nat} {below : List (Frame σ)}
    (h : s.frames = ⟨last, state, rest⟩ :: below) (i : Nat) :
    Answers language Stands
      ((Frame.pending g scope (⟨last, state, i :: rest⟩ :: below)).filter fun path =>
        language (path.map g.displayAt))
      s.found (s.attempt last state i) := by
  have visited : s.visited = .ofList (Frame.nodes (⟨last, state, rest⟩ :: below)) := h ▸ s.visited_eq
  have idle : ¬ (i ∉ s.visited ∧ g.allows scope last i = true) →
      Answers language Stands
        ((Frame.pending g scope (⟨last, state, i :: rest⟩ :: below)).filter fun path =>
          language (path.map g.displayAt)) s.found (.onward s) := by
    intro closed
    rw [Frame.pending_skip visited closed]
    exact ⟨hs, rfl, by rw [toCome, h]⟩
  unfold attempt
  split
  · rename_i seen
    exact idle fun may => may.1 seen
  split
  · rename_i cut
    refine idle fun may => ?_
    have joined := (Bool.and_eq_true_iff.mp may.2).1
    cases last <;> simp_all
  split
  · rename_i fresh joined shown
    have visible := shown.elim (s.valid_shown i) id
    have may : i ∉ s.visited ∧ g.allows scope last i = true := by
      refine ⟨fresh, Bool.and_eq_true_iff.mpr ⟨?_, visible⟩⟩
      cases last <;> simp_all
    have standing : Stands s.machine state
        ((Frame.nodes (⟨last, state, rest⟩ :: below)).reverse.map g.displayAt) := by
      have states := hs.states
      rw [h] at states
      exact states.1
    have looked := InStep.look meaning hs standing (g.displayAt i) visible
    have stands : Stands (Automaton.step s.machine state (g.displayAt i)).2
        (Automaton.step s.machine state (g.displayAt i)).1
        ((i :: Frame.nodes s.frames).reverse.map g.displayAt) := by
      have next := meaning.stands_step standing (g.displayAt i)
      rw [← h] at next
      simpa using next
    have accepted := meaning.accepts_eq stands
    rw [Frame.pending_enter visited may (Automaton.step s.machine state (g.displayAt i)).1,
      List.filter_cons, ← h]
    dsimp only
    by_cases dead : Automaton.dead (Automaton.step s.machine state (g.displayAt i)).2
        (Automaton.step s.machine state (g.displayAt i)).1 = true
    · -- from a dead state neither this path nor one that goes on from it is accepted
      have refused := meaning.of_dead stands dead
      have here := refused []
      rw [List.append_nil] at here
      have above := @Frame.filter_pending_of_refused g scope σ language
        ⟨some i, (Automaton.step s.machine state (g.displayAt i)).1, g.calleesAt i⟩ s.frames refused
      rw [if_pos dead, here, if_neg Bool.false_ne_true, above]
      exact ⟨looked, rfl, rfl⟩
    · have entered := looked.enter (i := i) fresh stands
      rw [if_neg dead]
      cases word : language ((i :: Frame.nodes s.frames).reverse.map g.displayAt) with
      | true =>
        rw [if_pos (accepted.trans word), if_pos rfl]
        exact ⟨entered.record, rfl, _, entered.trail_eq, rfl⟩
      | false =>
        rw [accepted, word, if_neg Bool.false_ne_true, if_neg Bool.false_ne_true]
        exact ⟨entered, rfl, rfl⟩
  · rename_i hidden
    exact idle fun may => hidden (.inr (Bool.and_eq_true_iff.mp may.2).2)

/-- One move yields the first of the paths to come, or none of them is lost. -/
theorem answers_move (meaning : Interpretation m₀ language Stands) {s : Search g scope M σ}
    (hs : s.InStep Stands) :
    Answers language Stands (s.toCome language) s.found s.move := by
  unfold move
  split
  · rename_i h
    rw [toCome, h]
    rfl
  · rename_i node state below h
    have same : s.toCome language = (s.leave h).toCome language := by
      show (Frame.pending g scope s.frames).filter _ = (Frame.pending g scope below).filter _
      rw [h, Frame.pending, Graph.continuations]
      rfl
    exact ⟨hs.leave h, rfl, same.symm⟩
  · rename_i last state i rest below h
    have same : s.toCome language =
        (Frame.pending g scope (⟨last, state, i :: rest⟩ :: below)).filter fun path =>
          language (path.map g.displayAt) := by
      rw [toCome, h]
    rw [same]
    exact answers_attempt meaning (hs.turn h rest) rfl i

theorem answers_run (meaning : Interpretation m₀ language Stands) {s : Search g scope M σ}
    (hs : s.InStep Stands) :
    Answers language Stands (s.toCome language) s.found
      (s.run.elim .ended fun found => .yields found.1 found.2) := by
  fun_induction run s with
  | case1 s eq =>
    have answers := answers_move meaning hs
    rw [eq] at answers
    exact answers
  | case2 s next eq ih =>
    have answers := answers_move meaning hs
    rw [eq] at answers
    obtain ⟨inStep, same, toCome⟩ := answers
    rw [← toCome, ← same]
    exact ih inStep
  | case3 s path next eq =>
    have answers := answers_move meaning hs
    rw [eq] at answers
    exact answers

/-- The paths that are left when a limit counts those found before. -/
def within (limit : Option Nat) (found : Nat) (paths : List (List Nat)) : List (List Nat) :=
  limit.elim paths fun n => paths.take (n - found)

theorem drain_eq (meaning : Interpretation m₀ language Stands) {s : Search g scope M σ}
    (hs : s.InStep Stands) (limit : Option Nat) :
    s.drain limit = (within limit s.found (s.toCome language)).map g.trailOf := by
  fun_induction drain limit s with
  | case1 s eq =>
    unfold next? at eq
    split at eq
    · rename_i reached
      obtain ⟨n, rfl, le⟩ : ∃ n, limit = some n ∧ n ≤ s.found := by
        cases limit <;> simp_all
      have none : n - s.found = 0 := by omega
      simp [within, none]
    · have answers := answers_run meaning hs
      rw [eq] at answers
      have none : s.toCome language = [] := answers
      cases limit <;> simp [within, none]
  | case2 s path next eq ih =>
    unfold next? at eq
    split at eq
    · cases eq
    · rename_i open'
      have answers := answers_run meaning hs
      rw [eq] at answers
      obtain ⟨inStep, found, first, rfl, split⟩ := answers
      rw [ih inStep, split, found]
      cases limit with
      | none => rfl
      | some n =>
        have room : n - s.found = n - (s.found + 1) + 1 := by
          have : ¬ n ≤ s.found := by simpa using open'
          omega
        simp [within, room]

theorem inStep_start (meaning : Interpretation m₀ language Stands) :
    (start g scope m₀).InStep Stands :=
  ⟨⟨meaning.stands_start, trivial⟩, rfl⟩

theorem toCome_start (language : List String → Bool) :
    (start g scope m₀).toCome language =
      (g.continuations scope ∅ none (List.range g.size)).filter fun path =>
        language (path.map g.displayAt) := by
  have all : Frame.pending g scope (start g scope m₀).frames =
      g.continuations scope ∅ none (List.range g.size) := by
    show (g.continuations scope ∅ none (List.range g.size)).map ([] ++ ·) ++ [] = _
    simp
  rw [toCome, all]

end Search

namespace Graph

/-- The list holds each path once that is a word of the language, in depth-first preorder. -/
structure Lists (g : Graph) (scope : Scope) (language : List String → Bool)
    (paths : List (List Nat)) : Prop where
  mem_iff : ∀ path, path ∈ paths ↔ g.IsPath scope path ∧ language (path.map g.displayAt) = true
  nodup : paths.Nodup
  preorder : paths.Pairwise (g.Precedes (List.range g.size))

/-- The search lists the paths that the machine recognizes, and a limit keeps the first of them. -/
structure Finds {M σ : Type} [Automaton M σ] (g : Graph) (machine : M) (scope : Scope)
    (language : List String → Bool) : Prop where
  recognizes_eq : ∀ word, (Automaton.recognizes machine word).1 = language word
  paths_eq : ∃ paths, g.Lists scope language paths ∧
    g.paths machine scope none = paths.map g.trailOf ∧
    ∀ n, g.paths machine scope (some n) = (paths.take n).map g.trailOf

theorem mem_continuations_empty {g : Graph} {scope : Scope} {path : List Nat} :
    path ∈ g.continuations scope ∅ none (List.range g.size) ↔ g.IsPath scope path := by
  rw [mem_continuations]
  constructor
  · rintro ⟨continues, -⟩
    exact continues.isPath
  · intro isPath
    obtain ⟨i, rest, rfl⟩ := List.exists_cons_of_ne_nil isPath.ne_nil
    have lt := g.lt_size_of_showsAt (isPath.shown i (by simp))
    refine ⟨⟨isPath, fun j _ => IndexSet.not_mem_empty j, by simp⟩, ?_⟩
    exact ⟨i, List.mem_range.mpr lt, rfl⟩

theorem Built.lists {g : Graph} (h : g.Built) (scope : Scope) (language : List String → Bool) :
    g.Lists scope language
      ((g.continuations scope ∅ none (List.range g.size)).filter fun path =>
        language (path.map g.displayAt)) where
  mem_iff := by
    intro path
    rw [List.mem_filter, mem_continuations_empty]
  nodup := by
    have pairwise := g.pairwise_continuations scope ∅ none (List.range g.size)
    exact (pairwise.imp fun h' => h'.ne h.wellFormed List.nodup_range).filter _
  preorder := (g.pairwise_continuations scope ∅ none (List.range g.size)).filter _

/-- Membership, multiplicity and order leave no choice. -/
theorem Lists.unique {g : Graph} (wf : g.WellFormed) {scope : Scope} {language : List String → Bool}
    {paths others : List (List Nat)} (h : g.Lists scope language paths)
    (h' : g.Lists scope language others) : paths = others := by
  have perm : paths.Perm others :=
    (List.perm_ext_iff_of_nodup h.nodup h'.nodup).mpr fun path => by rw [h.mem_iff, h'.mem_iff]
  refine perm.eq_of_pairwise ?_ h.preorder h'.preorder
  intro path other _ _ before after
  exact absurd after (before.asymm wf List.nodup_range)

/-- A search goes through all the paths and keeps those that spell a word of its machine. -/
theorem paths_eq {M σ : Type} [Automaton M σ] {machine : M} {language : List String → Bool}
    {Stands : M → σ → List String → Prop} (g : Graph)
    (meaning : Interpretation machine language Stands) (scope : Scope) (limit : Option Nat) : g.paths machine scope limit =
      (Search.within limit 0 ((g.continuations scope ∅ none (List.range g.size)).filter fun path =>
        language (path.map g.displayAt))).map g.trailOf := by
  rw [paths, Search.drain_eq meaning (Search.inStep_start meaning), Search.toCome_start]
  rfl

theorem Built.finds {M σ : Type} [Automaton M σ] {machine : M} {language : List String → Bool}
    {Stands : M → σ → List String → Prop} {g : Graph} (h : g.Built)
    (meaning : Interpretation machine language Stands) (scope : Scope) :
    g.Finds machine scope language where
  recognizes_eq := meaning.recognizes_eq
  paths_eq := by
    refine ⟨_, h.lists scope language, ?_, fun n => ?_⟩
    · exact g.paths_eq meaning scope none
    · exact g.paths_eq meaning scope (some n)

/-- All three kinds of machines find the paths of their language, whatever they remember. -/
theorem finds_paths {g : Graph} (h : g.Built) (scope : Scope) :
    (∀ m : Simulation, g.Finds m scope m.nfa.language) ∧
      (∀ m : OnDemand, g.Finds m scope m.machine.nfa.language) ∧
      ∀ d : Dfa, g.Finds d scope d.language :=
  ⟨fun m => h.finds m.interpretation scope, fun m => h.finds m.interpretation scope,
    fun d => h.finds d.interpretation scope⟩

def detour : List Change :=
  [.add (.define "main" {}), .add (.define "f" {}), .add (.define "g" {}),
    .add (.edge "main" "f" .call), .add (.edge "f" "g" .call), .add (.edge "g" "f" .call),
    .add (.edge "main" "g" .ref), .cutCallees "g"]

theorem finds_paths_in_detour :
    (ofHistory detour).Built ∧
      (∀ m : Simulation, (ofHistory detour).Finds m { refs := true } m.nfa.language) ∧
      (∀ m : OnDemand, (ofHistory detour).Finds m { refs := true } m.machine.nfa.language) ∧
      ∀ d : Dfa, (ofHistory detour).Finds d { refs := true } d.language :=
  ⟨⟨detour, rfl⟩, finds_paths ⟨detour, rfl⟩ { refs := true }⟩

end Graph

end CallAtlas
