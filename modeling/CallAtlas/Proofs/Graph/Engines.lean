import CallAtlas.Proofs.Automaton.Minimal
import CallAtlas.Proofs.Graph.Search
import CallAtlas.Proofs.PathExpr.Language
/-!
One expression and the machines that are made of it. A table knows only the names it was made for; every
name on a path is the name of a visible node, so a table over these misses nothing. Main statements:
`paths_congr`, machines that agree on what the paths spell find the same, and `paths_of_expression`.
-/
namespace CallAtlas

open Automaton (Interpretation)

namespace Graph

variable {g : Graph} {scope : Scope} {path : List Nat}

/-- The search sees no more of a language than the words that paths spell. -/
theorem paths_congr {M σ M' σ' : Type} [Automaton M σ] [Automaton M' σ'] {machine : M} {machine' : M'}
    {language language' : List String → Bool} {Stands : M → σ → List String → Prop}
    {Stands' : M' → σ' → List String → Prop} (meaning : Interpretation machine language Stands)
    (meaning' : Interpretation machine' language' Stands')
    (same : ∀ path, g.IsPath scope path →
      language (path.map g.displayAt) = language' (path.map g.displayAt)) (limit : Option Nat) :
    g.paths machine scope limit = g.paths machine' scope limit := by
  have kept : ∀ path ∈ g.continuations scope ∅ none (List.range g.size),
      language (path.map g.displayAt) = language' (path.map g.displayAt) :=
    fun path mem => same path (mem_continuations_empty.mp mem)
  rw [g.paths_eq meaning, g.paths_eq meaning', List.filter_congr kept]

theorem IsPath.displayAt_mem_visibleNodes (h : g.IsPath scope path) {i : Nat} (hi : i ∈ path) :
    g.displayAt i ∈ g.visibleNodes true := by
  have shown := h.shown i hi
  refine List.mem_map_of_mem (List.mem_filter.mpr ⟨?_, showsAt_of_showsAt shown⟩)
  exact List.mem_range.mpr (g.lt_size_of_showsAt shown)

theorem IsPath.language_determinize (h : g.IsPath scope path) (n : Nfa) :
    (n.determinize (g.visibleNodes true)).language (path.map g.displayAt) =
      n.language (path.map g.displayAt) := by
  have known : (path.map g.displayAt).all (· ∈ g.visibleNodes true) = true := by
    simpa using fun i hi => h.displayAt_mem_visibleNodes hi
  rw [n.language_determinize, known, Bool.true_and]

/-- The machines of an expression all find `trails`: its automaton, the automaton that is made
deterministic on demand, the table over the names of the visible nodes and the minimal table. -/
structure FindsByEach (g : Graph) (e : PathExpr Predicate) (scope : Scope) (limit : Option Nat)
    (trails : List Trail) : Prop where
  simulation : g.paths (Simulation.ofNfa e.nfa) scope limit = trails
  onDemand : g.paths (OnDemand.ofSimulation (.ofNfa e.nfa)) scope limit = trails
  table : g.paths (e.nfa.determinize (g.visibleNodes true)) scope limit = trails
  minimal : g.paths (e.nfa.determinize (g.visibleNodes true)).minimal scope limit = trails

/-- All machines of an expression find the paths that spell its words, in one order. -/
theorem paths_of_expression (g : Graph) (e : PathExpr Predicate) (scope : Scope) :
    ∃ found : List (List Nat),
      (∀ path, path ∈ found ↔ g.IsPath scope path ∧ path.map g.displayAt ∈ e.language) ∧
      ∀ limit, g.FindsByEach e scope limit ((Search.within limit 0 found).map g.trailOf) := by
  let table := e.nfa.determinize (g.visibleNodes true)
  have simulation := (Simulation.ofNfa e.nfa).interpretation
  refine ⟨(g.continuations scope ∅ none (List.range g.size)).filter fun path =>
    e.nfa.language (path.map g.displayAt), fun path => ?_, fun limit => ?_⟩
  · rw [List.mem_filter, mem_continuations_empty, e.language_nfa]
  · have found := g.paths_eq simulation scope limit
    refine ⟨found, ?_, ?_, ?_⟩
    · exact g.paths_eq (OnDemand.ofSimulation (.ofNfa e.nfa)).interpretation scope limit
    · refine (paths_congr table.interpretation simulation (fun path isPath => ?_) limit).trans found
      exact isPath.language_determinize e.nfa
    · refine (paths_congr table.minimal.interpretation simulation (fun path isPath => ?_) limit).trans
        found
      exact (table.language_minimal _).trans (isPath.language_determinize e.nfa)

end Graph

end CallAtlas
