import CallAtlas.Proofs.Graph.Addresses
import CallAtlas.Proofs.Selector.Predicate
import CallAtlas.Proofs.Selector.Shape
import CallAtlas.Proofs.Selector.Targets
/-!
What becomes of the meaning of a selector when it is made shorter. Taking out groups of one member changes
nothing. A double negation selects what is visible of what its inside selects, so taking it out brings the
hidden nodes back, and a closure around it may follow their edges. Main statements: `agrees_optimize` and
`optimize_keeps`, in which graphs all selectors keep their meaning.
-/
namespace CallAtlas

/-- A set of names that holds the visible ones, and that no closure leads into. -/
structure Graph.Encloses (g : Graph) (D : String → Prop) : Prop where
  visible : ∀ n ∈ g.visibleNodes true, D n
  outside : ∀ m, g.Known m → ¬ D m → ∀ k, ∀ n ∈ g.follow k m, ¬ D n

theorem Graph.encloses_all (g : Graph) : g.Encloses fun _ => True :=
  ⟨fun _ _ => trivial, fun _ _ out => absurd trivial out⟩

namespace Selector

variable {g : Graph} {n : String}

theorem exists_displayAt_of_mem_follow {k : Closure} {m : String} (known : g.Known m)
    (led : n ∈ g.follow k m) : ∃ i < g.size, g.displayAt i = m := by
  rcases known with here | ⟨l, labeled⟩
  · exact here
  · obtain ⟨carrier, -, shown⟩ := Graph.mem_labeledNodes.mp labeled
    rcases g.shownAs_cases carrier with ⟨missing, same⟩ | ⟨i, node, found, here, same⟩
    · -- a label on a name that is not in the graph leads nowhere
      rw [← shown, same] at led
      cases k <;> simp [Graph.follow, Graph.callers, Graph.callees, Graph.allCallers,
        Graph.allCallees, missing, walk] at led
    · refine ⟨i, (Array.getElem?_eq_some_iff.mp here).1, ?_⟩
      rw [← shown, same, Graph.displayAt, here]
      rfl

section

variable [PatternEngine]

mutual

/-- What double negations are taken away from when a selector is made shorter. -/
def unwrapped : Selector → List Selector
  | both ss | either ss => unwrappedAll ss
  | not s =>
    match optimize s with
    | not t => t :: unwrapped s
    | _ => unwrapped s
  | closure _ s => unwrapped s
  | _ => []

def unwrappedAll : List Selector → List Selector
  | [] => []
  | s :: ss => unwrapped s ++ unwrappedAll ss

end

def Agrees (g : Graph) (D : String → Prop) (s t : Selector) : Prop :=
  ∀ n, D n → (n ∈ nodes g s ↔ n ∈ nodes g t)

variable {D : String → Prop} {s : Selector} {ss : List Selector}

theorem mem_nodes_both_cons :
    n ∈ nodes g (both (s :: ss)) ↔ ∀ t ∈ s :: ss, n ∈ nodes g t := by
  rw [nodes, mem_commonNodes, List.forall_mem_cons]

theorem mem_nodes_either : n ∈ nodes g (either ss) ↔ ∃ s ∈ ss, n ∈ nodes g s := by
  rw [nodes, mem_joinedNodes]

theorem mem_nodes_not (built : g.Built) :
    n ∈ nodes g (not s) ↔ n ∈ g.visibleNodes true ∧ n ∉ nodes g s := by
  rw [nodes, mem_visible]
  refine and_congr_right fun shown => ?_
  rw [Bool.not_eq_true', Bool.eq_false_iff]
  exact not_congr (predicate_iff built shown s)

theorem mem_nodes_closure {k : Closure} :
    n ∈ nodes g (closure k s) ↔ ∃ m ∈ nodes g s, n ∈ g.follow k m := by
  rw [nodes, Graph.extend, NameSet.mem_ofList, List.mem_flatMap]
  rfl

theorem Agrees.both (h : ∀ s ∈ ss, Agrees g D (optimize s) s) :
    Agrees g D (optimize (both ss)) (both ss) := by
  intro n hn
  match ss with
  | [] => rfl
  | [s] =>
    rw [optimize, mem_nodes_both_cons, List.forall_mem_singleton]
    exact h s List.mem_cons_self n hn
  | s :: t :: ss =>
    rw [optimize, optimizeAll_eq_map, List.map_cons, mem_nodes_both_cons, ← List.map_cons,
      List.forall_mem_map, mem_nodes_both_cons]
    · exact forall₂_congr fun u hu => h u hu n hn
    · simp

theorem Agrees.either (h : ∀ s ∈ ss, Agrees g D (optimize s) s) :
    Agrees g D (optimize (either ss)) (either ss) := by
  intro n hn
  match ss with
  | [] => rfl
  | [s] =>
    rw [optimize, mem_nodes_either]
    simpa using h s List.mem_cons_self n hn
  | s :: t :: ss =>
    rw [optimize, optimizeAll_eq_map, mem_nodes_either, mem_nodes_either]
    · simp only [List.mem_map, exists_exists_and_eq_and]
      exact exists_congr fun u => and_congr_right fun hu => h u hu n hn
    · simp

theorem Agrees.not (built : g.Built) (h : Agrees g D (optimize s) s)
    (shown : ∀ t ∈ unwrapped (not s), ∀ n ∈ nodes g t, D n → n ∈ g.visibleNodes true) :
    Agrees g D (optimize (not s)) (not s) := by
  intro n hn
  rw [optimize]
  rcases negate_cases (optimize s) with ⟨t, double, taken⟩ | ⟨-, kept⟩
  · have lost : t ∈ unwrapped (Selector.not s) := by simp [unwrapped, double]
    have inner := h n hn
    rw [double, mem_nodes_not built] at inner
    rw [taken, mem_nodes_not built, ← inner]
    constructor
    · exact fun picked => ⟨shown t lost n picked hn, fun out => out.2 picked⟩
    · rintro ⟨visible, out⟩
      exact not_not.mp fun missed => out ⟨visible, missed⟩
  · rw [kept, mem_nodes_not built, mem_nodes_not built, h n hn]

theorem Agrees.closure (closed : g.Encloses D) (h : Agrees g D (optimize s) s) (k : Closure) :
    Agrees g D (optimize (closure k s)) (closure k s) := by
  intro n hn
  rw [optimize, mem_nodes_closure, mem_nodes_closure]
  have inside {t : Selector} {m : String} (hm : m ∈ nodes g t) (led : n ∈ g.follow k m) : D m := by
    by_contra out
    exact closed.outside m (known_of_mem_nodes hm) out k n led hn
  constructor
  · rintro ⟨m, hm, led⟩
    exact ⟨m, (h m (inside hm led)).mp hm, led⟩
  · rintro ⟨m, hm, led⟩
    exact ⟨m, (h m (inside hm led)).mpr hm, led⟩

mutual

/-- Made shorter, a selector selects the same names of the set, if it selects none of them that is hidden
where a double negation is taken away. -/
theorem agrees_optimize (built : g.Built) (closed : g.Encloses D) {s : Selector}
    (shown : ∀ t ∈ unwrapped s, ∀ n ∈ nodes g t, D n → n ∈ g.visibleNodes true) :
    Agrees g D (optimize s) s := by
  match s with
  | name _ | pattern _ | label _ => exact fun _ _ => Iff.rfl
  | both ss => exact .both (agrees_optimize_of_mem built closed shown)
  | either ss => exact .either (agrees_optimize_of_mem built closed shown)
  | not s =>
    refine .not built (agrees_optimize built closed fun t ht => shown t ?_) shown
    rw [unwrapped]
    split
    · exact List.mem_cons_of_mem _ ht
    · exact ht
  | closure k s => exact .closure closed (agrees_optimize (s := s) built closed shown) k

theorem agrees_optimize_of_mem (built : g.Built) (closed : g.Encloses D) {ss : List Selector}
    (shown : ∀ t ∈ unwrappedAll ss, ∀ n ∈ nodes g t, D n → n ∈ g.visibleNodes true) :
    ∀ s ∈ ss, Agrees g D (optimize s) s := by
  match ss with
  | [] => nofun
  | s :: ss =>
    intro t ht
    rcases List.mem_cons.mp ht with eq | ht
    · rw [eq]
      exact agrees_optimize built closed fun u hu => shown u (List.mem_append_left _ hu)
    · exact agrees_optimize_of_mem built closed (fun u hu => shown u (List.mem_append_right _ hu)) t ht

end

theorem predicate_congr (built : g.Built) {t : Selector} (h : Agrees g (· ∈ g.visibleNodes true) s t)
    (hn : n ∈ g.visibleNodes true) : predicate g s n = predicate g t n := by
  rw [Bool.eq_iff_iff, predicate_iff built hn, predicate_iff built hn]
  exact h n hn

theorem mem_nodes_name_displayAt (built : g.Built) {i : Nat} (lt : i < g.size) :
    n ∈ nodes g (name (g.displayAt i)) ↔ n = g.displayAt i := by
  obtain ⟨j, found, alike⟩ := built.exists_resolve?_displayAt lt
  rw [nodes, NameSet.mem_ofList, Graph.displayName?, found, Option.map_some, alike]
  exact List.mem_singleton

/-- In every graph, what is made shorter selects the same if no double negation is taken away from something
that selects a hidden name. All selectors keep what they select exactly if no name that can be selected is
hidden, and all tests agree on visible names exactly if no closure leads from a hidden node to a visible one. -/
theorem optimize_keeps (built : g.Built) :
    (∀ s, (∀ t ∈ unwrapped s, ∀ n ∈ nodes g t, n ∈ g.visibleNodes true) →
        nodes g (optimize s) = nodes g s ∧
          ∀ n ∈ g.visibleNodes true, predicate g (optimize s) n = predicate g s n) ∧
      ((∀ s, nodes g (optimize s) = nodes g s) ↔ ∀ n, g.Known n → n ∈ g.visibleNodes true) ∧
      ((∀ s, ∀ n ∈ g.visibleNodes true, predicate g (optimize s) n = predicate g s n) ↔
        ∀ i < g.size, g.displayAt i ∉ g.visibleNodes true →
          ∀ k, ∀ n ∈ g.follow k (g.displayAt i), n ∉ g.visibleNodes true) := by
  have each (s : Selector) (shown : ∀ t ∈ unwrapped s, ∀ n ∈ nodes g t, n ∈ g.visibleNodes true) :
      nodes g (optimize s) = nodes g s := by
    have agrees := agrees_optimize built g.encloses_all fun t ht n hn _ => shown t ht n hn
    exact NameSet.ext fun n => agrees n trivial
  refine ⟨fun s shown => ⟨each s shown, fun n hn => ?_⟩, ⟨?_, ?_⟩, ⟨?_, ?_⟩⟩
  · exact predicate_congr built (fun n _ => by rw [each s shown]) hn
  · intro keeps n known
    have visible (leaf : Selector) (short : optimize (not (not leaf)) = leaf)
        (picked : n ∈ nodes g leaf) : n ∈ g.visibleNodes true := by
      rw [← short, keeps, mem_nodes_not built] at picked
      exact picked.1
    rcases known with ⟨i, lt, rfl⟩ | ⟨l, labeled⟩
    · exact visible (name (g.displayAt i)) rfl (mem_nodes_name_displayAt built lt |>.mpr rfl)
    · exact visible (label l) rfl (by rwa [nodes, NameSet.mem_ofList])
  · exact fun known s => each s fun t _ n hn => known n (known_of_mem_nodes hn)
  · intro keeps i lt hidden k n led visible
    have own (m : String) := mem_nodes_name_displayAt (n := m) built lt
    have same := keeps (closure k (not (not (name (g.displayAt i))))) n visible
    rw [Bool.eq_iff_iff, predicate_iff built visible, predicate_iff built visible] at same
    obtain ⟨m, picked, -⟩ :=
      mem_nodes_closure.mp (same.mp (mem_nodes_closure.mpr ⟨_, (own _).mpr rfl, led⟩))
    rw [mem_nodes_not built, mem_nodes_not built, own] at picked
    have is : m = g.displayAt i := not_not.mp fun other => picked.2 ⟨picked.1, other⟩
    exact hidden (is ▸ picked.1)
  · intro sealed s n hn
    have closed : g.Encloses (· ∈ g.visibleNodes true) := by
      refine ⟨fun _ => id, fun m known out k n led => ?_⟩
      obtain ⟨i, lt, rfl⟩ := exists_displayAt_of_mem_follow known led
      exact sealed i lt out k n led
    exact predicate_congr built (agrees_optimize built closed fun _ _ _ _ visible => visible) hn

end

def veiled : Graph := Graph.ofHistory
  [.add (.define "a" {}), .add (.define "b" {}), .add (.edge "b" "a" .call), .add (.label "l" "b"),
    .hide "a"]

theorem optimize_keeps_veiled : veiled.Built ∧
    nodes veiled (optimize (.both [.not (.either [.not (.label "l")]), .not (.name "a")])) =
      nodes veiled (.both [.not (.either [.not (.label "l")]), .not (.name "a")]) ∧
    ¬ ∀ s, nodes veiled (optimize s) = nodes veiled s := by
  have built : veiled.Built := ⟨_, rfl⟩
  obtain ⟨each, all, -⟩ := optimize_keeps built
  refine ⟨built, (each _ ?_).1, fun keeps => ?_⟩
  · have lost : unwrapped (.both [.not (.either [.not (.label "l")]), .not (.name "a")]) =
        [.label "l"] := by simp [unwrapped, unwrappedAll, optimize, negate]
    have labeled : ∀ name ∈ veiled.labeled "l", veiled.shownAs name ∈ veiled.visibleNodes true := by
      with_unfolding_all decide
    intro t ht n hn
    rw [lost, List.mem_singleton] at ht
    rw [ht, nodes, NameSet.mem_ofList] at hn
    obtain ⟨name, carried, rfl⟩ := Graph.mem_labeledNodes.mp hn
    exact labeled name carried
  · have hidden : "a" ∉ veiled.visibleNodes true := by with_unfolding_all decide
    exact hidden (all.mp keeps "a" (.inl ⟨0, by with_unfolding_all decide, by with_unfolding_all decide⟩))

/-- Without its double negation a selector selects a hidden node, and so do closures that start there. -/
theorem double_negation_uncovers : veiled.Built ∧
    (nodes veiled (.not (.not (.name "a")))).toList = [] ∧
    (nodes veiled (optimize (.not (.not (.name "a"))))).toList = ["a"] ∧
    "b" ∈ veiled.visibleNodes true ∧
    predicate veiled (.closure .callers (.not (.not (.name "a")))) "b" = false ∧
    predicate veiled (optimize (.closure .callers (.not (.not (.name "a"))))) "b" = true := by
  refine ⟨⟨_, rfl⟩, ?_, ?_, ?_, ?_, ?_⟩
  all_goals with_unfolding_all decide

end Selector

end CallAtlas
