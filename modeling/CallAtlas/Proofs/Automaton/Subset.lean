import CallAtlas.Automaton.Subset
import CallAtlas.Proofs.Automaton.Interpretation
import Mathlib.Data.List.Induction
/-!
What the subset construction makes. Moves between sets follow a step function; the table numbers the sets
that the steps reach, and reads a word as the steps do. Main statements: `Subsets.Tabulates.expand`, a row
more keeps the numbers and the steps together, `tabulates_table`, `Dfa.Tabulates.language_eq`, and
`Simulation.determinizes`.
-/
namespace CallAtlas

variable {n : Nat} {step : IndexSet → String → IndexSet} {S₀ : IndexSet}

/-- There is a move wherever the step function leads to some state, and nowhere else. -/
structure SetMoves.Follows (moves : SetMoves n) (step : IndexSet → String → IndexSet) : Prop where
  mem_out : ∀ {S T a}, (a, T) ∈ moves.out S ↔ T = step S a ∧ T ≠ ∅
  step_empty : ∀ a, step ∅ a = ∅

/-- A row leads to the numbers of the sets that `next` gives, and nowhere where that is empty. -/
structure Numbering.Leads (ν : Numbering) (row : NameMap Nat) (next : String → IndexSet) : Prop where
  get?_of_some : ∀ {a t}, row.get? a = some t → ν.get? t = some (next a)
  get?_eq_none : ∀ {a}, row.get? a = none ↔ next a = ∅

namespace Subsets

variable {ν : Numbering} {row : NameMap Nat} {moves : List (String × IndexSet)}
  {next : String → IndexSet}

theorem get?_numberAll_of_get? {i : Nat} {T : IndexSet} (h : ν.get? i = some T) :
    (numberAll ν row moves).2.get? i = some T := by
  induction moves generalizing ν row with
  | nil => exact h
  | cons move rest ih => exact ih (Numbering.get?_number_of_get? h move.2)

theorem get?_numberAll_of_some (old : ∀ {a t}, row.get? a = some t → ν.get? t = some (next a))
    (new : ∀ {a T}, (a, T) ∈ moves → T = next a) {a : String} {t : Nat}
    (h : (numberAll ν row moves).1.get? a = some t) :
    (numberAll ν row moves).2.get? t = some (next a) := by
  induction moves generalizing ν row with
  | nil => exact old h
  | cons move rest ih =>
    obtain ⟨b, T⟩ := move
    refine ih ?_ (fun h => new (List.mem_cons_of_mem _ h)) h
    intro c u hu
    rw [NameMap.get?_put] at hu
    split at hu
    · rename_i eq
      cases hu
      rw [eq, ← new List.mem_cons_self]
      exact ν.get?_number T
    · exact Numbering.get?_number_of_get? (old hu) T

theorem get?_numberAll_eq_none {a : String} : (numberAll ν row moves).1.get? a = none ↔
    row.get? a = none ∧ ∀ T, (a, T) ∉ moves := by
  induction moves generalizing ν row with
  | nil => simp [numberAll]
  | cons move rest ih =>
    obtain ⟨b, U⟩ := move
    rw [numberAll, ih, NameMap.get?_put]
    by_cases eq : a = b
    · subst eq
      constructor
      · intro h
        simp at h
      · intro h
        exact absurd List.mem_cons_self (h.2 U)
    · simp [eq]

theorem leads_numberAll (h : ∀ {a T}, (a, T) ∈ moves ↔ T = next a ∧ T ≠ ∅) :
    (numberAll ν ∅ moves).2.Leads (numberAll ν ∅ moves).1 next where
  get?_of_some found :=
    get?_numberAll_of_some (fun h => by simp at h) (fun mem => (h.mp mem).1) found
  get?_eq_none {a} := by
    rw [get?_numberAll_eq_none]
    constructor
    · rintro ⟨-, none⟩
      exact Classical.not_not.mp fun ne => none _ (h.mpr ⟨rfl, ne⟩)
    · intro empty
      refine ⟨rfl, fun T mem => ?_⟩
      obtain ⟨rfl, ne⟩ := h.mp mem
      exact ne empty

/-- The rows there are lead where the steps lead, and every set that has a number is reached by a word. -/
structure Tabulates (c : Subsets n) (step : IndexSet → String → IndexSet) (S₀ : IndexSet) :
    Prop where
  first : c.states.get? 0 = some S₀
  leads : ∀ {i row S}, c.rows[i]? = some row → c.states.get? i = some S →
    c.states.Leads row (step S)
  reached : ∀ {i S}, c.states.get? i = some S →
    ∃ word, word.foldl step S₀ = S ∧ (word = [] ∨ S ≠ ∅)

theorem tabulates_initial (h : S₀.Below n) : (initial S₀ h).Tabulates step S₀ := by
  have first : (initial S₀ h).states.get? 0 = some S₀ := by
    have fresh : S₀ ∉ Numbering.empty.sets := Array.not_mem_empty S₀
    show (Numbering.empty.number S₀).2.get? 0 = some S₀
    rw [Numbering.number_of_not_mem fresh]
    rfl
  refine ⟨first, fun found => ?_, fun {i S} known => ⟨[], ?_, .inl rfl⟩⟩
  · simp [initial] at found
  · have mem : S ∈ (initial S₀ h).states.sets := Array.mem_of_getElem? known
    rcases Numbering.mem_number.mp mem with old | new
    · simp [Numbering.empty] at old
    · exact new.symm

theorem Tabulates.expand {c : Subsets n} {moves : SetMoves n} (follows : moves.Follows step)
    (h : c.Tabulates step S₀) (lt : c.rows.size < c.states.size) :
    (c.expand moves lt).Tabulates step S₀ := by
  have next : c.states.get? c.rows.size = some (c.next lt) := Array.getElem?_eq_getElem lt
  have keeps {i : Nat} {S : IndexSet} (known : c.states.get? i = some S) :
      (c.expand moves lt).states.get? i = some S := get?_numberAll_of_get? known
  constructor
  case first => exact keeps h.first
  case leads =>
    intro i row S found known
    -- a row from before still leads to the numbers it led to; the new one is for the set at its place
    rcases Nat.lt_or_ge i c.rows.size with old | new
    · have found' : c.rows[i]? = some row := by
        simpa [Subsets.expand, Subsets.expandBy, Array.getElem?_push, Nat.ne_of_lt old] using found
      have known' : c.states.get? i = some S := by
        have there := Array.getElem?_eq_getElem (Nat.lt_of_lt_of_le old c.rows_le)
        exact there.trans ((keeps there).symm.trans known)
      have leads := h.leads found' known'
      exact ⟨fun found => keeps (leads.get?_of_some found), leads.get?_eq_none⟩
    · obtain ⟨rfl, rfl⟩ : i = c.rows.size ∧
          (numberAll c.states ∅ (moves.out (c.next lt))).1 = row := by
        simp only [Subsets.expand, Subsets.expandBy, Array.getElem?_push] at found
        split at found
        · rename_i eq
          exact ⟨eq, Option.some.inj found⟩
        · rw [Array.getElem?_eq_none new] at found
          cases found
      cases Option.some.inj ((keeps next).symm.trans known)
      exact leads_numberAll follows.mem_out
  case reached =>
    intro i S known
    rcases mem_numberAll.mp (Array.mem_of_getElem? known) with old | ⟨a, new⟩
    · obtain ⟨j, there⟩ := Array.mem_iff_getElem?.mp old
      exact h.reached there
    · obtain ⟨word, reached, -⟩ := h.reached next
      obtain ⟨rfl, ne⟩ := follows.mem_out.mp new
      refine ⟨word ++ [a], ?_, .inr ne⟩
      rw [List.foldl_append, reached]
      rfl

theorem Tabulates.complete {c : Subsets n} {moves : SetMoves n} (follows : moves.Follows step)
    (h : c.Tabulates step S₀) : (c.complete moves).Tabulates step S₀ := by
  fun_induction Subsets.complete moves c with
  | case1 c lt ih => exact ih (h.expand follows lt)
  | case2 c done => exact h

end Subsets

def SetMoves.states (moves : SetMoves n) (S₀ : IndexSet) (h : S₀.Below n) : Numbering :=
  ((Subsets.initial S₀ h).complete moves).states

namespace Dfa

/-- The states of the table are the sets that the steps reach, by their numbers; its moves are the steps
that do not end in the empty set, and `final` decides which states are final. -/
structure Tabulates (d : Dfa) (ν : Numbering) (step : IndexSet → String → IndexSet) (S₀ : IndexSet)
    (final : IndexSet → Bool) : Prop where
  size_eq : d.size = ν.size
  first : ν.get? 0 = some S₀
  leads : ∀ {i S}, ν.get? i = some S → ν.Leads (d.row i) (step S)
  reached : ∀ {i S}, ν.get? i = some S → ∃ word, word.foldl step S₀ = S ∧ (word = [] ∨ S ≠ ∅)
  mem_finals : ∀ {i S}, ν.get? i = some S → (i ∈ d.finals ↔ final S = true)
  step_empty : ∀ a, step ∅ a = ∅

def Reachable (d : Dfa) : Prop := ∀ q < d.size, ∃ word, d.run word = some q

theorem tabulates_table {moves : SetMoves n} (follows : moves.Follows step) (h : S₀.Below n)
    (final : IndexSet → Bool) :
    (moves.table S₀ h final).Tabulates (moves.states S₀ h) step S₀ final := by
  have tabulates := (Subsets.tabulates_initial h).complete follows
  have size_eq := Subsets.rows_size_complete moves (Subsets.initial S₀ h)
  constructor
  case size_eq => exact size_eq
  case first => exact tabulates.first
  case leads =>
    intro i S known
    have lt : i < ((Subsets.initial S₀ h).complete moves).rows.size :=
      size_eq ▸ Numbering.lt_size_of_get? known
    have found := Array.getElem?_eq_getElem lt
    have row : (moves.table S₀ h final).row i = ((Subsets.initial S₀ h).complete moves).rows[i] :=
      congrArg (·.getD ∅) found
    rw [row]
    exact tabulates.leads found known
  case reached => exact tabulates.reached
  case step_empty => exact follows.step_empty
  case mem_finals =>
    intro i S known
    have lt := Numbering.lt_size_of_get? known
    show i ∈ IndexSet.ofList ((List.range _).filter fun i =>
      ((moves.states S₀ h).get? i).any final) ↔ _
    rw [IndexSet.mem_ofList, List.mem_filter, List.mem_range, known, size_eq]
    exact ⟨And.right, fun accepted => ⟨lt, accepted⟩⟩

theorem size_table_le {moves : SetMoves n} (h : S₀.Below n) (final : IndexSet → Bool) :
    (moves.table S₀ h final).size ≤ 1 <<< n := by
  have done := Subsets.rows_size_complete moves (Subsets.initial S₀ h)
  exact Nat.le_trans (Nat.le_of_eq done)
    (Numbering.size_le_two_pow ((Subsets.initial S₀ h).complete moves).below)

namespace Tabulates

variable {d : Dfa} {ν : Numbering} {final : IndexSet → Bool} {word other : List String} {i j : Nat}

theorem run_nil (h : d.Tabulates ν step S₀ final) : d.run [] = some 0 := by
  have pos : 0 < d.size := h.size_eq ▸ Numbering.lt_size_of_get? h.first
  rw [run, List.foldl_nil, if_pos pos]

theorem run_iff (h : d.Tabulates ν step S₀ final) (word : List String) :
    (∀ i, d.run word = some i → ν.get? i = some (word.foldl step S₀)) ∧
      (d.run word = none ↔ word ≠ [] ∧ word.foldl step S₀ = ∅) := by
  induction word using List.reverseRecOn with
  | nil =>
    rw [h.run_nil]
    refine ⟨fun i eq => ?_, by simp⟩
    cases eq
    exact h.first
  | append_singleton word a ih =>
    rw [d.run_snoc, List.foldl_append]
    cases eq : d.run word with
    | none =>
      -- the run has stopped, and no step leads out of the empty set
      have left := (ih.2.mp eq).2
      simp [left, h.step_empty]
    | some i =>
      have leads := h.leads (ih.1 i eq)
      refine ⟨fun j found => leads.get?_of_some found, ?_⟩
      rw [Option.bind_some]
      exact leads.get?_eq_none.trans (by simp)

theorem get?_of_run (h : d.Tabulates ν step S₀ final) (run : d.run word = some i) :
    ν.get? i = some (word.foldl step S₀) := (h.run_iff word).1 i run

theorem eq_iff (h : d.Tabulates ν step S₀ final) (run : d.run word = some i)
    (run' : d.run other = some j) : i = j ↔ word.foldl step S₀ = other.foldl step S₀ := by
  have left := h.get?_of_run run
  have right := h.get?_of_run run'
  constructor
  · rintro rfl
    exact Option.some.inj (left.symm.trans right)
  · intro same
    exact Numbering.eq_of_get? (same ▸ left) right

theorem reachable (h : d.Tabulates ν step S₀ final) : d.Reachable := by
  intro q lt
  rw [h.size_eq] at lt
  have known : ν.get? q = some ν.sets[q] := Array.getElem?_eq_getElem lt
  obtain ⟨word, reached, some'⟩ := h.reached known
  refine ⟨word, ?_⟩
  cases eq : d.run word with
  | none =>
    obtain ⟨ne, empty⟩ := (h.run_iff word).2.mp eq
    exact (some'.elim ne fun ne => ne (reached ▸ empty)).elim
  | some i =>
    have here := h.get?_of_run eq
    rw [reached] at here
    rw [Numbering.eq_of_get? here known]

theorem language_eq (h : d.Tabulates ν step S₀ final) (nothing : final ∅ = false)
    (word : List String) : d.language word = final (word.foldl step S₀) := by
  rw [language]
  cases eq : d.run word with
  | none =>
    rw [((h.run_iff word).2.mp eq).2, nothing]
    rfl
  | some i =>
    have mem := h.mem_finals (h.get?_of_run eq)
    rw [Bool.eq_iff_iff, ← mem]
    simp

end Tabulates

end Dfa

theorem all_mem_iff_subset {word alphabet : List String} :
    word.all (· ∈ alphabet) = true ↔ word ⊆ alphabet := by
  simp [List.subset_def]

namespace Nfa

theorem after_eq_empty_iff (n : Nfa) {S : IndexSet} {a : String} :
    n.after S a = ∅ ↔ n.targets S a = [] := by
  constructor
  · intro empty
    rw [List.eq_nil_iff_forall_not_mem]
    intro t ht
    have mem : t ∈ n.after S a := (n.mem_closure fun q => n.targets_lt).mpr ⟨t, ht, .refl t⟩
    exact IndexSet.eq_empty_iff.mp empty t mem
  · intro none
    rw [after, none, closure_nil]

def afterIn (n : Nfa) (alphabet : List String) (S : IndexSet) (a : String) : IndexSet :=
  if a ∈ alphabet then n.after S a else ∅

theorem follows_setMoves (n : Nfa) (alphabet : List String) :
    (n.setMoves alphabet).Follows (n.afterIn alphabet) where
  mem_out {S T a} := by
    show (a, T) ∈ alphabet.filterMap _ ↔ _
    rw [List.mem_filterMap, afterIn]
    constructor
    · rintro ⟨b, known, found⟩
      dsimp only at found
      split at found
      · cases found
      · rename_i some'
        cases found
        rw [if_pos known]
        refine ⟨rfl, fun empty => some' ?_⟩
        rw [n.after_eq_empty_iff.mp empty]
        rfl
    · rintro ⟨rfl, ne⟩
      by_cases known : a ∈ alphabet
      · rw [if_pos known] at ne ⊢
        refine ⟨a, known, ?_⟩
        have some' : ¬ (n.targets S a).isEmpty = true := by
          rw [List.isEmpty_iff, ← n.after_eq_empty_iff]
          exact ne
        exact if_neg some'
      · rw [if_neg known] at ne
        exact absurd rfl ne
  step_empty a := by
    rw [afterIn, after_empty, ite_self]

theorem foldl_afterIn (n : Nfa) (alphabet : List String) (word : List String) (S : IndexSet) :
    word.foldl (n.afterIn alphabet) S =
      if word.all (· ∈ alphabet) then word.foldl n.after S else ∅ := by
  induction word generalizing S with
  | nil => rfl
  | cons a word ih =>
    rw [List.foldl_cons, ih, afterIn]
    by_cases known : a ∈ alphabet
    · simp [known]
    · simp [known, foldl_after_empty]

theorem run_of_size_eq_zero {n : Nfa} (h : n.size = 0) (word : List String) : n.run word = ∅ := by
  have none : n.initial = ∅ := by
    rw [IndexSet.eq_empty_iff]
    intro q hq
    have lt := n.closure_below [0] q hq
    omega
  rw [run, none, foldl_after_empty]

theorem mem_initial {n : Nfa} (inhabited : 0 < n.size) : 0 ∈ n.initial :=
  (n.mem_closure (by simpa using inhabited)).mpr ⟨0, List.mem_singleton_self 0, .refl 0⟩

theorem determinize_of_size_eq_zero {n : Nfa} (h : n.size = 0) (alphabet : List String) :
    n.determinize alphabet = .empty := if_pos h

theorem tabulates_determinize {n : Nfa} (inhabited : 0 < n.size) (alphabet : List String) :
    (n.determinize alphabet).Tabulates
      ((n.setMoves alphabet).states n.initial (n.closure_below [0])) (n.afterIn alphabet) n.initial
      n.accepting := by
  rw [determinize, if_neg (Nat.ne_of_gt inhabited)]
  exact Dfa.tabulates_table (n.follows_setMoves alphabet) (n.closure_below [0]) n.accepting

theorem language_determinize (n : Nfa) (alphabet word : List String) :
    (n.determinize alphabet).language word = (word.all (· ∈ alphabet) && n.language word) := by
  rcases Nat.eq_zero_or_pos n.size with stateless | inhabited
  · rw [determinize_of_size_eq_zero stateless, Dfa.language, Dfa.run_empty, language,
      run_of_size_eq_zero stateless, accepting_empty, Bool.and_false]
    rfl
  · rw [(tabulates_determinize inhabited alphabet).language_eq n.accepting_empty, foldl_afterIn]
    split
    · rename_i known
      rw [known, Bool.true_and]
      rfl
    · rename_i foreign
      rw [accepting_empty, Bool.eq_false_iff.mpr foreign, Bool.false_and]

/-- The states of a table stand for distinct configurations of the automaton, none of them empty. A word
leads to the state for its configuration; one whose configuration is empty, or that does not keep to the
alphabet, leads to none. -/
structure Charts (n : Nfa) (alphabet : List String) (d : Dfa) (configuration : Nat → IndexSet) :
    Prop where
  nonempty : ∀ {i}, i < d.size → configuration i ≠ ∅
  injective : ∀ {i j}, i < d.size → j < d.size → configuration i = configuration j → i = j
  run_eq_some : ∀ {word i}, d.run word = some i → word ⊆ alphabet ∧ n.run word = configuration i
  run_eq_none : ∀ {word}, word ⊆ alphabet → d.run word = none → n.run word = ∅
  mem_finals : ∀ {i}, i < d.size → (i ∈ d.finals ↔ n.accepting (configuration i) = true)

theorem charts_of_tabulates {n : Nfa} {alphabet : List String} {d : Dfa} {ν : Numbering}
    (h : d.Tabulates ν (n.afterIn alphabet) n.initial n.accepting) (inhabited : 0 < n.size) :
    n.Charts alphabet d fun i => (ν.get? i).getD ∅ := by
  have known {i : Nat} (lt : i < d.size) : ν.get? i = some ((ν.get? i).getD ∅) := by
    rw [h.size_eq] at lt
    rw [Numbering.get?, Array.getElem?_eq_getElem lt, Option.getD_some]
  constructor
  case nonempty =>
    intro i lt
    obtain ⟨word, reached, rfl | ne⟩ := h.reached (known lt)
    · rw [← reached]
      exact IndexSet.ne_empty_iff.mpr ⟨0, mem_initial inhabited⟩
    · exact ne
  case injective =>
    intro i j lt lt' same
    exact Numbering.eq_of_get? (known lt) (same ▸ known lt')
  case run_eq_some =>
    intro word i run
    have there := h.get?_of_run run
    rw [foldl_afterIn] at there
    by_cases within : word.all (· ∈ alphabet)
    · rw [if_pos within] at there
      refine ⟨all_mem_iff_subset.mp within, ?_⟩
      rw [there]
      rfl
    · have stops : d.run word = none := by
        refine (h.run_iff word).2.mpr ⟨?_, ?_⟩
        · rintro rfl
          exact within rfl
        · rw [foldl_afterIn, if_neg within]
      rw [stops] at run
      cases run
  case run_eq_none =>
    intro word within stops
    have empty := ((h.run_iff word).2.mp stops).2
    rwa [foldl_afterIn, if_pos (all_mem_iff_subset.mpr within)] at empty
  case mem_finals => exact fun lt => h.mem_finals (known lt)

theorem exists_charts_determinize (n : Nfa) (alphabet : List String) :
    ∃ configuration, n.Charts alphabet (n.determinize alphabet) configuration := by
  rcases Nat.eq_zero_or_pos n.size with stateless | inhabited
  · rw [determinize_of_size_eq_zero stateless]
    refine ⟨fun _ => ∅, nofun, nofun, fun {word i} run => ?_, fun {word} _ _ => ?_, nofun⟩
    · rw [Dfa.run_empty] at run
      cases run
    · exact run_of_size_eq_zero stateless word
  · exact ⟨_, charts_of_tabulates (tabulates_determinize inhabited alphabet) inhabited⟩

theorem reachable_determinize (n : Nfa) (alphabet : List String) :
    (n.determinize alphabet).Reachable := by
  rcases Nat.eq_zero_or_pos n.size with stateless | inhabited
  · rw [determinize_of_size_eq_zero stateless]
    exact nofun
  · exact (tabulates_determinize inhabited alphabet).reachable

theorem size_determinize_le (n : Nfa) (alphabet : List String) :
    (n.determinize alphabet).size ≤ 1 <<< n.size := by
  rw [determinize]
  split
  · exact Nat.zero_le _
  · exact Dfa.size_table_le _ n.accepting

end Nfa

/-- Whatever closures the automaton remembers, its table accepts the words of the alphabet that the automaton
accepts, and no others. All states of the table are reached, and they stand for distinct configurations. Each
turn of the construction gives one of them its row, so it ends. -/
theorem Simulation.determinizes (s : Simulation) (alphabet : List String) :
    (∀ word, (Automaton.recognizes (s.nfa.determinize alphabet) word).1 = true ↔
      (Automaton.recognizes s word).1 = true ∧ word ⊆ alphabet) ∧
    (s.nfa.determinize alphabet).Reachable ∧
    (∃ configuration, s.nfa.Charts alphabet (s.nfa.determinize alphabet) configuration) ∧
    (s.nfa.determinize alphabet).size ≤ 1 <<< s.nfa.size := by
  refine ⟨fun word => ?_, s.nfa.reachable_determinize alphabet, s.nfa.exists_charts_determinize alphabet,
    s.nfa.size_determinize_le alphabet⟩
  rw [Dfa.recognizes_eq_language, s.interpretation.recognizes_eq, Nfa.language_determinize,
    Bool.and_eq_true, all_mem_iff_subset, and_comm]

end CallAtlas
