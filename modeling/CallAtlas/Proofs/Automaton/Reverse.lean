import CallAtlas.Automaton.Minimal
import CallAtlas.Proofs.Automaton.Subset
import Mathlib.Data.Fintype.Card
/-!
Tables read backwards. The sets of a reversed table are the sets of states from which a word is accepted,
and `acceptsFrom_reverse` says which words such a set accepts. When every state of a table can be reached,
its reversal has no state to spare: that is `irredundant_reverse`, and `Irredundant.size_le` says what
follows.
-/
namespace CallAtlas

namespace Dfa

variable {d : Dfa} {p q : Nat} {a : String} {word u v w : List String}

def runFrom (d : Dfa) (q : Nat) (word : List String) : Option Nat :=
  word.foldl (fun s a => s.bind fun q => d.move? q a) (some q)

def acceptsFrom (d : Dfa) (q : Nat) (word : List String) : Bool :=
  (d.runFrom q word).any (· ∈ d.finals)

theorem runFrom_cons (d : Dfa) (q : Nat) (a : String) (word : List String) :
    d.runFrom q (a :: word) = (d.move? q a).bind fun t => d.runFrom t word := by
  rw [runFrom, List.foldl_cons, Option.bind_some]
  cases d.move? q a with
  | none => exact foldl_move?_none d word
  | some t => rfl

theorem acceptsFrom_nil : d.acceptsFrom q [] = true ↔ q ∈ d.finals := by
  simp [acceptsFrom, runFrom]

theorem acceptsFrom_cons : d.acceptsFrom q (a :: word) = true ↔
    ∃ t, d.move? q a = some t ∧ d.acceptsFrom t word = true := by
  rw [acceptsFrom, runFrom_cons]
  cases d.move? q a with
  | none => simp
  | some t => simp [acceptsFrom]

theorem language_append (d : Dfa) (u w : List String) :
    d.language (u ++ w) = (d.run u).any (d.acceptsFrom · w) := by
  rw [language, run_append]
  cases d.run u with
  | none =>
    rw [foldl_move?_none]
    rfl
  | some q => rfl

theorem lt_size_of_move? {t : Nat} (h : d.move? q a = some t) : q < d.size := by
  refine Nat.lt_of_not_le fun le => ?_
  rw [move?, row, Array.getElem?_eq_none le] at h
  cases h

theorem lt_size_of_run (h : d.run word = some q) : q < d.size := by
  induction word using List.reverseRecOn with
  | nil =>
    rw [run, List.foldl_nil] at h
    split at h
    · rename_i pos
      cases h
      exact pos
    · cases h
  | append_singleton word a =>
    rw [d.run_snoc] at h
    obtain ⟨p, -, move⟩ := Option.bind_eq_some_iff.mp h
    exact move?_lt move

theorem lt_size_of_acceptsFrom (h : d.acceptsFrom q word = true) : q < d.size := by
  cases word with
  | nil => exact d.finals_below q (acceptsFrom_nil.mp h)
  | cons a word =>
    obtain ⟨t, move, -⟩ := acceptsFrom_cons.mp h
    exact lt_size_of_move? move

theorem language_eq_acceptsFrom (d : Dfa) (word : List String) :
    d.language word = d.acceptsFrom 0 word := by
  have split := d.language_append [] word
  rw [List.nil_append] at split
  rw [split, run, List.foldl_nil]
  split
  · rfl
  · rename_i none
    cases accepted : d.acceptsFrom 0 word with
    | false => rfl
    | true => exact absurd (lt_size_of_acceptsFrom accepted) none

def ending (d : Dfa) (word : List String) : IndexSet :=
  .ofList ((List.range d.size).filter (d.acceptsFrom · word))

theorem mem_ending : q ∈ d.ending word ↔ d.acceptsFrom q word = true := by
  rw [ending, IndexSet.mem_ofList, List.mem_filter, List.mem_range]
  exact ⟨And.right, fun h => ⟨lt_size_of_acceptsFrom h, h⟩⟩

theorem ending_nil (d : Dfa) : d.ending [] = d.finals := by
  ext q
  rw [mem_ending, acceptsFrom_nil]

theorem Reachable.ending_eq_iff (h : d.Reachable) : d.ending w = d.ending v ↔
    ∀ u, d.language (u ++ w) = d.language (u ++ v) := by
  constructor
  · intro same u
    have from' (q : Nat) : d.acceptsFrom q w = d.acceptsFrom q v := by
      rw [Bool.eq_iff_iff, ← mem_ending, ← mem_ending, same]
    simp only [language_append, from']
  · intro same
    have from' (q : Nat) (lt : q < d.size) : d.acceptsFrom q w = d.acceptsFrom q v := by
      obtain ⟨u, run⟩ := h q lt
      have agree := same u
      rwa [language_append, language_append, run] at agree
    ext q
    rw [mem_ending, mem_ending]
    constructor
    · intro accepted
      rwa [← from' q (lt_size_of_acceptsFrom accepted)]
    · intro accepted
      rwa [from' q (lt_size_of_acceptsFrom accepted)]

theorem Reachable.exists_mem_ending (h : d.Reachable) :
    (∃ q, q ∈ d.ending w) ↔ ∃ u, d.language (u ++ w) = true := by
  constructor
  · rintro ⟨q, mem⟩
    have accepted := mem_ending.mp mem
    obtain ⟨u, run⟩ := h q (lt_size_of_acceptsFrom accepted)
    refine ⟨u, ?_⟩
    rw [language_append, run]
    exact accepted
  · rintro ⟨u, accepted⟩
    rw [language_append, Option.any_eq_true] at accepted
    obtain ⟨q, -, accepted⟩ := accepted
    exact ⟨q, mem_ending.mpr accepted⟩

theorem mem_movingInto {S : IndexSet} :
    p ∈ d.movingInto S a ↔ ∃ t, d.move? p a = some t ∧ t ∈ S := by
  rw [movingInto, IndexSet.mem_ofList, List.mem_filter, List.mem_range]
  constructor
  · rintro ⟨-, into⟩
    simpa [Option.any_eq_true] using into
  · rintro ⟨t, move, mem⟩
    exact ⟨lt_size_of_move? move, by simpa [move] using mem⟩

theorem movingInto_ending (d : Dfa) (word : List String) (a : String) :
    d.movingInto (d.ending word) a = d.ending (a :: word) := by
  ext p
  simp only [mem_movingInto, mem_ending, acceptsFrom_cons]

theorem foldl_movingInto (d : Dfa) (word v : List String) :
    word.foldl d.movingInto (d.ending v) = d.ending (word.reverse ++ v) := by
  induction word generalizing v with
  | nil => rfl
  | cons a word ih =>
    rw [List.foldl_cons, movingInto_ending, ih, List.reverse_cons, List.append_assoc]
    rfl

theorem foldl_movingInto_finals (d : Dfa) (word : List String) :
    word.foldl d.movingInto d.finals = d.ending word.reverse := by
  rw [← ending_nil, foldl_movingInto, List.append_nil]

theorem mem_namesInto {S : IndexSet} : a ∈ d.namesInto S ↔ ∃ p, p ∈ d.movingInto S a := by
  rw [namesInto, NameSet.mem_ofList, List.mem_flatMap]
  constructor
  · rintro ⟨row, hrow, hname⟩
    obtain ⟨⟨b, t⟩, entry, rfl⟩ := List.mem_map.mp hname
    obtain ⟨entry, mem⟩ := List.mem_filter.mp entry
    obtain ⟨p, found⟩ := Array.mem_iff_getElem?.mp (Array.mem_toList_iff.mp hrow)
    refine ⟨p, mem_movingInto.mpr ⟨t, ?_, of_decide_eq_true mem⟩⟩
    rw [move?, Dfa.row, found]
    exact NameMap.get?_eq_some_iff.mpr entry
  · rintro ⟨p, into⟩
    obtain ⟨t, move, mem⟩ := mem_movingInto.mp into
    have lt : p < d.rows.size := lt_size_of_move? move
    have found : d.rows[p]? = some d.rows[p] := Array.getElem?_eq_getElem lt
    rw [move?, Dfa.row, found] at move
    have entry := NameMap.get?_eq_some_iff.mp move
    refine ⟨d.rows[p], Array.mem_toList_iff.mpr (Array.getElem_mem lt), List.mem_map.mpr ?_⟩
    exact ⟨(a, t), List.mem_filter.mpr ⟨entry, decide_eq_true mem⟩, rfl⟩

theorem follows_backward (d : Dfa) : d.backward.Follows d.movingInto where
  mem_out {S T a} := by
    show (a, T) ∈ (d.namesInto S).toList.map (fun a => (a, d.movingInto S a)) ↔ _
    rw [List.mem_map]
    constructor
    · rintro ⟨b, name, eq⟩
      cases eq
      exact ⟨rfl, IndexSet.ne_empty_iff.mpr (mem_namesInto.mp name)⟩
    · rintro ⟨rfl, ne⟩
      exact ⟨a, mem_namesInto.mpr (IndexSet.ne_empty_iff.mp ne), rfl⟩
  step_empty a := by
    rw [IndexSet.eq_empty_iff]
    intro p into
    obtain ⟨t, -, mem⟩ := mem_movingInto.mp into
    exact IndexSet.not_mem_empty t mem

theorem tabulates_reverse (d : Dfa) : d.reverse.Tabulates
    (d.backward.states d.finals d.finals_below) d.movingInto d.finals (0 ∈ ·) :=
  tabulates_table d.follows_backward d.finals_below _

theorem reachable_reverse (d : Dfa) : d.reverse.Reachable := d.tabulates_reverse.reachable

theorem language_reverse (d : Dfa) (word : List String) :
    d.reverse.language word = d.language word.reverse := by
  have read := d.tabulates_reverse.language_eq (decide_eq_false (IndexSet.not_mem_empty 0)) word
  rw [read, foldl_movingInto_finals, language_eq_acceptsFrom, Bool.eq_iff_iff, decide_eq_true_eq,
    mem_ending]

/-- The construction of the reversed table ends, as each of its turns gives its row to another set of states.
The table then accepts a word when the old one accepts it read from right to left. -/
theorem recognizes_reverse (d : Dfa) :
    (∀ word, (Automaton.recognizes d.reverse word).1 = (Automaton.recognizes d word.reverse).1) ∧
      d.reverse.size ≤ 1 <<< d.size := by
  refine ⟨fun word => ?_, size_table_le d.finals_below _⟩
  rw [recognizes_eq_language, recognizes_eq_language, language_reverse]

theorem read_none (d : Dfa) (word : List String) : (Automaton.read d none word).1 = false := by
  cases word with
  | nil => rfl
  | cons a word => rfl

theorem read_eq_acceptsFrom (d : Dfa) (q : Nat) (word : List String) :
    (Automaton.read d (some q) word).1 = d.acceptsFrom q word := by
  induction word generalizing q with
  | nil => rfl
  | cons a word ih =>
    rw [acceptsFrom, runFrom_cons]
    show (Automaton.read d (d.move? q a) word).1 = _
    cases d.move? q a with
    | none => exact d.read_none word
    | some t => exact ih t

/-- The state that stands for `S` accepts a word when the word, read from right to left, leads the old
table into `S`. -/
theorem acceptsFrom_reverse {i : Nat} {S : IndexSet}
    (known : (d.backward.states d.finals d.finals_below).get? i = some S) :
    d.reverse.acceptsFrom i word = true ↔ ∃ q ∈ S, d.run word.reverse = some q := by
  have tabulates := d.tabulates_reverse
  obtain ⟨u, run⟩ := d.reachable_reverse i (tabulates.size_eq ▸ Numbering.lt_size_of_get? known)
  have set : S = d.ending u.reverse := by
    rw [← foldl_movingInto_finals]
    exact Option.some.inj (known.symm.trans (tabulates.get?_of_run run))
  have read := d.reverse.language_append u word
  rw [run, Option.any_some, language_reverse, List.reverse_append, language_append] at read
  rw [← read, set, Option.any_eq_true]
  simp only [mem_ending, and_comm]

theorem lt_size_of_mem_states {i : Nat} {S : IndexSet}
    (known : (d.backward.states d.finals d.finals_below).get? i = some S) (mem : q ∈ S) : q < d.size :=
  ((Subsets.initial d.finals d.finals_below).complete d.backward).below S
    (Array.mem_of_getElem? known) q mem

/-- When all states of a table are reached, those of the reversed table are too, and any two of them are
told apart. Their sets differ in a state, some word leads to it, and that word, read from right to left,
is accepted from one of the two only. -/
theorem reachable_separated_reverse (h : d.Reachable) : d.reverse.Reachable ∧
    ∀ i < d.reverse.size, ∀ j < d.reverse.size, i ≠ j → ∃ word,
      (Automaton.read d.reverse (some i) word).1 ≠ (Automaton.read d.reverse (some j) word).1 := by
  refine ⟨d.reachable_reverse, fun i lt j lt' ne => ?_⟩
  rw [d.tabulates_reverse.size_eq] at lt lt'
  obtain ⟨S, known⟩ : ∃ S, (d.backward.states d.finals d.finals_below).get? i = some S :=
    ⟨_, Array.getElem?_eq_getElem lt⟩
  obtain ⟨T, known'⟩ : ∃ T, (d.backward.states d.finals d.finals_below).get? j = some T :=
    ⟨_, Array.getElem?_eq_getElem lt'⟩
  have differ : ¬ ∀ q, q ∈ S ↔ q ∈ T := fun same =>
    ne (Numbering.eq_of_get? known (IndexSet.ext same ▸ known'))
  obtain ⟨q, one⟩ := Classical.not_forall.mp differ
  have inside : q < d.size := by
    by_cases mem : q ∈ S
    · exact lt_size_of_mem_states known mem
    · exact lt_size_of_mem_states known' (Classical.not_not.mp fun mem' => one (iff_of_false mem mem'))
  obtain ⟨u, run⟩ := h q inside
  -- a table is in one state after a word, so the word tells whether that state belongs to a set
  have ends {k : Nat} {U : IndexSet}
      (known : (d.backward.states d.finals d.finals_below).get? k = some U) :
      (Automaton.read d.reverse (some k) u.reverse).1 = true ↔ q ∈ U := by
    rw [read_eq_acceptsFrom, acceptsFrom_reverse known, List.reverse_reverse, run]
    simp
  refine ⟨u.reverse, fun same => one ?_⟩
  rw [← ends known, ← ends known', same]

/-- Two names "a" in a row lead to the last state, where every word goes on. -/
def stairs : Dfa :=
  let d := Dfa.empty.addState.addState.addState
  let d := (d.addMove 0 "a" 1 (by decide)).addMove 0 "b" 0 (by decide)
  let d := (d.addMove 1 "a" 2 (by decide)).addMove 1 "b" 0 (by decide)
  ((d.addMove 2 "a" 2 (by decide)).addMove 2 "b" 2 (by decide)).markFinal 2 (by decide)

theorem reachable_separated_reverse_stairs : stairs.Reachable ∧ stairs.reverse.size = 3 ∧
    stairs.reverse.Reachable ∧ ∃ word,
      (Automaton.read stairs.reverse (some 1) word).1 ≠
        (Automaton.read stairs.reverse (some 2) word).1 := by
  have reachable : stairs.Reachable := by
    intro q lt
    have lt' : q < 3 := lt
    obtain rfl | rfl | rfl : q = 0 ∨ q = 1 ∨ q = 2 := by omega
    · exact ⟨[], by decide⟩
    · exact ⟨["a"], by decide⟩
    · exact ⟨["a", "a"], by decide⟩
  have size : stairs.reverse.size = 3 := by with_unfolding_all decide
  have separated := reachable_separated_reverse reachable
  exact ⟨reachable, size, separated.1, separated.2 1 (by omega) 2 (by omega) (by decide)⟩

/-- No state could be left out or joined with another one. A state that is not entered by any name may
be dead, as in the table of the empty language. -/
structure Irredundant (d : Dfa) : Prop where
  reachable : d.Reachable
  separated : ∀ {w v i j}, d.run w = some i → d.run v = some j →
    (∀ u, d.language (w ++ u) = d.language (v ++ u)) → i = j
  live : ∀ {w i}, d.run w = some i → w = [] ∨ ∃ u, d.language (w ++ u) = true

theorem irredundant_reverse (h : d.Reachable) : d.reverse.Irredundant where
  reachable := d.reachable_reverse
  separated {w v i j} run run' same := by
    rw [d.tabulates_reverse.eq_iff run run', foldl_movingInto_finals, foldl_movingInto_finals,
      h.ending_eq_iff]
    intro u
    have agree := same u.reverse
    simpa [language_reverse] using agree
  live {w i} run := by
    have entered : ¬ d.reverse.run w = none := by simp [run]
    rw [(d.tabulates_reverse.run_iff w).2, foldl_movingInto_finals] at entered
    refine or_iff_not_imp_left.mpr fun ne => ?_
    have met := IndexSet.ne_empty_iff.mp fun empty => entered ⟨ne, empty⟩
    obtain ⟨u, accepted⟩ := h.exists_mem_ending.mp met
    exact ⟨u.reverse, by simpa [language_reverse] using accepted⟩

/-- Words that lead to different states lead to different states of any other table of the language, so
that table has no fewer states. -/
theorem Irredundant.size_le (h : d.Irredundant) {d' : Dfa} (inhabited : 0 < d'.size)
    (same : ∀ word, d'.language word = d.language word) : d.size ≤ d'.size := by
  choose word entered using h.reachable
  -- the other table does not stop on these words: the word is empty or part of an accepted one
  have total (q : Nat) (lt : q < d.size) : ∃ t, d'.run (word q lt) = some t := by
    cases eq : d'.run (word q lt) with
    | some t => exact ⟨t, rfl⟩
    | none =>
      rcases h.live (entered q lt) with nil | ⟨u, accepted⟩
      · rw [nil, run, List.foldl_nil, if_pos inhabited] at eq
        cases eq
      · rw [← same, language_append, eq] at accepted
        cases accepted
  choose place placed using total
  have injective (p q : Fin d.size) (eq : place p p.isLt = place q q.isLt) : p = q := by
    refine Fin.ext (h.separated (entered p p.isLt) (entered q q.isLt) fun u => ?_)
    rw [← same, ← same, language_append, language_append, placed, placed, eq]
  have card := Fintype.card_le_of_injective
    (fun q : Fin d.size => (⟨place q q.isLt, lt_size_of_run (placed q q.isLt)⟩ : Fin d'.size))
    fun p q eq => injective p q (Fin.mk.inj eq)
  simpa using card

end Dfa

end CallAtlas
