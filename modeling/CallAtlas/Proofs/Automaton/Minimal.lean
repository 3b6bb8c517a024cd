import CallAtlas.Proofs.Automaton.Trim
import Mathlib.Logic.Relator
/-!
Minimization: smallest tables, and one table for one language. The second reversal numbers its sets
breadth first and by ascending name, so its numbers depend on nothing but the order in which sets appear.
Main statements: `table_congr`, sets that correspond one to one get the same numbers, `smallest_minimal`
and `minimal_eq_iff`.
-/
namespace CallAtlas

section

variable {R : IndexSet → IndexSet → Prop} {ν μ : Numbering} {S T : IndexSet} {m n : Nat}

/-- Sets with the same number correspond, and each numbering has as many as the other. -/
structure Numbering.Matched (R : IndexSet → IndexSet → Prop) (ν μ : Numbering) : Prop where
  size_eq : ν.size = μ.size
  related : ∀ {i S T}, ν.get? i = some S → μ.get? i = some T → R S T

theorem Numbering.Matched.flip (h : Matched R ν μ) : Matched (fun T S => R S T) μ ν :=
  ⟨h.size_eq.symm, fun known known' => h.related known' known⟩

theorem Numbering.Matched.get?_of_get? (unique : Relator.RightUnique R) (h : Matched R ν μ) (hR : R S T)
    {i : Nat} (known : ν.get? i = some S) : μ.get? i = some T := by
  have lt : i < μ.size := h.size_eq ▸ lt_size_of_get? known
  have there : μ.get? i = some μ.sets[i] := Array.getElem?_eq_getElem lt
  rw [there, unique hR (h.related known there)]

theorem Numbering.Matched.mem_of_mem (unique : Relator.RightUnique R) (h : Matched R ν μ) (hR : R S T)
    (mem : S ∈ ν.sets) : T ∈ μ.sets := by
  obtain ⟨i, known⟩ := Array.mem_iff_getElem?.mp mem
  exact Array.mem_of_getElem? (h.get?_of_get? unique hR known)

theorem Numbering.Matched.number (unique : Relator.BiUnique R) (h : Matched R ν μ) (hR : R S T) :
    (ν.number S).1 = (μ.number T).1 ∧ Matched R (ν.number S).2 (μ.number T).2 := by
  by_cases mem : S ∈ ν.sets
  · obtain ⟨i, known⟩ := Array.mem_iff_getElem?.mp mem
    rw [number_of_get? known, number_of_get? (h.get?_of_get? unique.2 hR known)]
    exact ⟨rfl, h⟩
  · -- new on one side, so new on the other: both get the number that comes next
    have fresh : T ∉ μ.sets := mt (h.flip.mem_of_mem unique.1.flip hR) mem
    rw [number_of_not_mem mem, number_of_not_mem fresh]
    have size_eq : ν.sets.size = μ.sets.size := h.size_eq
    refine ⟨h.size_eq, ?_, ?_⟩
    · simp [size, size_eq]
    · intro i S' T' known known'
      simp only [get?, Array.getElem?_push, size_eq] at known known'
      split at known
      · rename_i last
        rw [if_pos last] at known'
        cases known
        cases known'
        exact hR
      · rename_i before
        rw [if_neg before] at known'
        exact h.related known known'

def MovesMatch (R : IndexSet → IndexSet → Prop) :
    List (String × IndexSet) → List (String × IndexSet) → Prop :=
  List.Forall₂ fun move move' => move.1 = move'.1 ∧ R move.2 move'.2

namespace Subsets

theorem matched_numberAll (unique : Relator.BiUnique R) {moves moves' : List (String × IndexSet)}
    (hm : MovesMatch R moves moves') (h : Numbering.Matched R ν μ) (row : NameMap Nat) :
    (numberAll ν row moves).1 = (numberAll μ row moves').1 ∧
      Numbering.Matched R (numberAll ν row moves).2 (numberAll μ row moves').2 := by
  induction hm generalizing ν μ row with
  | nil => exact ⟨rfl, h⟩
  | @cons move move' rest rest' head _ ih =>
    obtain ⟨a, S⟩ := move
    obtain ⟨b, T⟩ := move'
    obtain ⟨rfl, hR⟩ := head
    obtain ⟨same, matched⟩ := h.number unique hR
    rw [numberAll, numberAll, same]
    exact ih matched _

structure Matched (R : IndexSet → IndexSet → Prop) (c : Subsets m) (c' : Subsets n) : Prop where
  rows_eq : c.rows = c'.rows
  states : Numbering.Matched R c.states c'.states

variable {c : Subsets m} {c' : Subsets n} {moves : SetMoves m} {moves' : SetMoves n}

theorem Matched.expand (unique : Relator.BiUnique R)
    (hm : ∀ {S T}, R S T → MovesMatch R (moves.out S) (moves'.out T)) (h : Matched R c c')
    (lt : c.rows.size < c.states.size) (lt' : c'.rows.size < c'.states.size) :
    Matched R (c.expand moves lt) (c'.expand moves' lt') := by
  have known : c.states.get? c.rows.size = some (c.next lt) := Array.getElem?_eq_getElem lt
  have known' : c'.states.get? c.rows.size = some (c'.next lt') := by
    rw [h.rows_eq]
    exact Array.getElem?_eq_getElem lt'
  obtain ⟨row, matched⟩ := matched_numberAll unique (hm (h.states.related known known')) h.states ∅
  refine ⟨?_, matched⟩
  show c.rows.push _ = c'.rows.push _
  rw [h.rows_eq, row]

theorem Matched.complete (unique : Relator.BiUnique R)
    (hm : ∀ {S T}, R S T → MovesMatch R (moves.out S) (moves'.out T)) (h : Matched R c c') :
    Matched R (c.complete moves) (c'.complete moves') := by
  fun_induction Subsets.complete moves c generalizing c' with
  | case1 c lt ih =>
    have lt' : c'.rows.size < c'.states.size := by
      rw [← h.rows_eq, ← h.states.size_eq]
      exact lt
    rw [Subsets.complete.eq_def moves' c', dif_pos lt']
    exact ih (h.expand unique hm lt lt')
  | case2 c done =>
    have done' : ¬ c'.rows.size < c'.states.size := by
      rw [← h.rows_eq, ← h.states.size_eq]
      exact done
    rw [Subsets.complete.eq_def moves' c', dif_neg done']
    exact h

end Subsets

/-- Constructions whose sets correspond one to one make one table. -/
theorem SetMoves.table_congr {moves : SetMoves m} {moves' : SetMoves n} (unique : Relator.BiUnique R)
    (hm : ∀ {S T}, R S T → MovesMatch R (moves.out S) (moves'.out T)) (start : R S T)
    (h : S.Below m) (h' : T.Below n) {final final' : IndexSet → Bool}
    (hf : ∀ {S T}, R S T → final S = final' T) :
    moves.table S h final = moves'.table T h' final' := by
  have initial : Subsets.Matched R (Subsets.initial S h) (Subsets.initial T h') := by
    have empty : Numbering.Matched R .empty .empty :=
      ⟨rfl, fun known => by simp [Numbering.get?, Numbering.empty] at known⟩
    exact ⟨rfl, (empty.number unique start).2⟩
  have done := initial.complete unique hm
  refine Dfa.eq_of_eq done.rows_eq ?_
  show IndexSet.ofList ((List.range _).filter _) = IndexSet.ofList ((List.range _).filter _)
  rw [done.rows_eq]
  refine congrArg IndexSet.ofList (List.filter_congr fun i hi => ?_)
  have lt := List.mem_range.mp hi
  rw [Subsets.rows_size_complete] at lt
  have lt' := lt
  rw [← done.states.size_eq] at lt'
  have known := Array.getElem?_eq_getElem lt'
  have known' := Array.getElem?_eq_getElem lt
  show ((Subsets.complete moves _).states.sets[i]?).any final =
    ((Subsets.complete moves' _).states.sets[i]?).any final'
  rw [known, known']
  exact hf (done.states.related known known')

end

namespace Dfa

open Automaton (recognizes)

theorem language_minimal (d : Dfa) (word : List String) : d.minimal.language word = d.language word := by
  rw [minimal, language_reverse, language_reverse, List.reverse_reverse, language_trim]

theorem irredundant_minimal (d : Dfa) : d.minimal.Irredundant :=
  irredundant_reverse d.trim.reachable_reverse

/-- The minimal table accepts the words of the table, and none with a state that does so is smaller. -/
theorem smallest_minimal (d : Dfa) :
    (∀ word, (recognizes d.minimal word).1 = (recognizes d word).1) ∧
      ∀ other : Dfa, 0 < other.size →
        (∀ word, (recognizes other word).1 = (recognizes d word).1) → d.minimal.size ≤ other.size := by
  simp only [recognizes_eq_language]
  refine ⟨d.language_minimal, fun other inhabited same => ?_⟩
  refine d.irredundant_minimal.size_le inhabited fun word => ?_
  rw [same, d.language_minimal]

def loop : Dfa := (Dfa.empty.addState.addMove 0 "a" 0 (by decide)).markFinal 0 (by decide)

/-- The same words, with a second state that does nothing new. -/
def swing : Dfa :=
  let moves := (Dfa.empty.addState.addState.addMove 0 "a" 1 (by decide)).addMove 1 "a" 0 (by decide)
  (moves.markFinal 0 (by decide)).markFinal 1 (by decide)

theorem acceptsFrom_swing (word : List String) :
    swing.acceptsFrom 0 word = loop.acceptsFrom 0 word ∧
      swing.acceptsFrom 1 word = loop.acceptsFrom 0 word := by
  have back (a : String) : loop.move? 0 a = if a = "a" then some 0 else none := by
    simp [loop, move?, row, markFinal, addMove, addState, empty, NameMap.get?_put]
  have there (a : String) : swing.move? 0 a = if a = "a" then some 1 else none := by
    simp [swing, move?, row, markFinal, addMove, addState, empty, NameMap.get?_put]
  have again (a : String) : swing.move? 1 a = if a = "a" then some 0 else none := by
    simp [swing, move?, row, markFinal, addMove, addState, empty, NameMap.get?_put]
  induction word with
  | nil => decide
  | cons a word ih =>
    simp only [acceptsFrom, runFrom_cons, back, there, again]
    by_cases eq : a = "a"
    · simp only [if_pos eq, Option.bind_some]
      exact ih.symm
    · simp only [if_neg eq, Option.bind_none]
      exact ⟨rfl, rfl⟩

theorem smallest_minimal_swing :
    (0 < loop.size ∧ ∀ word, (recognizes loop word).1 = (recognizes swing word).1) ∧
      swing.minimal.size ≤ loop.size ∧ loop.size < swing.size := by
  have same (word : List String) : (recognizes loop word).1 = (recognizes swing word).1 := by
    rw [recognizes_eq_language, recognizes_eq_language, language_eq_acceptsFrom,
      language_eq_acceptsFrom, (acceptsFrom_swing word).1]
  exact ⟨⟨by decide, same⟩, swing.smallest_minimal.2 loop (by decide) same, by decide⟩

/-- Reversed, two tables of one language have corresponding sets: those of the states from which one and
the same word is accepted. -/
theorem reverse_congr {d d' : Dfa} (h : d.Reachable) (h' : d'.Reachable)
    (same : ∀ word, d.language word = d'.language word) : d.reverse = d'.reverse := by
  let R (S T : IndexSet) : Prop := ∃ word, d.ending word = S ∧ d'.ending word = T
  have agree {w v : List String} : d.ending w = d.ending v ↔ d'.ending w = d'.ending v := by
    rw [h.ending_eq_iff, h'.ending_eq_iff]
    simp only [same]
  have unique : Relator.BiUnique R := by
    constructor
    · rintro S T U ⟨w, rfl, rfl⟩ ⟨v, rfl, eq⟩
      exact agree.mpr eq.symm
    · rintro S T U ⟨w, rfl, rfl⟩ ⟨v, eq, rfl⟩
      exact agree.mp eq.symm
  have start : R d.finals d'.finals := ⟨[], d.ending_nil, d'.ending_nil⟩
  refine SetMoves.table_congr unique ?_ start d.finals_below d'.finals_below ?_
  · rintro S T ⟨word, rfl, rfl⟩
    have names : d.namesInto (d.ending word) = d'.namesInto (d'.ending word) := by
      apply NameSet.ext
      intro a
      simp only [mem_namesInto, movingInto_ending, h.exists_mem_ending, h'.exists_mem_ending, same]
    show MovesMatch R ((d.namesInto (d.ending word)).toList.map fun a => (a, d.movingInto _ a))
      ((d'.namesInto (d'.ending word)).toList.map fun a => (a, d'.movingInto _ a))
    rw [names, MovesMatch, List.forall₂_map_left_iff, List.forall₂_map_right_iff, List.forall₂_same]
    intro a _
    exact ⟨rfl, a :: word, (d.movingInto_ending word a).symm, (d'.movingInto_ending word a).symm⟩
  · rintro S T ⟨word, rfl, rfl⟩
    have accepted := same word
    rw [language_eq_acceptsFrom, language_eq_acceptsFrom, Bool.eq_iff_iff, ← mem_ending,
      ← mem_ending] at accepted
    exact decide_eq_decide.mpr accepted

/-- Minimal tables are equal when their languages are. -/
theorem minimal_eq_iff (d d' : Dfa) : d.minimal = d'.minimal ↔
    ∀ word, (recognizes d word).1 = (recognizes d' word).1 := by
  simp only [recognizes_eq_language]
  constructor
  · intro eq word
    rw [← d.language_minimal, eq, d'.language_minimal]
  · intro same
    refine reverse_congr d.trim.reachable_reverse d'.trim.reachable_reverse fun word => ?_
    simp only [language_reverse, language_trim, same]

end Dfa

end CallAtlas
