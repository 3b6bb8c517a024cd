import CallAtlas.Automaton.Nfa
import CallAtlas.NameMap
/-!
Deterministic automata given by a table of moves. State 0 is initial; where a row has no move for a
name, the machine is dead. Two automata are equal when their tables and final states are.
-/
namespace CallAtlas

structure Dfa where
  rows : Array (NameMap Nat) := #[]
  finals : IndexSet := ∅
  in_range : ∀ row ∈ rows, ∀ a t, row.get? a = some t → t < rows.size := by
    intro row h; simp at h
  finals_below : finals.Below rows.size := by exact IndexSet.below_empty _
deriving DecidableEq

namespace Dfa

def empty : Dfa := {}

instance : Inhabited Dfa := ⟨empty⟩

def size (d : Dfa) : Nat := d.rows.size

def row (d : Dfa) (q : Nat) : NameMap Nat := d.rows[q]?.getD ∅

def move? (d : Dfa) (q : Nat) (a : String) : Option Nat := (d.row q).get? a

theorem move?_lt {d : Dfa} {q t : Nat} {a : String} (h : d.move? q a = some t) : t < d.size := by
  unfold move? row at h
  cases hq : d.rows[q]? with
  | none => simp [hq] at h
  | some row =>
    rw [hq] at h
    exact d.in_range row (Array.mem_of_getElem? hq) a t h

def addState (d : Dfa) : Dfa where
  rows := d.rows.push ∅
  finals := d.finals
  in_range := by
    intro row h a t ht
    rw [Array.size_push]
    rcases Array.mem_push.mp h with h | rfl
    · exact Nat.lt_succ_of_lt (d.in_range row h a t ht)
    · simp at ht
  finals_below := by
    intro q h
    rw [Array.size_push]
    exact Nat.lt_succ_of_lt (d.finals_below q h)

/-- Add a move, in place of the one that `q` had for the name. Without state `q` the table stays as
it is. -/
def addMove (d : Dfa) (q : Nat) (a : String) (t : Nat) (ht : t < d.size) : Dfa where
  rows := d.rows.setIfInBounds q ((d.row q).put a t)
  finals := d.finals
  in_range := by
    intro row h b u hu
    rw [Array.size_setIfInBounds]
    rcases Array.mem_or_eq_of_mem_setIfInBounds h with h | rfl
    · exact d.in_range row h b u hu
    · rw [NameMap.get?_put] at hu
      split at hu
      · exact Option.some.inj hu ▸ ht
      · exact move?_lt hu
  finals_below := by
    rw [Array.size_setIfInBounds]
    exact d.finals_below

def markFinal (d : Dfa) (q : Nat) (hq : q < d.size) : Dfa where
  rows := d.rows
  finals := d.finals.insert q
  in_range := d.in_range
  finals_below := by
    intro r h
    rcases IndexSet.mem_insert.mp h with rfl | h
    · exact hq
    · exact d.finals_below r h

/-- Add a move after a look at its states, the target first. -/
def addMove? (d : Dfa) (q : Nat) (a : String) (t : Nat) : Except MissingState Dfa :=
  if ht : t < d.size then
    if q < d.size then .ok (d.addMove q a t ht) else .error (.source q)
  else .error (.target t)

def markFinal? (d : Dfa) (q : Nat) : Except MissingState Dfa :=
  if hq : q < d.size then .ok (d.markFinal q hq) else .error (.target q)

instance : Automaton Dfa (Option Nat) where
  start d := (if 0 < d.size then some 0 else none, d)
  step d s a := (s.bind fun q => d.move? q a, d)
  accepts d s := s.any (· ∈ d.finals)
  dead _ s := s.isNone

end Dfa

end CallAtlas
