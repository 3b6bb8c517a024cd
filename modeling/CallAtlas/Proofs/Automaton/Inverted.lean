import CallAtlas.Proofs.Automaton.Reverse
/-!
Reversal by a table of predecessors: for each state and name, the states that move there. The table is filled
move by move, and a set is followed backwards by joining the rows of its members. Main statement:
`table_inverse`, the reversed table is the one that is made by search.
-/
namespace CallAtlas

namespace NameMap

variable {β : Type} [EmptyCollection β] {m : NameMap β} {a b : String} {f : β → β}

/-- What is kept under a name: the empty value when there is no entry. -/
def under (m : NameMap β) (a : String) : β := (m.get? a).getD ∅

def change (m : NameMap β) (a : String) (f : β → β) : NameMap β := m.update a fun v => f (v.getD ∅)

def Filled (m : NameMap β) : Prop := ∀ a, m.get? a ≠ some ∅

theorem get?_change : (m.change a f).get? b = if b = a then some (f (m.under a)) else m.get? b :=
  m.get?_put a b _

theorem under_change : (m.change a f).under b = if b = a then f (m.under b) else m.under b := by
  rw [NameMap.under, get?_change]
  split
  · rename_i same
    rw [same]
    rfl
  · rfl

@[simp] theorem under_empty : (∅ : NameMap β).under a = ∅ := rfl

theorem filled_empty : (∅ : NameMap β).Filled := fun _ => (Option.some_ne_none _).symm

theorem Filled.change (h : m.Filled) (kept : f (m.under a) ≠ ∅) : (m.change a f).Filled := by
  intro b
  rw [get?_change]
  split
  · exact fun some => kept (Option.some.inj some)
  · exact h b

theorem Filled.get?_eq_some_iff (h : m.Filled) {v : β} : m.get? a = some v ↔ m.under a = v ∧ v ≠ ∅ := by
  rw [NameMap.under]
  cases found : m.get? a with
  | none => simpa using fun same => same.symm
  | some w =>
    simp only [Option.getD_some, Option.some.injEq, iff_self_and]
    rintro rfl none
    exact h a (none ▸ found)

end NameMap

namespace Dfa

variable {d : Dfa} {p q t : Nat} {a b : String}

def moves (d : Dfa) : List (Nat × String × Nat) :=
  (List.range d.size).flatMap fun p => (d.row p).entries.map (p, ·)

theorem mem_moves : (p, a, t) ∈ d.moves ↔ d.move? p a = some t := by
  rw [moves, List.mem_flatMap, move?, NameMap.get?_eq_some_iff]
  constructor
  · rintro ⟨q, -, entry⟩
    obtain ⟨move, entry, eq⟩ := List.mem_map.mp entry
    cases eq
    exact entry
  · intro entry
    have lt : p < d.size := lt_size_of_move? (NameMap.get?_eq_some_iff.mpr entry)
    exact ⟨p, List.mem_range.mpr lt, List.mem_map.mpr ⟨(a, t), entry, rfl⟩⟩

/-- A row for each state: the states that move to it, by the name of the move. -/
abbrev Predecessors := Array (NameMap (List Nat))

namespace Predecessors

variable {preds : Predecessors} {M : List (Nat × String × Nat)}

def row (preds : Predecessors) (t : Nat) : NameMap (List Nat) := preds[t]?.getD ∅

def note (preds : Predecessors) : Nat × String × Nat → Predecessors
  | (p, a, t) => preds.modify t (·.change a (· ++ [p]))

theorem row_note (t' : Nat) (lt : t < preds.size) : (preds.note (p, a, t)).row t' =
    if t = t' then (preds.row t').change a (· ++ [p]) else preds.row t' := by
  rw [note, row, Array.getElem?_modify]
  split
  · rename_i same
    subst same
    rw [row, Array.getElem?_eq_getElem lt]
    rfl
  · rfl

theorem mem_row_note (lt : t < preds.size) {q t' : Nat} : q ∈ ((preds.note (p, a, t)).row t').under b ↔
    q ∈ (preds.row t').under b ∨ (q, b, t') = (p, a, t) := by
  rw [row_note t' lt]
  split
  · rename_i target
    subst target
    rw [NameMap.under_change]
    split
    · rename_i name
      simp [name]
    · rename_i name
      simp [name]
  · rename_i target
    simp [Ne.symm target]

theorem filled_note (h : ∀ t, (preds.row t).Filled) (lt : t < preds.size) (t' : Nat) :
    ((preds.note (p, a, t)).row t').Filled := by
  rw [row_note t' lt]
  split
  · exact (h t').change (List.append_ne_nil_of_right_ne_nil _ (List.cons_ne_nil p []))
  · exact h t'

theorem foldl_note (lt : ∀ move ∈ M, move.2.2 < preds.size) (h : ∀ t, (preds.row t).Filled) (t : Nat) :
    (∀ q a, q ∈ (row (M.foldl note preds) t).under a ↔ q ∈ (preds.row t).under a ∨ (q, a, t) ∈ M) ∧
      (row (M.foldl note preds) t).Filled := by
  induction M generalizing preds with
  | nil => simpa using h t
  | cons move M ih =>
    obtain ⟨p, b, u⟩ := move
    have here : u < preds.size := lt (p, b, u) List.mem_cons_self
    have size : (preds.note (p, b, u)).size = preds.size := Array.size_modify
    have later := ih (fun move mem => size ▸ lt move (List.mem_cons_of_mem _ mem)) (filled_note h here)
    refine ⟨fun q a => ?_, later.2⟩
    rw [List.foldl_cons, later.1, mem_row_note here, List.mem_cons, or_assoc]

def join (joined : NameMap IndexSet) : String × List Nat → NameMap IndexSet
  | (a, ps) => joined.change a (· ∪ .ofList ps)

def into (preds : Predecessors) (S : IndexSet) : NameMap IndexSet :=
  (S.toList.flatMap fun t => (preds.row t).entries).foldl join ∅

theorem foldl_join {rows : List (String × List Nat)} {m : NameMap IndexSet}
    (inhabited : ∀ entry ∈ rows, entry.2 ≠ []) (h : m.Filled) :
    (∀ q a, q ∈ (rows.foldl join m).under a ↔ q ∈ m.under a ∨ ∃ ps, (a, ps) ∈ rows ∧ q ∈ ps) ∧
      (rows.foldl join m).Filled := by
  induction rows generalizing m with
  | nil => simpa using h
  | cons entry rows ih =>
    obtain ⟨b, ps⟩ := entry
    have kept : m.under b ∪ .ofList ps ≠ ∅ := by
      obtain ⟨p, mem⟩ := List.exists_mem_of_ne_nil ps (inhabited (b, ps) List.mem_cons_self)
      exact IndexSet.ne_empty_iff.mpr ⟨p, by simp [mem]⟩
    have joined : (join m (b, ps)).Filled := h.change kept
    have later := ih (fun entry mem => inhabited entry (List.mem_cons_of_mem _ mem)) joined
    refine ⟨fun q a => ?_, later.2⟩
    rw [List.foldl_cons, later.1, join, NameMap.under_change]
    split
    · rename_i name
      simp [name, or_assoc, or_and_right, exists_or]
    · rename_i name
      simp [name]

theorem into_spec (h : ∀ t, (preds.row t).Filled) (S : IndexSet) :
    (∀ q a, q ∈ (preds.into S).under a ↔ ∃ t ∈ S, q ∈ (preds.row t).under a) ∧ (preds.into S).Filled := by
  have inhabited : ∀ entry ∈ S.toList.flatMap fun t => (preds.row t).entries, entry.2 ≠ [] := by
    intro entry mem
    obtain ⟨t, -, mem⟩ := List.mem_flatMap.mp mem
    exact ((h t).get?_eq_some_iff.mp (NameMap.get?_eq_some_iff.mpr mem)).2
  obtain ⟨mem, filled⟩ := foldl_join inhabited (m := ∅) NameMap.filled_empty
  refine ⟨fun q a => (mem q a).trans ?_, filled⟩
  rw [NameMap.under_empty, or_iff_right (IndexSet.not_mem_empty q)]
  simp only [List.mem_flatMap, IndexSet.mem_toList]
  constructor
  · rintro ⟨ps, ⟨t, member, entry⟩, here⟩
    have kept := ((h t).get?_eq_some_iff.mp (NameMap.get?_eq_some_iff.mpr entry)).1
    exact ⟨t, member, kept ▸ here⟩
  · rintro ⟨t, member, here⟩
    have entry := NameMap.get?_eq_some_iff.mp ((h t).get?_eq_some_iff.mpr ⟨rfl, List.ne_nil_of_mem here⟩)
    exact ⟨_, ⟨t, member, entry⟩, here⟩

end Predecessors

def inverted (d : Dfa) : Predecessors := d.moves.foldl .note (Array.replicate d.size ∅)

theorem inverted_spec (d : Dfa) (t : Nat) :
    (∀ q a, q ∈ (d.inverted.row t).under a ↔ d.move? q a = some t) ∧ (d.inverted.row t).Filled := by
  have blank (t : Nat) : Predecessors.row (Array.replicate d.size ∅) t = ∅ := by
    rw [Predecessors.row, Array.getElem?_replicate]
    split <;> rfl
  have within : ∀ move ∈ d.moves, move.2.2 < (Array.replicate d.size (∅ : NameMap (List Nat))).size := by
    rintro ⟨q, a, t⟩ mem
    rw [Array.size_replicate]
    exact move?_lt (mem_moves.mp mem)
  have filled (t : Nat) : (Predecessors.row (Array.replicate d.size ∅) t).Filled := by
    rw [blank]
    exact NameMap.filled_empty
  obtain ⟨mem, filled⟩ := Predecessors.foldl_note within filled t
  refine ⟨fun q a => (mem q a).trans ?_, filled⟩
  rw [blank, mem_moves]
  exact or_iff_right List.not_mem_nil

theorem into_inverted (d : Dfa) (S : IndexSet) : (d.inverted.into S).entries = d.backward.out S := by
  obtain ⟨mem, filled⟩ := Predecessors.into_spec (fun t => (d.inverted_spec t).2) S
  have moving (a : String) : (d.inverted.into S).under a = d.movingInto S a := by
    ext q
    rw [mem, mem_movingInto]
    simp only [(d.inverted_spec _).1, and_comm]
  refine NameMap.eq_of_mem_iff (d.inverted.into S).ascending
    (List.pairwise_map.mpr (d.namesInto S).pairwise_keys) fun move => ?_
  obtain ⟨a, T⟩ := move
  rw [← NameMap.get?_eq_some_iff, filled.get?_eq_some_iff, d.follows_backward.mem_out, moving, eq_comm]

def inverse (d : Dfa) : SetMoves d.size where
  out S := (d.inverted.into S).entries
  below S := by
    rw [into_inverted]
    exact d.backward.below S

/-- Reversal by the table of predecessors gives the reversed table, its states in the same order. -/
theorem table_inverse (d : Dfa) : d.inverse.table d.finals d.finals_below (0 ∈ ·) = d.reverse := by
  have same : d.inverse = d.backward := by
    rw [SetMoves.mk.injEq]
    exact funext d.into_inverted
  rw [reverse, same]

end Dfa

end CallAtlas
