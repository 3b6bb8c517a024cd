import CallAtlas.IndexSet
/-!
Sets of states numbered in the order in which they are first met, as the subset construction needs
them. Main statements: `get?_number`, `get?_number_of_get?`, and the bound `size_le_two_pow`.
-/
namespace CallAtlas

/-- Distinct sets; the number of a set is its position. -/
structure Numbering where
  sets : Array IndexSet := #[]
  nodup : sets.toList.Nodup := by exact List.nodup_nil

namespace Numbering

def empty : Numbering := {}

instance : Inhabited Numbering := ⟨empty⟩

def size (ν : Numbering) : Nat := ν.sets.size

def get? (ν : Numbering) (i : Nat) : Option IndexSet := ν.sets[i]?

theorem nodup_push {sets : Array IndexSet} {S : IndexSet} (h : sets.toList.Nodup)
    (hS : S ∉ sets) : (sets.push S).toList.Nodup := by
  rw [Array.toList_push, List.nodup_append]
  refine ⟨h, by simp, fun T hT U hU eq => hS ?_⟩
  rw [← List.mem_singleton.mp hU, ← eq]
  exact Array.mem_toList_iff.mp hT

/-- The number of a set, which is numbered now if it was not before. -/
def number (ν : Numbering) (S : IndexSet) : Nat × Numbering :=
  match h : ν.sets.finIdxOf? S with
  | some i => (i, ν)
  | none =>
    (ν.size, ⟨ν.sets.push S, nodup_push ν.nodup (Array.finIdxOf?_eq_none_iff.mp h)⟩)

theorem get?_number (ν : Numbering) (S : IndexSet) :
    (ν.number S).2.get? (ν.number S).1 = some S := by
  unfold number
  split
  · rename_i i h
    simpa [get?] using (Array.finIdxOf?_eq_some_iff.mp h).1
  · simp [get?, size]

theorem get?_number_of_get? {ν : Numbering} {i : Nat} {T : IndexSet} (h : ν.get? i = some T)
    (S : IndexSet) : (ν.number S).2.get? i = some T := by
  unfold number
  split
  · exact h
  · have lt : i < ν.sets.size := (Array.getElem?_eq_some_iff.mp h).1
    have ne : i ≠ ν.sets.size := Nat.ne_of_lt lt
    simpa [get?, Array.getElem?_push, ne] using h

theorem mem_number {ν : Numbering} {S T : IndexSet} :
    T ∈ (ν.number S).2.sets ↔ T ∈ ν.sets ∨ T = S := by
  unfold number
  split
  · rename_i i h
    have : S ∈ ν.sets := (Array.finIdxOf?_eq_some_iff.mp h).1 ▸ Array.getElem_mem _
    constructor
    · exact .inl
    · rintro (h | rfl) <;> assumption
  · simp

theorem lt_size_of_get? {ν : Numbering} {i : Nat} {S : IndexSet} (h : ν.get? i = some S) :
    i < ν.size := (Array.getElem?_eq_some_iff.mp h).1

theorem number_lt_size (ν : Numbering) (S : IndexSet) :
    (ν.number S).1 < (ν.number S).2.size := lt_size_of_get? (ν.get?_number S)

theorem size_le_size_number (ν : Numbering) (S : IndexSet) : ν.size ≤ (ν.number S).2.size := by
  unfold number
  split
  · exact Nat.le_refl _
  · simp [size]

theorem eq_of_get? {ν : Numbering} {i j : Nat} {S : IndexSet} (hi : ν.get? i = some S)
    (hj : ν.get? j = some S) : i = j := by
  have hi' : ν.sets.toList[i]? = some S := by simpa [get?] using hi
  have hj' : ν.sets.toList[j]? = some S := by simpa [get?] using hj
  exact (List.getElem?_inj (List.getElem?_eq_some_iff.mp hi').1 ν.nodup).mp (hi'.trans hj'.symm)

theorem number_of_get? {ν : Numbering} {i : Nat} {S : IndexSet} (h : ν.get? i = some S) :
    ν.number S = (i, ν) := by
  have same := ν.get?_number S
  unfold number at same ⊢
  split
  · rename_i j found
    have there : ν.get? j = some S := by
      simpa [get?] using (Array.finIdxOf?_eq_some_iff.mp found).1
    rw [eq_of_get? there h]
  · rename_i missing
    exact absurd (Array.mem_of_getElem? h) (Array.finIdxOf?_eq_none_iff.mp missing)

theorem number_of_not_mem {ν : Numbering} {S : IndexSet} (h : S ∉ ν.sets) :
    ν.number S = (ν.size, ⟨ν.sets.push S, nodup_push ν.nodup h⟩) := by
  unfold number
  split
  · rename_i i found
    exact absurd ((Array.finIdxOf?_eq_some_iff.mp found).1 ▸ Array.getElem_mem _) h
  · rfl

theorem size_le_two_pow {ν : Numbering} {n : Nat} (h : ∀ S ∈ ν.sets, S.Below n) :
    ν.size ≤ 1 <<< n := by
  have inj : (ν.sets.toList.map IndexSet.bits).Nodup :=
    List.pairwise_map.mpr (ν.nodup.imp fun {S T} ne eq => ne (by cases S; cases T; simp_all))
  have sub : ν.sets.toList.map IndexSet.bits ⊆ List.range (1 <<< n) := by
    intro b hb
    obtain ⟨S, hS, rfl⟩ := List.mem_map.mp hb
    exact List.mem_range.mpr (IndexSet.bits_lt_two_pow (h S (Array.mem_toList_iff.mp hS)))
  simpa [size] using inj.length_le_of_subset sub

end Numbering

end CallAtlas
