/-!
Finite sets of natural numbers, packed into the bits of one number. Two sets with the same members
are equal, so a set can serve as the name of a configuration. Main statements: `ext`, what each
operation does to membership, `mem_toList`, and that the list view ascends.
-/
namespace CallAtlas

/-- A finite set of indices; index `q` belongs to the set when bit `q` is one. -/
structure IndexSet where
  bits : Nat
deriving DecidableEq, Hashable, Repr

namespace IndexSet

instance : Membership Nat IndexSet := ⟨fun S q => S.bits.testBit q = true⟩

theorem mem_def {S : IndexSet} {q : Nat} : q ∈ S ↔ S.bits.testBit q = true := Iff.rfl

instance (q : Nat) (S : IndexSet) : Decidable (q ∈ S) :=
  inferInstanceAs (Decidable (S.bits.testBit q = true))

@[ext] theorem ext {S T : IndexSet} (h : ∀ q, q ∈ S ↔ q ∈ T) : S = T := by
  cases S; cases T
  congr 1
  exact Nat.eq_of_testBit_eq fun q => Bool.eq_iff_iff.mpr (h q)

def empty : IndexSet := ⟨0⟩

instance : EmptyCollection IndexSet := ⟨empty⟩

instance : Inhabited IndexSet := ⟨∅⟩

def insert (S : IndexSet) (q : Nat) : IndexSet := ⟨S.bits ||| 1 <<< q⟩

def erase (S : IndexSet) (q : Nat) : IndexSet := if q ∈ S then ⟨S.bits ^^^ 1 <<< q⟩ else S

def union (S T : IndexSet) : IndexSet := ⟨S.bits ||| T.bits⟩

instance : Union IndexSet := ⟨union⟩

def ofList (qs : List Nat) : IndexSet := qs.foldl insert ∅

def toList (S : IndexSet) : List Nat :=
  (List.range (S.bits.log2 + 1)).filter (· ∈ S)

def isEmpty (S : IndexSet) : Bool := S.bits == 0

def Below (S : IndexSet) (n : Nat) : Prop := ∀ q ∈ S, q < n

@[simp] theorem not_mem_empty (q : Nat) : q ∉ (∅ : IndexSet) := by
  show ¬ (0 : Nat).testBit q = true
  simp

@[simp] theorem mem_insert {S : IndexSet} {p q : Nat} : q ∈ S.insert p ↔ q = p ∨ q ∈ S := by
  simp only [mem_def, insert, Nat.one_shiftLeft, Nat.testBit_or, Nat.testBit_two_pow, Bool.or_eq_true,
    decide_eq_true_eq]
  rw [or_comm, eq_comm]

@[simp] theorem mem_erase {S : IndexSet} {p q : Nat} : q ∈ S.erase p ↔ q ≠ p ∧ q ∈ S := by
  unfold erase
  split
  · rename_i hp
    simp only [mem_def, Nat.one_shiftLeft, Nat.testBit_xor, Nat.testBit_two_pow] at hp ⊢
    by_cases h : q = p
    · subst h
      simp [hp]
    · simp [h, Ne.symm h]
  · rename_i hp
    constructor
    · intro hq
      exact ⟨fun h => hp (h ▸ hq), hq⟩
    · exact And.right

@[simp] theorem mem_union {S T : IndexSet} {q : Nat} : q ∈ S ∪ T ↔ q ∈ S ∨ q ∈ T := by
  show (S.bits ||| T.bits).testBit q = true ↔ _
  simp [mem_def, Nat.testBit_or]

theorem mem_foldl_insert {qs : List Nat} {S : IndexSet} {q : Nat} :
    q ∈ qs.foldl insert S ↔ q ∈ S ∨ q ∈ qs := by
  induction qs generalizing S with
  | nil => simp
  | cons p qs ih =>
    rw [List.foldl_cons, ih, mem_insert, List.mem_cons]
    constructor
    · rintro ((h | h) | h) <;> simp [h]
    · rintro (h | h | h) <;> simp [h]

@[simp] theorem mem_ofList {qs : List Nat} {q : Nat} : q ∈ ofList qs ↔ q ∈ qs := by
  simp [ofList, mem_foldl_insert]

@[simp] theorem mem_toList {S : IndexSet} {q : Nat} : q ∈ S.toList ↔ q ∈ S := by
  simp only [toList, List.mem_filter, List.mem_range, decide_eq_true_eq, and_iff_right_iff_imp]
  intro h
  have : 2 ^ q ≤ S.bits := Nat.ge_two_pow_of_testBit h
  have nonzero : S.bits ≠ 0 := by
    have := Nat.two_pow_pos q
    omega
  exact Nat.lt_succ_of_le ((Nat.le_log2 nonzero).mpr this)

theorem pairwise_lt_toList (S : IndexSet) : S.toList.Pairwise (· < ·) :=
  List.pairwise_lt_range.filter _

@[simp] theorem ofList_toList (S : IndexSet) : ofList S.toList = S := by
  ext q
  simp

theorem isEmpty_iff {S : IndexSet} : S.isEmpty = true ↔ ∀ q, q ∉ S := by
  constructor
  · intro h q hq
    have : S.bits = 0 := by simpa [isEmpty] using h
    simp [mem_def, this] at hq
  · intro h
    have : S = ∅ := by
      ext q
      simp [h q]
    rw [this]
    rfl

theorem eq_empty_iff {S : IndexSet} : S = ∅ ↔ ∀ q, q ∉ S :=
  ⟨fun h q => h ▸ not_mem_empty q, fun h => ext fun q => by simp [h q]⟩

theorem ne_empty_iff {S : IndexSet} : S ≠ ∅ ↔ ∃ q, q ∈ S := by
  rw [ne_eq, eq_empty_iff, Classical.not_forall]
  simp only [Classical.not_not]

theorem bits_lt_two_pow {S : IndexSet} {n : Nat} (h : S.Below n) : S.bits < 1 <<< n := by
  rw [Nat.one_shiftLeft]
  apply Nat.lt_pow_two_of_testBit
  intro q hq
  cases ht : S.bits.testBit q with
  | false => rfl
  | true => exact absurd (h q ht) (Nat.not_lt.mpr hq)

theorem below_empty (n : Nat) : (∅ : IndexSet).Below n := fun q h => absurd h (not_mem_empty q)

theorem Below.union {S T : IndexSet} {n : Nat} (hS : S.Below n) (hT : T.Below n) :
    (S ∪ T).Below n := fun q h => (mem_union.mp h).elim (hS q) (hT q)

end IndexSet

end CallAtlas
