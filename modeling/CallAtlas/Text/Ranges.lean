/-!
Sets of characters given by ranges of code points.
-/
namespace CallAtlas.Text

/-- Ranges of code points, first and last included. -/
abbrev Ranges : Type := List (Nat × Nat)

namespace Ranges

def contains (rs : Ranges) (c : Char) : Bool :=
  rs.any fun r => r.1 ≤ c.toNat && c.toNat ≤ r.2

/-- Whether a character is the first of a range, the third, the fifth and so on. -/
def containsSecond (rs : Ranges) (c : Char) : Bool :=
  rs.any fun r => r.1 ≤ c.toNat && c.toNat ≤ r.2 && (c.toNat - r.1) % 2 == 0

def Apart (rs ss : Ranges) : Prop := ∀ r ∈ rs, ∀ s ∈ ss, r.2 < s.1 ∨ s.2 < r.1

-- Whole tables are compared, so the test is one that the kernel computes on numerals.
instance (rs ss : Ranges) : Decidable (Apart rs ss) :=
  decidable_of_iff (rs.all fun r => ss.all fun s => Nat.blt r.2 s.1 || Nat.blt s.2 r.1) (by
    simp only [List.all_eq_true, Bool.or_eq_true, Nat.blt_eq, Apart])

variable {rs ss : Ranges} {c : Char}

theorem contains_iff : rs.contains c = true ↔ ∃ r ∈ rs, r.1 ≤ c.toNat ∧ c.toNat ≤ r.2 := by
  simp [contains]

theorem contains_of_containsSecond (h : rs.containsSecond c = true) : rs.contains c = true := by
  obtain ⟨r, hr, within⟩ := List.any_eq_true.mp h
  rw [Bool.and_eq_true] at within
  exact List.any_eq_true.mpr ⟨r, hr, within.1⟩

theorem Apart.contains_eq_false (h : Apart rs ss) (hc : ss.contains c = true) :
    rs.contains c = false := by
  obtain ⟨s, hs, within⟩ := contains_iff.mp hc
  rw [Bool.eq_false_iff]
  intro other
  obtain ⟨r, hr, within'⟩ := contains_iff.mp other
  have := h r hr s hs
  omega

end Ranges

end CallAtlas.Text
