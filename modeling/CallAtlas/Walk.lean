import CallAtlas.IndexSet
/-!
Depth-first preorder walk of a finite relation given by successor lists. The same walk closes sets
of states under silent moves, finds useful states of a table and follows calls through a graph.
Main statement: `mem_walk_empty`, a walk that starts with nothing seen lists what is reachable.
-/
namespace CallAtlas

inductive Reaches (next : Nat → List Nat) : Nat → Nat → Prop
  | refl (p : Nat) : Reaches next p p
  | step {p q r : Nat} : q ∈ next p → Reaches next q r → Reaches next p r

theorem Reaches.trans {next : Nat → List Nat} {p q r : Nat} (h : Reaches next p q)
    (h' : Reaches next q r) : Reaches next p r := by
  induction h with
  | refl => exact h'
  | step hq _ ih => exact .step hq (ih h')

namespace Walk

def unseen (n : Nat) (seen : IndexSet) : Nat := (List.range n).countP (· ∉ seen)

theorem countP_lt {α : Type} {p p' : α → Bool} {xs : List α} {x : α} (hx : x ∈ xs)
    (h : ∀ y, p' y = true → p y = true) (hp : p x = true) (hp' : p' x = false) :
    xs.countP p' < xs.countP p := by
  induction xs with
  | nil => cases hx
  | cons y ys ih =>
    have mono : ys.countP p' ≤ ys.countP p := List.countP_mono_left fun z _ => h z
    rw [List.countP_cons, List.countP_cons]
    rcases List.mem_cons.mp hx with rfl | hx
    · simp only [hp, hp', Bool.false_eq_true, ↓reduceIte]
      omega
    · have tail := ih hx
      have head : (if p' y = true then 1 else 0) ≤ if p y = true then 1 else 0 := by
        by_cases hy : p' y = true
        · simp [hy, h y hy]
        · simp [hy]
      omega

theorem unseen_insert_lt {n : Nat} {seen : IndexSet} {q : Nat} (hn : q < n) (hq : q ∉ seen) :
    unseen n (seen.insert q) < unseen n seen := by
  apply countP_lt (List.mem_range.mpr hn)
  · intro y hy
    simp only [IndexSet.mem_insert, not_or, decide_eq_true_eq] at hy ⊢
    exact hy.2
  · simpa using hq
  · simp

end Walk

/-- The indices below `n` met for the first time when the pending ones are visited depth first, each
before its successors, and the successors in the order of their list. Successors become pending even when
they were seen before; they are passed over in their turn. -/
def walk (next : Nat → List Nat) (n : Nat) (seen : IndexSet) (pending : List Nat) : List Nat :=
  match pending with
  | [] => []
  | q :: rest =>
    if _h : q < n ∧ q ∉ seen then q :: walk next n (seen.insert q) (next q ++ rest)
    else walk next n seen rest
termination_by (Walk.unseen n seen, pending.length)
decreasing_by
  · exact Prod.Lex.left _ _ (Walk.unseen_insert_lt _h.1 _h.2)
  · exact Prod.Lex.right _ (Nat.lt_succ_self _)

variable {next : Nat → List Nat} {n : Nat}

theorem not_mem_seen_of_mem_walk {seen : IndexSet} {pending : List Nat} {r : Nat}
    (h : r ∈ walk next n seen pending) : r < n ∧ r ∉ seen := by
  fun_induction walk next n seen pending with
  | case1 => simp at h
  | case2 seen q rest hq ih =>
    rcases List.mem_cons.mp h with rfl | h
    · exact hq
    · have := ih h
      exact ⟨this.1, fun hr => this.2 (by simp [hr])⟩
  | case3 seen q rest hq ih => exact ih h

theorem nodup_walk (seen : IndexSet) (pending : List Nat) : (walk next n seen pending).Nodup := by
  fun_induction walk next n seen pending with
  | case1 => exact List.nodup_nil
  | case2 seen q rest hq ih =>
    refine List.nodup_cons.mpr ⟨fun hr => ?_, ih⟩
    exact (not_mem_seen_of_mem_walk hr).2 (by simp)
  | case3 seen q rest hq ih => exact ih

theorem exists_reaches_of_mem_walk {seen : IndexSet} {pending : List Nat} {r : Nat}
    (h : r ∈ walk next n seen pending) : ∃ p ∈ pending, Reaches next p r := by
  fun_induction walk next n seen pending with
  | case1 => simp at h
  | case2 seen q rest hq ih =>
    rcases List.mem_cons.mp h with rfl | h
    · exact ⟨r, by simp, .refl r⟩
    · obtain ⟨p, hp, hr⟩ := ih h
      rcases List.mem_append.mp hp with hp | hp
      · exact ⟨q, by simp, .step hp hr⟩
      · exact ⟨p, by simp [hp], hr⟩
  | case3 seen q rest hq ih =>
    obtain ⟨p, hp, hr⟩ := ih h
    exact ⟨p, by simp [hp], hr⟩

theorem mem_walk_of_mem_pending {seen : IndexSet} {pending : List Nat} {p : Nat}
    (h : p ∈ pending) (hp : p < n) : p ∈ seen ∨ p ∈ walk next n seen pending := by
  fun_induction walk next n seen pending with
  | case1 => simp at h
  | case2 seen q rest hq ih =>
    rcases List.mem_cons.mp h with rfl | h
    · exact .inr (by simp)
    · rcases ih (by simp [h]) with hs | hw
      · rcases IndexSet.mem_insert.mp hs with rfl | hs
        · exact .inr (by simp)
        · exact .inl hs
      · exact .inr (by simp [hw])
  | case3 seen q rest hq ih =>
    rcases List.mem_cons.mp h with rfl | h
    · exact .inl (Classical.not_not.mp fun hs => hq ⟨hp, hs⟩)
    · exact ih h

theorem mem_walk_of_next {seen : IndexSet} {pending : List Nat} {r s : Nat}
    (h : r ∈ walk next n seen pending) (hs : s ∈ next r) (hn : s < n) :
    s ∈ seen ∨ s ∈ walk next n seen pending := by
  fun_induction walk next n seen pending with
  | case1 => simp at h
  | case2 seen q rest hq ih =>
    have later : s ∈ seen.insert q ∨ s ∈ walk next n (seen.insert q) (next q ++ rest) := by
      rcases List.mem_cons.mp h with rfl | h
      · exact mem_walk_of_mem_pending (by simp [hs]) hn
      · exact ih h
    rcases later with h' | h'
    · rcases IndexSet.mem_insert.mp h' with rfl | h'
      · exact .inr (by simp)
      · exact .inl h'
    · exact .inr (by simp [h'])
  | case3 seen q rest hq ih => exact ih h

/-- When no successor list leaves the range, a walk with nothing seen meets what the pending
indices reach and nothing else. -/
theorem mem_walk_empty (hnext : ∀ p < n, ∀ q ∈ next p, q < n) {pending : List Nat}
    (hpending : ∀ p ∈ pending, p < n) {r : Nat} :
    r ∈ walk next n ∅ pending ↔ ∃ p ∈ pending, Reaches next p r := by
  refine ⟨exists_reaches_of_mem_walk, ?_⟩
  rintro ⟨p, hp, hr⟩
  have start : p ∈ walk next n ∅ pending := by
    have met : p ∈ (∅ : IndexSet) ∨ p ∈ walk next n ∅ pending :=
      mem_walk_of_mem_pending hp (hpending p hp)
    simpa using met
  clear hp
  induction hr with
  | refl => exact start
  | step hq _ ih =>
    have range := hnext _ (not_mem_seen_of_mem_walk start).1 _ hq
    exact ih (by simpa using mem_walk_of_next start hq range)

namespace Walk

inductive Thins (seen : IndexSet) : List Nat → List Nat → Prop
  | nil : Thins seen [] []
  | keep {q : Nat} {qs ps : List Nat} : Thins seen qs ps → Thins seen (q :: qs) (q :: ps)
  | skip {q : Nat} {qs ps : List Nat} : q ∈ seen → Thins seen qs ps → Thins seen (q :: qs) ps

variable {seen seen' : IndexSet} {pending fewer : List Nat}

theorem Thins.refl (seen : IndexSet) (qs : List Nat) : Thins seen qs qs := by
  induction qs with
  | nil => exact .nil
  | cons q qs ih => exact .keep ih

theorem Thins.append (h : Thins seen pending fewer) (later : ∀ q ∈ seen, q ∈ seen') (qs : List Nat) :
    Thins seen' (qs ++ pending) (qs ++ fewer) := by
  have thins : Thins seen' pending fewer := by
    induction h with
    | nil => exact .nil
    | keep _ ih => exact .keep ih
    | skip there _ ih => exact .skip (later _ there) ih
  induction qs with
  | nil => exact thins
  | cons q qs ih => exact .keep ih

theorem thins_filter (seen : IndexSet) (qs rest : List Nat) :
    Thins seen (qs ++ rest) (qs.filter (· ∉ seen) ++ rest) := by
  induction qs with
  | nil => exact .refl seen rest
  | cons q qs ih =>
    by_cases there : q ∈ seen
    · simpa [there] using ih.skip there
    · simpa [there] using ih.keep

theorem Thins.walk_eq (h : Thins seen pending fewer) : walk next n seen pending = walk next n seen fewer := by
  fun_induction walk next n seen pending generalizing fewer with
  | case1 =>
    cases h
    simp [walk]
  | case2 seen q rest hq ih =>
    cases h with
    | keep h =>
      rw [walk, dif_pos hq]
      exact congrArg (q :: ·) (ih (h.append (fun p hp => IndexSet.mem_insert.mpr (.inr hp)) (next q)))
    | skip there => exact absurd there hq.2
  | case3 seen q rest hq ih =>
    cases h with
    | keep h =>
      rw [walk, dif_neg hq]
      exact ih h
    | skip _ h => exact ih h

end Walk

/-- Seen successors may as well be left out at once. -/
theorem walk_cons_filter {seen : IndexSet} {q : Nat} (fresh : q < n ∧ q ∉ seen) (rest : List Nat) :
    walk next n seen (q :: rest) =
      q :: walk next n (seen.insert q) ((next q).filter (· ∉ seen.insert q) ++ rest) := by
  rw [walk, dif_pos fresh, (Walk.thins_filter (seen.insert q) (next q) rest).walk_eq]

end CallAtlas
