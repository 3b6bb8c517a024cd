import CallAtlas.PathExpr.Fragment
import CallAtlas.Proofs.Automaton.Walks
import Mathlib.Computability.Language
/-!
The words of a path expression and of its automaton. Fragments are attached to a machine that keeps
growing, so a fragment is compared with the moves it adds: they leave the state it is attached to or a
new state, and they enter new states only. Main statement: `attached_attach`.
-/
namespace CallAtlas

open scoped Computability

def Nfa.Above (n : Nfa) (k p : Nat) (u : List String) (r : Nat) : Prop := n.Step p u r ∧ k ≤ r

namespace PathExpr

mutual

def language : PathExpr Predicate → Language String
  | .empty => 1
  | .one p => {word | ∃ name, p name = true ∧ word = [name]}
  | .seq es => (languages es).prod
  | .star e => (language e)∗
  | .alt [] => 1
  | .alt (e :: es) => (languages (e :: es)).sum

def languages : List (PathExpr Predicate) → List (Language String)
  | [] => []
  | e :: es => language e :: languages es

end

/-- `n'` is `n` with a fragment that leads from `q` to `exit` along the words of `L`. -/
structure Attached (n n' : Nfa) (q exit : Nat) (L : Language String) : Prop where
  entry_lt : q < n.size
  exit_new : n.size ≤ exit
  exit_lt : exit < n'.size
  finals_eq : n'.finals = n.finals
  keeps : ∀ {p u r}, n.Step p u r → n'.Step p u r
  adds : ∀ {p u r}, n'.Step p u r → n.Step p u r ∨ (p = q ∨ n.size ≤ p) ∧ n.size ≤ r
  exit_ends : ∀ {u r}, ¬ n'.Step exit u r
  walks_iff : ∀ {w}, Walks (n'.Above n.size) q w exit ↔ w ∈ L

section

variable {n n₁ n₂ : Nfa} {q f g b p r : Nat} {L L' : Language String} {w : List String}

theorem not_step_of_size_le {u : List String} (h : n.size ≤ p) : ¬ n.Step p u r :=
  fun hs => Nat.not_lt_of_le h hs.lt_size.1

theorem not_above_size {u : List String} : ¬ n.Above n.size p u r :=
  fun hs => Nat.not_lt_of_le hs.2 hs.1.lt_size.2

def forked (n : Nfa) (q : Nat) : Nfa := n.addState.addSilent q n.size

theorem size_forked (n : Nfa) (q : Nat) : (forked n q).size = n.size + 1 := by
  rw [forked, Nfa.size_addSilent, Simulation.size_addState]

theorem step_forked (hq : q < n.size) {u : List String} :
    (forked n q).Step p u r ↔ n.Step p u r ∨ p = q ∧ u = [] ∧ r = n.size := by
  have size := Simulation.size_addState n
  rw [forked, Nfa.step_addSilent (by omega) (by omega), Nfa.step_addState]

namespace Attached

theorem size_le (h : Attached n n₁ q f L) : n.size ≤ n₁.size :=
  Nat.le_of_lt (Nat.lt_of_le_of_lt h.exit_new h.exit_lt)

theorem stays (h : Attached n n₁ q f L) {k : Nat} (new : n.size ≤ p)
    (walks : Walks (n₁.Above k) p w r) : Walks (n₁.Above n.size) p w r := by
  refine walks.within (n.size ≤ ·) new ?_
  intro s u t hs move
  rcases h.adds move.1 with old | ⟨-, entered⟩
  · exact absurd old (not_step_of_size_le hs)
  · exact ⟨entered, move.1, entered⟩

theorem single {n' : Nfa} (hq : q < n.size) (size : n'.size = n.size + 1)
    (finals : n'.finals = n.finals)
    (step : ∀ {p u r}, n'.Step p u r ↔ n.Step p u r ∨ p = q ∧ u ∈ L ∧ r = n.size) :
    Attached n n' q n.size L := by
  have ends {u : List String} {r : Nat} : ¬ n'.Step n.size u r := by
    rw [step]
    rintro (old | ⟨eq, -, -⟩)
    · exact not_step_of_size_le (Nat.le_refl _) old
    · omega
  constructor
  case entry_lt => exact hq
  case exit_new => exact Nat.le_refl _
  case exit_lt => omega
  case finals_eq => exact finals
  case keeps => exact fun h => step.mpr (.inl h)
  case adds =>
    intro p u r h
    rcases step.mp h with old | ⟨rfl, -, rfl⟩
    · exact .inl old
    · exact .inr ⟨.inl rfl, Nat.le_refl _⟩
  case exit_ends => exact ends
  case walks_iff =>
    intro w
    constructor
    · intro h
      cases h with
      | refl => exact absurd hq (Nat.lt_irrefl _)
      | step hs rest =>
        rcases step.mp hs.1 with old | ⟨-, hu, rfl⟩
        · exact absurd ⟨old, hs.2⟩ not_above_size
        · rwa [(rest.eq_nil_of_ends fun h => ends h.1).1, List.append_nil]
    · intro hw
      exact .single ⟨step.mpr (.inr ⟨rfl, hw, rfl⟩), Nat.le_refl _⟩

theorem forked (hq : q < n.size) : Attached n (PathExpr.forked n q) q n.size 1 := by
  refine single hq (size_forked n q) (Nfa.finals_addSilent ..) ?_
  intro p u r
  rw [step_forked hq, Language.mem_one]

theorem addMove (hq : q < n.size) (a : Predicate) :
    Attached n (n.addState.addMove q a n.size) q n.size
      {word | ∃ name, a name = true ∧ word = [name]} := by
  have size : n.addState.size = n.size + 1 := Simulation.size_addState n
  refine single hq ?_ (Nfa.finals_addMove ..) ?_
  · rw [Simulation.size_addMove, size]
  · intro p u r
    rw [Nfa.step_addMove (by omega) (by omega), Nfa.step_addState]
    rfl

theorem split (h : Attached n n₁ q f L) (h' : Attached n₁ n₂ f g L')
    (walks : Walks (n₂.Above n.size) p w r) (old : p < n₁.size) (new : n₁.size ≤ r) :
    ∃ u v, u ++ v = w ∧ Walks (n₁.Above n.size) p u f ∧ Walks (n₂.Above n₁.size) f v r := by
  induction walks with
  | refl p => omega
  | step hs rest ih =>
    rcases h'.adds hs.1 with first | ⟨rfl | above, entered⟩
    · obtain ⟨u, v, rfl, before, after⟩ := ih first.lt_size.2 new
      exact ⟨_ ++ u, v, List.append_assoc .., .step ⟨first, hs.2⟩ before, after⟩
    · exact ⟨[], _, rfl, .refl _, .step ⟨hs.1, entered⟩ (h'.stays entered rest)⟩
    · omega

theorem seq (h : Attached n n₁ q f L) (h' : Attached n₁ n₂ f g L') :
    Attached n n₂ q g (L * L') := by
  have le := h.size_le
  constructor
  case entry_lt => exact h.entry_lt
  case exit_new => exact Nat.le_trans le h'.exit_new
  case exit_lt => exact h'.exit_lt
  case finals_eq => exact h'.finals_eq.trans h.finals_eq
  case keeps => exact fun hs => h'.keeps (h.keeps hs)
  case adds =>
    intro p u r hs
    have exit_new := h.exit_new
    rcases h'.adds hs with hs | ⟨source, target⟩
    · exact h.adds hs
    · exact .inr ⟨by omega, by omega⟩
  case exit_ends => exact h'.exit_ends
  case walks_iff =>
    intro w
    rw [Language.mem_mul]
    constructor
    · intro walks
      have entry_lt := h.entry_lt
      obtain ⟨u, v, rfl, before, after⟩ := h.split h' walks (by omega) h'.exit_new
      exact ⟨u, h.walks_iff.mp before, v, h'.walks_iff.mp after, rfl⟩
    · rintro ⟨u, hu, v, hv, rfl⟩
      have before : Walks (n₂.Above n.size) q u f :=
        (h.walks_iff.mpr hu).mono fun hs => ⟨h'.keeps hs.1, hs.2⟩
      exact before.trans ((h'.walks_iff.mpr hv).mono fun hs => ⟨hs.1, Nat.le_trans le hs.2⟩)

end Attached

def opened (n : Nfa) (q : Nat) : Nfa :=
  (n.addState.addState.addSilent q n.size).addSilent q (n.size + 1)

/-- Rounds from `head` to `b` that can be left from `head` for `exit`. -/
def looped (n : Nfa) (head b exit : Nat) : Nfa := (n.addSilent b head).addSilent head exit

theorem size_opened (n : Nfa) (q : Nat) : (opened n q).size = n.size + 2 := by
  rw [opened, Nfa.size_addSilent, Nfa.size_addSilent, Simulation.size_addState,
    Simulation.size_addState]

theorem step_opened (hq : q < n.size) {u : List String} : (opened n q).Step p u r ↔
    n.Step p u r ∨ p = q ∧ u = [] ∧ (r = n.size ∨ r = n.size + 1) := by
  have size : n.addState.addState.size = n.size + 2 := by
    rw [Simulation.size_addState, Simulation.size_addState]
  have size' := Nfa.size_addSilent n.addState.addState q n.size
  rw [opened, Nfa.step_addSilent (by omega) (by omega), Nfa.step_addSilent (by omega) (by omega),
    Nfa.step_addState, Nfa.step_addState, or_assoc, ← and_or_left, ← and_or_left]

theorem step_looped {head exit : Nat} (hb : b < n.size) (hh : head < n.size) (he : exit < n.size)
    {u : List String} : (looped n head b exit).Step p u r ↔
      n.Step p u r ∨ p = b ∧ u = [] ∧ r = head ∨ p = head ∧ u = [] ∧ r = exit := by
  have size := Nfa.size_addSilent n b head
  rw [looped, Nfa.step_addSilent (by omega) (by omega), Nfa.step_addSilent hb hh, or_assoc]

namespace Attached

theorem step_star (hq : q < n.size) (h : Attached (opened n q) n₁ n.size b L) {u : List String}
    (hs : (looped n₁ n.size b (n.size + 1)).Above n.size p u r) :
    (p = q ∧ u = [] ∧ (r = n.size ∨ r = n.size + 1)) ∨
      ((p = n.size ∨ n.size + 2 ≤ p) ∧ n₁.Above (n.size + 2) p u r) ∨
      (p = b ∧ u = [] ∧ r = n.size) ∨ (p = n.size ∧ u = [] ∧ r = n.size + 1) := by
  have size := size_opened n q
  have exit_new := h.exit_new
  have exit_lt := h.exit_lt
  obtain ⟨hs, above⟩ := hs
  rcases (step_looped h.exit_lt (by omega) (by omega)).mp hs with hs | back
  · rcases h.adds hs with hs' | body
    · rcases (step_opened hq).mp hs' with old | first
      · exact absurd ⟨old, above⟩ not_above_size
      · exact .inl first
    · rw [size] at body
      exact .inr (.inl ⟨body.1, hs, body.2⟩)
  · exact .inr (.inr back)

/-- Outside its body a walk to the exit of a star has whole rounds before it, inside it ends one first. -/
theorem rounds (hq : q < n.size) (h : Attached (opened n q) n₁ n.size b L)
    (walks : Walks ((looped n₁ n.size b (n.size + 1)).Above n.size) p w r)
    (leaves : r = n.size + 1) : (p < n.size + 2 → w ∈ L∗) ∧
      (n.size + 2 ≤ p → ∃ u v, u ++ v = w ∧ Walks (n₁.Above (n.size + 2)) p u b ∧ v ∈ L∗) := by
  have size := size_opened n q
  have exit_new := h.exit_new
  induction walks with
  | refl p => exact ⟨fun _ => Language.nil_mem_kstar L, fun inside => by omega⟩
  | @step s _ _ _ _ hs rest ih =>
    obtain ⟨outside, inside⟩ := ih leaves
    rcases step_star hq h hs with
      ⟨rfl, rfl, into⟩ | ⟨source, body⟩ | ⟨rfl, rfl, rfl⟩ | ⟨rfl, rfl, rfl⟩
    · exact ⟨fun _ => outside (by omega), fun _ => by omega⟩
    · obtain ⟨u, v, rfl, before, after⟩ := inside body.2
      have round := Walks.step body before
      constructor
      · intro lt
        obtain rfl : s = n.size := by omega
        have word := h.walks_iff.mp (size ▸ round)
        rw [← List.append_assoc, ← Language.one_add_self_mul_kstar_eq_kstar]
        exact .inr (Language.append_mem_mul word after)
      · intro _
        exact ⟨_, v, List.append_assoc .., round, after⟩
    · exact ⟨fun _ => by omega, fun _ => ⟨[], _, rfl, .refl _, outside (by omega)⟩⟩
    · exact ⟨fun _ => outside (by omega), fun _ => by omega⟩

theorem loop (h : Attached (opened n q) n₁ n.size b L) {words : List (List String)}
    (all : ∀ word ∈ words, word ∈ L) :
    Walks ((looped n₁ n.size b (n.size + 1)).Above n.size) n.size words.flatten (n.size + 1) := by
  have size := size_opened n q
  have exit_new := h.exit_new
  have exit_lt := h.exit_lt
  have step {p r : Nat} {u : List String} : (looped n₁ n.size b (n.size + 1)).Step p u r ↔
      n₁.Step p u r ∨ p = b ∧ u = [] ∧ r = n.size ∨ p = n.size ∧ u = [] ∧ r = n.size + 1 :=
    step_looped exit_lt (by omega) (by omega)
  induction words with
  | nil => exact .single ⟨step.mpr (.inr (.inr ⟨rfl, rfl, rfl⟩)), Nat.le_succ _⟩
  | cons word words ih =>
    have body := h.walks_iff.mpr (all word List.mem_cons_self)
    have round : Walks ((looped n₁ n.size b (n.size + 1)).Above n.size) n.size word b :=
      body.mono fun hs => ⟨step.mpr (.inl hs.1), by have := hs.2; omega⟩
    have back := step.mpr (.inr (.inl ⟨rfl, rfl, rfl⟩))
    refine round.trans (.step (u := []) ⟨back, Nat.le_refl _⟩ (ih fun w hw => all w ?_))
    exact List.mem_cons_of_mem _ hw

theorem star (hq : q < n.size) (h : Attached (opened n q) n₁ n.size b L) :
    Attached n (looped n₁ n.size b (n.size + 1)) q (n.size + 1) L∗ := by
  have size := size_opened n q
  have exit_new := h.exit_new
  have exit_lt := h.exit_lt
  have step {p r : Nat} {u : List String} : (looped n₁ n.size b (n.size + 1)).Step p u r ↔
      n₁.Step p u r ∨ p = b ∧ u = [] ∧ r = n.size ∨ p = n.size ∧ u = [] ∧ r = n.size + 1 :=
    step_looped exit_lt (by omega) (by omega)
  have opens {p r : Nat} {u : List String} : (opened n q).Step p u r ↔
      n.Step p u r ∨ p = q ∧ u = [] ∧ (r = n.size ∨ r = n.size + 1) := step_opened hq
  constructor
  case entry_lt => exact hq
  case exit_new => exact Nat.le_succ _
  case exit_lt =>
    rw [looped, Nfa.size_addSilent, Nfa.size_addSilent]
    omega
  case finals_eq =>
    rw [looped, Nfa.finals_addSilent, Nfa.finals_addSilent, h.finals_eq, opened,
      Nfa.finals_addSilent, Nfa.finals_addSilent]
    rfl
  case keeps => exact fun hs => step.mpr (.inl (h.keeps (opens.mpr (.inl hs))))
  case adds =>
    intro p u r hs
    rcases step.mp hs with hs | ⟨rfl, -, rfl⟩ | ⟨rfl, -, rfl⟩
    · rcases h.adds hs with hs | ⟨source, target⟩
      · rcases opens.mp hs with hs | ⟨rfl, -, rfl | rfl⟩
        · exact .inl hs
        · exact .inr ⟨.inl rfl, Nat.le_refl _⟩
        · exact .inr ⟨.inl rfl, Nat.le_succ _⟩
      · exact .inr ⟨by omega, by omega⟩
    · exact .inr ⟨by omega, Nat.le_refl _⟩
    · exact .inr ⟨by omega, Nat.le_succ _⟩
  case exit_ends =>
    intro u r hs
    rcases step.mp hs with hs | ⟨eq, -, -⟩ | ⟨eq, -, -⟩
    · rcases h.adds hs with hs | ⟨source, -⟩
      · rcases opens.mp hs with hs | ⟨eq, -, -⟩
        · exact not_step_of_size_le (Nat.le_succ _) hs
        · omega
      · omega
    · omega
    · omega
  case walks_iff =>
    intro w
    constructor
    · intro walks
      exact (h.rounds hq walks rfl).1 (by omega)
    · intro hw
      obtain ⟨words, rfl, all⟩ := Language.mem_kstar.mp hw
      have into := step.mpr (.inl (h.keeps (opens.mpr (.inr ⟨rfl, rfl, .inl rfl⟩))))
      exact .step (u := []) ⟨into, Nat.le_refl _⟩ (h.loop all)

theorem step_branch (h : Attached n n₁ q f L) (h' : Attached (PathExpr.forked n₁ q) n₂ n₁.size b L')
    {u : List String} (hs : (n₂.addSilent b f).Step p u r) :
    n₁.Step p u r ∨ (p = q ∧ u = [] ∧ r = n₁.size) ∨
      (n₁.size ≤ p ∧ n₂.Above (n₁.size + 1) p u r) ∨ (p = b ∧ u = [] ∧ r = f) := by
  have entry_lt := h.entry_lt
  have size_le := h.size_le
  have exit_lt := h.exit_lt
  have size := size_forked n₁ q
  have le := h'.size_le
  rcases (Nfa.step_addSilent h'.exit_lt (by omega)).mp hs with hs | out
  · rcases h'.adds hs with hs' | ⟨source, target⟩
    · rcases (step_forked (by omega)).mp hs' with old | into
      · exact .inl old
      · exact .inr (.inl into)
    · exact .inr (.inr (.inl ⟨by omega, hs, by omega⟩))
  · exact .inr (.inr (.inr out))

theorem branch_ends (h : Attached n n₁ q f L) (h' : Attached (PathExpr.forked n₁ q) n₂ n₁.size b L')
    {u : List String} : ¬ (n₂.addSilent b f).Step f u r := by
  have entry_lt := h.entry_lt
  have exit_new := h.exit_new
  have exit_lt := h.exit_lt
  have exit_new' := h'.exit_new
  have size := size_forked n₁ q
  intro hs
  rcases h.step_branch h' hs with hs | ⟨eq, -, -⟩ | ⟨le, -⟩ | ⟨eq, -, -⟩
  · exact h.exit_ends hs
  all_goals omega

theorem branch_walks (h : Attached n n₁ q f L) (h' : Attached (PathExpr.forked n₁ q) n₂ n₁.size b L')
    (walks : Walks ((n₂.addSilent b f).Above n.size) p w r) (leaves : r = f)
    (inside : n₁.size ≤ p) : Walks (n₂.Above (n₁.size + 1)) p w b := by
  have entry_lt := h.entry_lt
  have size_le := h.size_le
  have exit_lt := h.exit_lt
  induction walks with
  | refl p => omega
  | step hs rest ih =>
    rcases h.step_branch h' hs.1 with old | ⟨rfl, -, -⟩ | ⟨-, body⟩ | ⟨rfl, rfl, rfl⟩
    · exact absurd old (not_step_of_size_le inside)
    · omega
    · exact .step body (ih leaves (by have := body.2; omega))
    · subst leaves
      rw [(rest.eq_nil_of_ends fun hs => h.branch_ends h' hs.1).1]
      exact .refl _

/-- The first move decides whether a walk takes the new branch. -/
theorem mem_or_mem (h : Attached n n₁ q f L) (h' : Attached (PathExpr.forked n₁ q) n₂ n₁.size b L')
    (walks : Walks ((n₂.addSilent b f).Above n.size) q w f) : w ∈ L ∨ w ∈ L' := by
  have entry_lt := h.entry_lt
  have exit_new := h.exit_new
  have size_le := h.size_le
  have exit_new' := h'.exit_new
  have size := size_forked n₁ q
  cases walks with
  | refl => omega
  | step hs rest =>
    rcases h.step_branch h' hs.1 with first | ⟨-, rfl, rfl⟩ | ⟨le, -⟩ | ⟨eq, -, -⟩
    · left
      refine h.walks_iff.mp (.step ⟨first, hs.2⟩ ?_)
      refine rest.within (fun s => n.size ≤ s ∧ s < n₁.size) ⟨hs.2, first.lt_size.2⟩ ?_
      intro s u t inside move
      rcases h.step_branch h' move.1 with hs | ⟨rfl, -, -⟩ | ⟨le, -⟩ | ⟨rfl, -, -⟩
      · exact ⟨⟨move.2, hs.lt_size.2⟩, hs, move.2⟩
      all_goals omega
    · right
      rw [← h'.walks_iff, size]
      exact h.branch_walks h' rest rfl (Nat.le_refl _)
    all_goals omega

theorem branch (h : Attached n n₁ q f L) (h' : Attached (PathExpr.forked n₁ q) n₂ n₁.size b L') :
    Attached n (n₂.addSilent b f) q f (L + L') := by
  have entry_lt := h.entry_lt
  have exit_new := h.exit_new
  have exit_lt := h.exit_lt
  have exit_new' := h'.exit_new
  have exit_lt' := h'.exit_lt
  have size := size_forked n₁ q
  have step {p r : Nat} {u : List String} :
      (n₂.addSilent b f).Step p u r ↔ n₂.Step p u r ∨ p = b ∧ u = [] ∧ r = f :=
    Nfa.step_addSilent exit_lt' (by omega)
  have forks {p r : Nat} {u : List String} (hs : n₁.Step p u r ∨ p = q ∧ u = [] ∧ r = n₁.size) :
      (n₂.addSilent b f).Step p u r :=
    step.mpr (.inl (h'.keeps ((step_forked (by omega)).mpr hs)))
  constructor
  case entry_lt => exact entry_lt
  case exit_new => exact exit_new
  case exit_lt =>
    rw [Nfa.size_addSilent]
    omega
  case finals_eq =>
    rw [Nfa.finals_addSilent, h'.finals_eq, PathExpr.forked, Nfa.finals_addSilent]
    exact h.finals_eq
  case keeps => exact fun hs => forks (.inl (h.keeps hs))
  case adds =>
    intro p u r hs
    rcases h.step_branch h' hs with hs | ⟨rfl, -, rfl⟩ | ⟨source, body⟩ | ⟨rfl, -, rfl⟩
    · exact h.adds hs
    · exact .inr ⟨.inl rfl, by omega⟩
    · have := body.2
      exact .inr ⟨.inr (by omega), by omega⟩
    · exact .inr ⟨.inr (by omega), exit_new⟩
  case exit_ends => exact h.branch_ends h'
  case walks_iff =>
    intro w
    rw [Language.mem_add]
    refine ⟨h.mem_or_mem h', ?_⟩
    rintro (hw | hw)
    · exact (h.walks_iff.mpr hw).mono fun hs => ⟨forks (.inl hs.1), hs.2⟩
    · have body : Walks ((n₂.addSilent b f).Above n.size) n₁.size w b :=
        (h'.walks_iff.mpr hw).mono fun hs => ⟨step.mpr (.inl hs.1), by have := hs.2; omega⟩
      have out := step.mpr (.inr ⟨rfl, rfl, rfl⟩)
      have ended := body.trans (.single ⟨out, exit_new⟩)
      rw [List.append_nil] at ended
      exact .step (u := []) ⟨forks (.inr ⟨rfl, rfl, rfl⟩), by omega⟩ ended

theorem none (hq : q < n.size) : Attached n n.addState q n.size 0 := by
  have size := Simulation.size_addState n
  have walks {w : List String} (h : Walks (n.addState.Above n.size) q w n.size) : False := by
    cases h with
    | refl => omega
    | step hs _ => exact not_above_size ⟨Nfa.step_addState.mp hs.1, hs.2⟩
  constructor
  case entry_lt => exact hq
  case exit_new => exact Nat.le_refl _
  case exit_lt => omega
  case finals_eq => rfl
  case keeps => exact Nfa.step_addState.mpr
  case adds => exact fun hs => .inl (Nfa.step_addState.mp hs)
  case exit_ends => exact fun hs => not_step_of_size_le (Nat.le_refl _) (Nfa.step_addState.mp hs)
  case walks_iff => exact ⟨fun h => (walks h).elim, fun h => h.elim⟩

end Attached

end

mutual

/-- The fragment of an expression accepts its words. -/
theorem attached_attach {n : Nfa} {q : Nat} (hq : q < n.size) (e : PathExpr Predicate) :
    Attached n (attach n q e).1 q (attach n q e).2 (language e) := by
  match e with
  | .empty =>
    rw [attach, language]
    exact .forked hq
  | .one p =>
    rw [attach, language]
    exact .addMove hq p
  | .seq [] =>
    rw [attach, language]
    exact .forked hq
  | .seq (e :: es) =>
    have head := attached_attach hq e
    rw [attach, attachSeq, language, languages, List.prod_cons]
    exact attached_attachSeq head es
  | .star e =>
    have body := attached_attach (n := opened n q) (q := n.size) (by rw [size_opened]; omega) e
    rw [attach, language]
    exact body.star hq
  | .alt [] =>
    rw [attach, language]
    exact .forked hq
  | .alt (e :: es) =>
    have all := attached_attachAlt (.none hq) (e :: es)
    rw [zero_add] at all
    rw [attach, language]
    exact all

theorem attached_attachSeq {n n₁ : Nfa} {q f : Nat} {L : Language String}
    (h : Attached n n₁ q f L) (es : List (PathExpr Predicate)) :
    Attached n (attachSeq n₁ f es).1 q (attachSeq n₁ f es).2 (L * (languages es).prod) := by
  match es with
  | [] =>
    rw [attachSeq, languages, List.prod_nil, mul_one]
    exact h
  | e :: es =>
    have head := h.seq (attached_attach h.exit_lt e)
    rw [attachSeq, languages, List.prod_cons, ← mul_assoc]
    exact attached_attachSeq head es

theorem attached_attachAlt {n n₁ : Nfa} {q f : Nat} {L : Language String}
    (h : Attached n n₁ q f L) (es : List (PathExpr Predicate)) :
    Attached n (attachAlt n₁ q f es) q f (L + (languages es).sum) := by
  match es with
  | [] =>
    rw [attachAlt, languages, List.sum_nil, add_zero]
    exact h
  | e :: es =>
    have size := size_forked n₁ q
    have more := h.branch (attached_attach (n := forked n₁ q) (q := n₁.size) (by omega) e)
    rw [attachAlt, languages, List.sum_cons, ← add_assoc]
    exact attached_attachAlt more es

end

theorem size_empty_addState : Nfa.empty.addState.size = 1 := Simulation.size_addState Nfa.empty

theorem mem_run_nfa (e : PathExpr Predicate) (word : List String) :
    (attach Nfa.empty.addState 0 e).2 ∈ e.nfa.run word ↔ word ∈ e.language := by
  have attached := attached_attach (n := Nfa.empty.addState) (q := 0) Nat.one_pos e
  have exit_lt := attached.exit_lt
  have size : e.nfa.size = (attach Nfa.empty.addState 0 e).1.size := rfl
  rw [Nfa.mem_run (by omega), ← attached.walks_iff, size_empty_addState]
  constructor
  · intro walks
    refine walks.mono fun {p u r} hs => ?_
    have step := Nfa.step_markFinal.mp hs
    rcases attached.adds step with old | ⟨-, entered⟩
    · exact absurd (Nfa.step_addState.mp old) (not_step_of_size_le (Nat.zero_le p))
    · exact ⟨step, entered⟩
  · intro walks
    exact walks.mono fun hs => Nfa.step_markFinal.mpr hs.1

theorem mem_finals_nfa (e : PathExpr Predicate) {q : Nat} :
    q ∈ e.nfa.finals ↔ q = (attach Nfa.empty.addState 0 e).2 := by
  have attached := attached_attach (n := Nfa.empty.addState) (q := 0) Nat.one_pos e
  have finals : e.nfa.finals = IndexSet.insert ∅ (attach Nfa.empty.addState 0 e).2 := by
    show (attach Nfa.empty.addState 0 e).1.finals.insert _ = _
    rw [attached.finals_eq]
    rfl
  rw [finals]
  simp

theorem language_nfa (e : PathExpr Predicate) (word : List String) :
    e.nfa.language word = true ↔ word ∈ e.language := by
  rw [Nfa.language, Nfa.accepting, List.any_eq_true, ← mem_run_nfa]
  constructor
  · rintro ⟨q, hq, final⟩
    rw [← (mem_finals_nfa e).mp (of_decide_eq_true final)]
    exact IndexSet.mem_toList.mp hq
  · intro h
    exact ⟨_, IndexSet.mem_toList.mpr h, decide_eq_true ((mem_finals_nfa e).mpr rfl)⟩

/-- The automaton of an expression accepts the words of the expression and no others. -/
theorem recognizes_nfa (e : PathExpr Predicate) (word : List String) :
    (Automaton.recognizes (Simulation.ofNfa e.nfa) word).1 = true ↔ word ∈ e.language := by
  rw [(Simulation.interpretation _).recognizes_eq]
  exact language_nfa e word

end PathExpr

end CallAtlas
