import CallAtlas.Proofs.Graph.Reach
import CallAtlas.Proofs.Selector.Selection
import CallAtlas.Proofs.Session.Refusal
/-!
What an `only` command leaves in view. Its nodes are selected when nothing is shown by default any more,
so the selection may differ from the one made before the command. Main statement: `showsExactly_only`.
-/
namespace CallAtlas

namespace Graph

def ShowsExactly (g : Graph) (P : Nat → Prop) : Prop :=
  ∀ name, name ∈ g.visibleNodes true ↔ ∃ i < g.size, g.displayAt i = name ∧ P i

variable {g : Graph} {P Q : Nat → Prop}

theorem ShowsExactly.congr (h : g.ShowsExactly P) (iff : ∀ i < g.size, P i ↔ Q i) :
    g.ShowsExactly Q := by
  intro name
  rw [h name]
  constructor
  · rintro ⟨i, lt, shown, hi⟩
    exact ⟨i, lt, shown, (iff i lt).mp hi⟩
  · rintro ⟨i, lt, shown, hi⟩
    exact ⟨i, lt, shown, (iff i lt).mpr hi⟩

theorem ShowsExactly.iff (addressed : g.Addressed) (h : g.ShowsExactly P) (h' : g.ShowsExactly Q)
    {i : Nat} (lt : i < g.size) : P i ↔ Q i := by
  have own {R : Nat → Prop} :
      (∃ j < g.size, g.displayAt j = g.displayAt i ∧ R j) ↔ R i := by
    constructor
    · rintro ⟨j, lt', same, hj⟩
      have eq := addressed j lt'
      rw [same, addressed i lt] at eq
      cases eq
      exact hj
    · exact fun hi => ⟨i, lt, rfl, hi⟩
  rw [← own (R := P), ← own (R := Q), ← h, ← h']

theorem Built.showsExactly_keepAll (built : g.Built) (addressed : g.Addressed) (reach : Reach)
    (names : List String) :
    ((g.setDefault false).keepAll reach names).ShowsExactly (g.Remains reach names) := by
  have wf : (g.setDefault false).WellFormed := (built.apply (.setDefault false)).wellFormed
  have size : ((g.setDefault false).keepAll reach names).size = g.size := by
    rw [keepAll_eq]
    rfl
  intro name
  rw [mem_visibleNodes]
  refine exists_congr fun i => and_congr_right fun lt => and_congr_right fun _ => ?_
  rw [size] at lt
  rw [wf.showsAt_keepAll addressed rfl]
  exact and_iff_right lt

end Graph

namespace Session

theorem executeWith_only_of_ok {run : FileRunner} {s : Session} {words names : List String}
    (reach : Reach) (h : (s.withGraph (s.graph.setDefault false)).select words = .ok names) :
    s.executeWith run (.only reach words) =
      (.ok (), s.withGraph ((s.graph.setDefault false).keepAll reach names)) := by
  have kept : (s.withGraph (s.graph.setDefault false)).keep reach words =
      .ok (s.withGraph ((s.graph.setDefault false).keepAll reach names)) := by
    rw [keep, h]
    rfl
  show Session.attempt _ _ = _
  rw [kept]
  rfl

theorem select_eq_ok {s : Session} {words names : List String} :
    s.select words = .ok names ↔ ∃ selector, Selector.ofWords s.graph words = .ok selector ∧
      (selector.nodes s.graph).toList = names := by
  unfold select Selector.select
  cases Selector.ofWords s.graph words with
  | error => simp [Except.map, Except.mapError]
  | ok selector => simp [Except.map, Except.mapError]

theorem showsExactly_only {s : Session} (built : s.graph.Built) (addressed : s.graph.Addressed)
    {words before : List String} (accepted : s.select words = .ok before) (reach : Reach) :
    ∃ picked after, (s.withGraph (s.graph.setDefault false)).select words = .ok picked ∧
      s.execute (.only reach words) = (.ok (), s.withGraph after) ∧
      after.ShowsExactly (s.graph.Remains reach picked) ∧
      (after.ShowsExactly (s.graph.Remains reach before) ↔
        ∀ i < s.graph.size, s.graph.Remains reach before i ↔ s.graph.Remains reach picked i) ∧
      ((s.graph.visibility.shownByDefault = false ∨
          ∃ selector, Selector.ofWords s.graph words = .ok selector ∧ selector.looks = false) →
        after.ShowsExactly (s.graph.Remains reach before)) := by
  obtain ⟨selector, parsed, rfl⟩ := select_eq_ok.mp accepted
  have picked : (s.withGraph (s.graph.setDefault false)).select words =
      .ok (selector.nodes (s.graph.setDefault false)).toList :=
    select_eq_ok.mpr ⟨selector, parsed, rfl⟩
  have shown := built.showsExactly_keepAll addressed reach
    (selector.nodes (s.graph.setDefault false)).toList
  have same : ((s.graph.setDefault false).keepAll reach
      (selector.nodes (s.graph.setDefault false)).toList).Addressed ∧
      ((s.graph.setDefault false).keepAll reach
        (selector.nodes (s.graph.setDefault false)).toList).size = s.graph.size := by
    rw [Graph.keepAll_eq]
    exact ⟨addressed, rfl⟩
  refine ⟨_, _, picked, executeWith_only_of_ok reach picked, shown, ⟨?_, ?_⟩, ?_⟩
  · intro h i lt
    exact h.iff same.1 shown (same.2 ▸ lt)
  · intro iff
    exact shown.congr fun i lt => (iff i (same.2 ▸ lt)).symm
  · intro steady
    have unmoved : selector.nodes (s.graph.setDefault false) = selector.nodes s.graph := by
      rcases steady with hidden | ⟨_, parsed', plain⟩
      · rw [setDefault_eq_self.mpr hidden]
      · cases parsed.symm.trans parsed'
        exact Selector.nodes_withVisibility plain _
    rwa [unmoved] at shown ⊢

def couple : Session :=
  { graph := Graph.ofHistory [.add (.define "a" {}), .add (.define "b" {})] }

theorem ofWords_not_b : Selector.ofWords couple.graph ["!b"] = .ok (.not (.name "b")) := by
  have unnamed : ["!b"].all couple.graph.contains = false := by with_unfolding_all decide
  have word : Selector.base false ['b'] = .ok (.name "b", ⟨[], by simp, by simp⟩) := by
    rw [Selector.base]
    · rfl
    all_goals simp
  rw [Selector.ofWords, unnamed]
  exact @Selector.ofText_of_base_ok _ "!b" _ _ word rfl

theorem select_not_b : couple.select ["!b"] = .ok ["a"] :=
  select_eq_ok.mpr ⟨_, ofWords_not_b, by with_unfolding_all decide⟩

theorem select_not_b_hidden :
    (couple.withGraph (couple.graph.setDefault false)).select ["!b"] = .ok [] :=
  select_eq_ok.mpr ⟨_, ofWords_not_b, by with_unfolding_all decide⟩

theorem addressed_couple : couple.graph.Addressed := by
  have size : couple.graph.size = 2 := by with_unfolding_all decide
  intro i lt
  match i with
  | 0 => with_unfolding_all decide
  | 1 => with_unfolding_all decide
  | i + 2 => omega

theorem showsExactly_only_not_b : couple.graph.Built ∧ couple.graph.Addressed ∧
    couple.select ["!b"] = .ok ["a"] ∧
      ∃ picked after, couple.execute (.only {} ["!b"]) = (.ok (), couple.withGraph after) ∧
        after.ShowsExactly (couple.graph.Remains {} picked) := by
  have built : couple.graph.Built := ⟨_, rfl⟩
  obtain ⟨picked, after, -, executed, shown, -⟩ :=
    showsExactly_only built addressed_couple select_not_b {}
  exact ⟨built, addressed_couple, select_not_b, picked, after, executed, shown⟩

/-- The node that the words select is hidden with the others. -/
theorem only_not_b_hides : couple.select ["!b"] = .ok ["a"] ∧
    couple.execute (.only {} ["!b"]) = (.ok (), couple.withGraph (couple.graph.setDefault false)) ∧
    (couple.graph.setDefault false).visibleNodes true = [] := by
  refine ⟨select_not_b, ?_, by decide +kernel⟩
  exact executeWith_only_of_ok {} select_not_b_hidden

end Session

end CallAtlas
