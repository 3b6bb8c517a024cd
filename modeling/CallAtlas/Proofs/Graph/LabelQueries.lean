import CallAtlas.Proofs.Graph.Addresses
import CallAtlas.Proofs.Graph.Provenance
import CallAtlas.Proofs.Graph.Texts
/-!
Where labels are from, and how they are found again. A label is stored with the canonical name of what it
was put on, while a question resolves its name when it is asked; so a node that takes a labeled name as its
username is listed with a label that it does not have. Main statements: `mem_labeled_ofHistory`, labels are
where the history put them, and `label_answers`, when all questions about labels agree.
-/
namespace CallAtlas.Graph

/-- A label was put on something that had this canonical name then, and labels were not reset since. -/
def LabeledIn (history : List Change) (l name : String) : Prop :=
  ∃ before after given, history = before ++ .add (.label l given) :: after ∧
    .resetLabels ∉ after ∧ (ofHistory before).canonical given = name

/-- All questions whether a node has a label are answered alike, under both of its names. -/
def AgreesOn (g : Graph) (i : Nat) (l : String) : Prop :=
  ∀ name, name = g.displayAt i ∨ name = g.nameAt i →
    (g.hasLabel name l = true ↔ g.displayAt i ∈ g.labeledNodes l) ∧
      (l ∈ g.labelsOf name ↔ g.displayAt i ∈ g.labeledNodes l)

/-- Whatever was labeled was a node then, or no node has it as its username now. -/
def LabelsSettle (history : List Change) : Prop :=
  ∀ before after l given, history = before ++ .add (.label l given) :: after →
    (ofHistory before).contains given = true ∨
      ∀ i, (ofHistory history).usernameAt i ≠ some given

variable {g : Graph} {history : List Change} {change : Change} {l name : String}

theorem labels_apply (g : Graph) (change : Change) :
    (change = .resetLabels ∧ (g.apply change).labels = ∅) ∨
      (∃ l name, change = .add (.label l name) ∧ g.apply change = g.addLabel name l) ∨
      change ≠ .resetLabels ∧ (∀ l name, change ≠ .add (.label l name)) ∧
        (g.apply change).labels = g.labels := by
  cases change with
  | add entry =>
    cases entry with
    | label l name => exact .inr (.inl ⟨l, name, rfl, rfl⟩)
    | mention name => exact .inr (.inr ⟨by simp, by simp, g.labels_mention name⟩)
    | define name d => exact .inr (.inr ⟨by simp, by simp, g.labels_define name d⟩)
    | edge caller callee kind =>
      refine .inr (.inr ⟨by simp, by simp, ?_⟩)
      cases added : g.add (.edge caller callee kind) with
      | error e => rw [apply, added]
      | ok g' =>
        rw [apply, added]
        rcases labels_add added with same | ⟨_, _, label, -⟩
        · exact same
        · cases label
  | resetLabels => exact .inl ⟨rfl, rfl⟩
  | cutCallers name =>
    obtain ⟨v, eq⟩ := g.exists_visibility_cutCallers name
    exact .inr (.inr ⟨by simp, by simp, by rw [apply, eq]⟩)
  | cutCallees name =>
    obtain ⟨v, eq⟩ := g.exists_visibility_cutCallees name
    exact .inr (.inr ⟨by simp, by simp, by rw [apply, eq]⟩)
  | hide | keep | resetVisibility | setDefault => exact .inr (.inr ⟨by simp, by simp, rfl⟩)

theorem mem_labeled_apply : name ∈ (g.apply change).labeled l ↔
    change ≠ .resetLabels ∧ name ∈ g.labeled l ∨
      ∃ given, change = .add (.label l given) ∧ g.canonical given = name := by
  rcases g.labels_apply change with ⟨rfl, none⟩ | ⟨other, given, rfl, added⟩ | ⟨stay, plain, same⟩
  · have away : name ∉ (g.apply .resetLabels).labeled l := by
      rw [labeled, none]
      exact List.not_mem_nil
    simp [away]
  · rw [added, mem_labeled_addLabel]
    constructor
    · rintro (old | ⟨rfl, rfl⟩)
      · exact .inl ⟨by simp, old⟩
      · exact .inr ⟨given, rfl, rfl⟩
    · rintro (⟨-, old⟩ | ⟨_, ⟨⟩, rfl⟩)
      · exact .inl old
      · exact .inr ⟨rfl, rfl⟩
  · rw [labeled, same]
    constructor
    · exact fun old => .inl ⟨stay, old⟩
    · rintro (⟨-, old⟩ | ⟨given, label, -⟩)
      · exact old
      · exact absurd label (plain l given)

theorem labeledIn_concat : LabeledIn (history ++ [change]) l name ↔
    change ≠ .resetLabels ∧ LabeledIn history l name ∨
      ∃ given, change = .add (.label l given) ∧ (ofHistory history).canonical given = name := by
  constructor
  · rintro ⟨before, after, given, eq, stay, stood⟩
    rcases List.eq_nil_or_concat after with rfl | ⟨rest, last, rfl⟩
    · obtain ⟨rfl, last⟩ := List.append_inj' eq rfl
      exact .inr ⟨given, List.singleton_inj.mp last, stood⟩
    · rw [List.concat_eq_append, ← List.cons_append, ← List.append_assoc] at eq
      obtain ⟨rfl, same⟩ := List.append_inj' eq rfl
      rw [List.concat_eq_append, ← same, List.mem_append, List.mem_singleton, not_or] at stay
      exact .inl ⟨Ne.symm stay.2, before, rest, given, rfl, stay.1, stood⟩
  · rintro (⟨other, before, after, given, rfl, stay, stood⟩ | ⟨given, rfl, stood⟩)
    · refine ⟨before, after ++ [change], given, by simp, ?_, stood⟩
      rw [List.mem_append, List.mem_singleton, not_or]
      exact ⟨stay, Ne.symm other⟩
    · exact ⟨history, [], given, rfl, List.not_mem_nil, stood⟩

/-- A label is on the canonical names that it was put on since labels were reset last. -/
theorem mem_labeled_ofHistory : name ∈ (ofHistory history).labeled l ↔ LabeledIn history l name := by
  induction history using List.reverseRecOn with
  | nil => simp [LabeledIn, ofHistory, labeled, NameMap.mem_iff_isSome_get?]
  | append_singleton history change ih =>
    rw [ofHistory_concat, mem_labeled_apply, labeledIn_concat, ih]

theorem hasLabel_iff : g.hasLabel name l = true ↔ g.canonical name ∈ g.labeled l :=
  decide_eq_true_iff

theorem mem_labelsOf : l ∈ g.labelsOf name ↔ g.hasLabel name l = true := by
  rw [labelsOf, List.mem_filter]
  exact and_iff_right_of_imp fun carried => mem_labels_of_mem_labeled (hasLabel_iff.mp carried)

theorem Addressed.canonical_displayAt (addressed : g.Addressed) {i : Nat} (lt : i < g.size) :
    g.canonical (g.displayAt i) = g.nameAt i := by
  rw [canonical, addressed i lt]
  rfl

theorem Addressed.displayAt_mem_labeledNodes (addressed : g.Addressed) {i : Nat} (lt : i < g.size) :
    g.displayAt i ∈ g.labeledNodes l ↔ ∃ name ∈ g.labeled l, g.resolve? name = some i := by
  rw [mem_labeledNodes]
  refine exists_congr fun name => and_congr_right fun _ => ?_
  rcases g.shownAs_cases name with ⟨missing, eq⟩ | ⟨j, node, found, here, eq⟩
  · rw [eq, missing]
    refine iff_of_false ?_ nofun
    rintro rfl
    cases missing.symm.trans (addressed i lt)
  · have shown : g.displayAt j = node.displayName := by
      rw [displayAt, here]
      rfl
    rw [eq, ← shown, found]
    constructor
    · intro alike
      have own := addressed j (Array.getElem?_eq_some_iff.mp here).1
      rwa [alike, addressed i lt, eq_comm] at own
    · rintro ⟨⟩
      rfl

theorem Addressed.agreesOn_iff (addressed : g.Addressed) {i : Nat} (lt : i < g.size) :
    g.AgreesOn i l ↔
      (g.nameAt i ∈ g.labeled l ↔ ∃ name ∈ g.labeled l, g.resolve? name = some i) ∧
        (g.nameAt i ∈ g.labeled l ↔ g.canonical (g.nameAt i) ∈ g.labeled l) := by
  rw [AgreesOn]
  simp only [forall_eq_or_imp, forall_eq, mem_labelsOf, and_self, hasLabel_iff,
    addressed.canonical_displayAt lt, addressed.displayAt_mem_labeledNodes lt]
  constructor
  · exact fun ⟨shown, named⟩ => ⟨shown, shown.trans named.symm⟩
  · exact fun ⟨shown, named⟩ => ⟨shown, named.symm.trans shown⟩

theorem Addressed.agreesOn_all_iff (addressed : g.Addressed)
    (own : ∀ i < g.size, g.resolve? (g.nameAt i) = some i) :
    (∀ i < g.size, ∀ l, g.AgreesOn i l) ↔
      ∀ l, ∀ name ∈ g.labeled l, g.canonical name ∈ g.labeled l := by
  constructor
  · intro agree l name carried
    rcases g.canonical_cases name with ⟨-, eq⟩ | ⟨i, node, found, here, eq⟩
    · rwa [eq]
    · have lt := lt_size_of_resolve? found
      have named : g.nameAt i = node.name := by
        rw [nameAt, here]
        rfl
      rw [eq, ← named]
      exact ((addressed.agreesOn_iff lt).mp (agree i lt l)).1.mpr ⟨name, carried, found⟩
  · intro settled i lt l
    have same : g.canonical (g.nameAt i) = g.nameAt i := by
      rw [canonical, own i lt]
      rfl
    rw [addressed.agreesOn_iff lt, same]
    refine ⟨⟨fun carried => ⟨_, carried, own i lt⟩, ?_⟩, Iff.rfl⟩
    rintro ⟨name, carried, found⟩
    have := settled l name carried
    rwa [canonical, found] at this

theorem size_le_concat (history : List Change) (change : Change) :
    (ofHistory history).size ≤ (ofHistory (history ++ [change])).size := by
  have listed (history : List Change) :
      (ofHistory history).size = (mentionsIn history).eraseDups.length := by
    rw [← names_ofHistory, List.length_map, Array.length_toList]
    rfl
  rw [listed, listed, mentionsIn_concat, List.eraseDups_append, List.length_append]
  exact Nat.le_add_right _ _

theorem nameAt_append (before after : List Change) {i : Nat} (lt : i < (ofHistory before).size) :
    i < (ofHistory (before ++ after)).size ∧
      (ofHistory (before ++ after)).nameAt i = (ofHistory before).nameAt i := by
  induction after using List.reverseRecOn with
  | nil =>
    rw [List.append_nil]
    exact ⟨lt, rfl⟩
  | append_singleton after change ih =>
    rw [← List.append_assoc]
    refine ⟨Nat.lt_of_lt_of_le ih.1 (size_le_concat _ _), ?_⟩
    rw [nameAt_concat ih.1, ih.2]

theorem LabelsSettle.canonical_eq (settle : LabelsSettle history)
    (own : ∀ i < (ofHistory history).size,
      (ofHistory history).resolve? ((ofHistory history).nameAt i) = some i)
    (h : LabeledIn history l name) : (ofHistory history).canonical name = name := by
  obtain ⟨before, after, given, eq, -, stood⟩ := h
  cases known : (ofHistory before).contains given with
  | true =>
    obtain ⟨i, found⟩ := Option.isSome_iff_exists.mp known
    have kept := nameAt_append before (.add (.label l given) :: after) (lt_size_of_resolve? found)
    rw [← eq] at kept
    have named : name = (ofHistory history).nameAt i := by
      rw [kept.2, ← stood, canonical, found]
      rfl
    rw [named, canonical, own i kept.1]
    rfl
  | false =>
    have unused := (settle before after l given eq).resolve_left (known ▸ Bool.false_ne_true)
    rw [canonical_eq_self known] at stood
    subst stood
    rcases (ofHistory history).canonical_cases given with ⟨-, same⟩ | ⟨i, node, found, here, same⟩
    · exact same
    · obtain ⟨_, there, named | taken⟩ := getElem?_of_resolve? found
      · cases here.symm.trans there
        rw [same, named]
      · exact absurd (by rw [usernameAt, there]; exact taken) (unused i)

/-- Whether a name has a label and what labels a name has are the same question. If display names address
their nodes, a node has a label under its display name if the label was put on its canonical name, and it is
listed with the label if that was put on any name which stands for the node now; all questions agree on the
node if both are the case or neither is, and its canonical name stands for something labeled exactly if it is
labeled itself. If canonical names stand for their own nodes, they agree on all nodes exactly if every label
that was put on a name was put on what the name stands for now, as it is if no name was labeled before a
node took it as its username. -/
theorem label_answers (made : g = ofHistory history) (addressed : g.Addressed) :
    (∀ name l, l ∈ g.labelsOf name ↔ g.hasLabel name l = true) ∧
      (∀ i < g.size, ∀ l,
        (g.hasLabel (g.displayAt i) l = true ↔ LabeledIn history l (g.nameAt i)) ∧
        (g.displayAt i ∈ g.labeledNodes l ↔
          ∃ name, LabeledIn history l name ∧ g.resolve? name = some i) ∧
        (g.AgreesOn i l ↔
          (LabeledIn history l (g.nameAt i) ↔
            ∃ name, LabeledIn history l name ∧ g.resolve? name = some i) ∧
          (LabeledIn history l (g.nameAt i) ↔ LabeledIn history l (g.canonical (g.nameAt i))))) ∧
      ((∀ i < g.size, g.resolve? (g.nameAt i) = some i) →
        ((∀ i < g.size, ∀ l, g.AgreesOn i l) ↔
          ∀ l name, LabeledIn history l name → LabeledIn history l (g.canonical name)) ∧
        (LabelsSettle history → ∀ i < g.size, ∀ l, g.AgreesOn i l)) := by
  subst made
  refine ⟨fun _ _ => mem_labelsOf, fun i lt l => ?_, fun own => ?_⟩
  · simp only [← mem_labeled_ofHistory]
    refine ⟨?_, addressed.displayAt_mem_labeledNodes lt, addressed.agreesOn_iff lt⟩
    rw [hasLabel_iff, addressed.canonical_displayAt lt]
  · have all := addressed.agreesOn_all_iff own
    simp only [mem_labeled_ofHistory] at all
    refine ⟨all, fun settle => all.mpr fun l name put => ?_⟩
    rwa [settle.canonical_eq own put]

def renamed : Graph := ofHistory
  [.add (.mention "_Z1fv"), .add (.label "old" "_Z1fv"), .resetLabels, .add (.label "l" "_Z1fv"),
    .add (.define "_Z1fv" ⟨some "f()", none, none⟩), .add (.define "b" {}), .add (.label "m" "f()"),
    .add (.label "l" "elsewhere"), .hide "b"]

theorem label_answers_renamed : renamed.Addressed ∧ "f()" ∈ renamed.labeledNodes "l" ∧
    ∀ i < renamed.size, ∀ l, renamed.AgreesOn i l := by
  have size : renamed.size = 2 := by with_unfolding_all decide
  have addressed : renamed.Addressed := by
    unfold Addressed
    rw [size]
    with_unfolding_all decide
  have own : ∀ i < renamed.size, renamed.resolve? (renamed.nameAt i) = some i := by
    rw [size]
    with_unfolding_all decide
  obtain ⟨-, each, all⟩ := label_answers (g := renamed) rfl addressed
  refine ⟨addressed, ?_, (all own).1.mpr fun l name put => ?_⟩
  · have shown : renamed.displayAt 0 = "f()" := by with_unfolding_all decide
    rw [← shown, (each 0 (by omega) "l").2.1]
    refine ⟨"_Z1fv", mem_labeled_ofHistory.mp ?_, ?_⟩
    all_goals with_unfolding_all decide
  · rw [← mem_labeled_ofHistory] at put ⊢
    have settled : ∀ e ∈ renamed.labels.entries, ∀ name ∈ e.2, renamed.canonical name = name := by
      with_unfolding_all decide
    obtain ⟨names, found, carried⟩ := mem_labeled.mp put
    rwa [settled (l, names) (NameMap.get?_eq_some_iff.mp found) name carried]

def usurped : Graph := ofHistory
  [.add (.label "l" "u"), .add (.define "a" ⟨some "u", none, none⟩)]

/-- The node is listed with the label, and does not have it. -/
theorem usurped_listed_not_labeled : usurped.Built ∧ usurped.Addressed ∧ usurped.displayAt 0 = "u" ∧
    "u" ∈ usurped.labeledNodes "l" ∧ usurped.hasLabel "u" "l" = false ∧
    usurped.hasLabel "a" "l" = false ∧ usurped.labelsOf "u" = [] := by
  have addressed : usurped.Addressed := by
    have size : usurped.size = 1 := by with_unfolding_all decide
    unfold Addressed
    rw [size]
    with_unfolding_all decide
  refine ⟨⟨_, rfl⟩, addressed, ?_, mem_labeledNodes.mpr ⟨"u", ?_, ?_⟩, ?_, ?_, ?_⟩
  all_goals with_unfolding_all decide

end CallAtlas.Graph
