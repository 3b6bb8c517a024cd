import CallAtlas.Proofs.Dump.Entry
import CallAtlas.Proofs.Graph.Labels
/-!
The texts in a graph. Main statement: `allTexts_ofHistory`, what holds of all texts in a history holds of
all texts in the graph that it makes.
-/
namespace CallAtlas

def Entry.node? : Entry → Option Node
  | mention name => some { name }
  | define name d => some { name, definition := some d }
  | label _ _ => none
  | edge _ callee _ => some { name := callee }

def Node.texts (n : Node) : List String := n.name :: (n.username.toList ++ n.file.toList)

def Node.operands (n : Node) : List String := n.name :: n.file.toList

theorem Node.displayName_mem_texts (node : Node) : node.displayName ∈ node.texts := by
  rw [texts, List.mem_cons, List.mem_append, Option.mem_toList]
  rcases node.displayName_cases with eq | eq
  · exact .inl eq.symm
  · exact .inr (.inl eq)

namespace Graph

def Change.texts : Change → List String
  | add entry => entry.texts
  | _ => []

variable {g g' : Graph}

structure AllTexts (g : Graph) (P : String → Prop) : Prop where
  nodes : ∀ node ∈ g.nodes, ∀ t ∈ node.texts, P t
  labels : ∀ l names, g.labels.get? l = some names → P l ∧ ∀ name ∈ names, P name

theorem mem_nodes_mention {name : String} {node : Node} (h : node ∈ (g.mention name).2.nodes) :
    node ∈ g.nodes ∨ node = { name } := by
  unfold mention at h
  split at h
  · exact .inl h
  · exact Array.mem_push.mp h

theorem mem_nodes_define {name : String} {d : Definition} {node : Node}
    (h : node ∈ (g.define name d).2.nodes) :
    node ∈ g.nodes ∨ node = { name, definition := some d } := by
  cases found : g.find? name with
  | none =>
    rw [define_fresh found] at h
    exact Array.mem_push.mp h
  | some i =>
    cases external : g.isExternalAt i with
    | false =>
      rw [define_of_defined found external] at h
      exact .inl h
    | true =>
      rw [define_of_external found external] at h
      exact Array.mem_or_eq_of_mem_setIfInBounds h

theorem mem_nodes_add {entry : Entry} (eq : g.add entry = .ok g') {node : Node}
    (h : node ∈ g'.nodes) : node ∈ g.nodes ∨ entry.node? = some node := by
  cases entry with
  | mention name =>
    cases eq
    exact (mem_nodes_mention h).imp id fun eq => congrArg some eq.symm
  | define name d =>
    cases eq
    exact (mem_nodes_define h).imp id fun eq => congrArg some eq.symm
  | label l name =>
    cases eq
    exact .inl h
  | edge caller callee kind =>
    obtain ⟨i, -, -, rfl⟩ := connect_eq_ok.mp eq
    rw [join_eq] at h
    exact (mem_nodes_mention h).imp id fun eq => congrArg some eq.symm

theorem labels_mention (g : Graph) (name : String) : (g.mention name).2.labels = g.labels := by
  unfold mention
  split <;> rfl

theorem labels_define (g : Graph) (name : String) (d : Definition) :
    (g.define name d).2.labels = g.labels := by
  unfold define
  dsimp only
  split <;> exact g.labels_mention name

theorem labels_add {entry : Entry} (eq : g.add entry = .ok g') :
    g'.labels = g.labels ∨ ∃ l name, entry = .label l name ∧ g' = g.addLabel name l := by
  cases entry with
  | mention name =>
    cases eq
    exact .inl (g.labels_mention name)
  | define name d =>
    cases eq
    exact .inl (g.labels_define name d)
  | label l name =>
    cases eq
    exact .inr ⟨l, name, rfl, rfl⟩
  | edge caller callee kind =>
    obtain ⟨i, -, -, rfl⟩ := connect_eq_ok.mp eq
    left
    rw [join_eq]
    exact g.labels_mention callee

variable {P : String → Prop}

namespace AllTexts

theorem empty : AllTexts {} P := ⟨by simp, by simp⟩

theorem of_eq (h : g.AllTexts P) (nodes : g'.nodes = g.nodes) (labels : g'.labels = g.labels) :
    g'.AllTexts P :=
  ⟨nodes ▸ h.nodes, labels ▸ h.labels⟩

theorem mono {Q : String → Prop} (h : g.AllTexts P) (imp : ∀ t, P t → Q t) : g.AllTexts Q :=
  ⟨fun node hn t ht => imp t (h.nodes node hn t ht), fun l names found =>
    ⟨imp l (h.labels l names found).1, fun n hn => imp n ((h.labels l names found).2 n hn)⟩⟩

theorem canonical (h : g.AllTexts P) {name : String} (hn : P name) : P (g.canonical name) := by
  rcases g.canonical_cases name with ⟨-, eq⟩ | ⟨i, node, -, found, eq⟩
  · rw [eq]
    exact hn
  · rw [eq]
    exact h.nodes node (Array.mem_of_getElem? found) _ List.mem_cons_self

theorem add (h : g.AllTexts P) {entry : Entry} (texts : ∀ t ∈ entry.texts, P t)
    (eq : g.add entry = .ok g') : g'.AllTexts P := by
  refine ⟨fun node hn t ht => ?_, fun l names found => ?_⟩
  · rcases mem_nodes_add eq hn with hn | brought
    · exact h.nodes node hn t ht
    · refine texts t ?_
      cases entry with
      | mention name =>
        cases brought
        exact ht
      | define name d =>
        cases brought
        exact ht
      | label l name => cases brought
      | edge caller callee kind =>
        cases brought
        exact List.mem_cons_of_mem _ ht
  · rcases labels_add eq with same | ⟨label, name, rfl, rfl⟩
    · exact h.labels l names (same ▸ found)
    · obtain ⟨hl, hn⟩ : P label ∧ P name :=
        ⟨texts label List.mem_cons_self, texts name (List.mem_cons_of_mem _ List.mem_cons_self)⟩
      rw [get?_labels_addLabel] at found
      split at found
      · rename_i here
        cases found
        refine ⟨here ▸ hl, fun other ho => ?_⟩
        rcases NameSet.mem_insert.mp ho with rfl | ho
        · exact h.canonical hn
        · obtain ⟨names, found, ho⟩ := mem_labeled.mp ho
          exact (h.labels label names found).2 other ho
      · exact h.labels l names found

theorem apply (h : g.AllTexts P) {change : Change} (texts : ∀ t ∈ change.texts, P t) :
    (g.apply change).AllTexts P := by
  rcases g.apply_cases change with ⟨entry, rfl, added⟩ | ⟨_, _, -, -, same⟩ |
    ⟨-, labels, _, same, kept⟩
  · exact h.add texts added
  · rwa [same]
  · rw [same]
    refine ⟨h.nodes, ?_⟩
    rcases kept with rfl | rfl
    · exact h.labels
    · simp

end AllTexts

theorem allTexts_ofHistory {history : List Change} (h : ∀ change ∈ history, ∀ t ∈ change.texts, P t) :
    (ofHistory history).AllTexts P := by
  have run : ∀ g : Graph, g.AllTexts P → (history.foldl Graph.apply g).AllTexts P := by
    induction history with
    | nil => exact fun _ held => held
    | cons change history ih =>
      obtain ⟨first, rest⟩ := List.forall_mem_cons.mp h
      exact fun g held => ih rest _ (held.apply first)
  exact run {} .empty

end Graph

end CallAtlas
