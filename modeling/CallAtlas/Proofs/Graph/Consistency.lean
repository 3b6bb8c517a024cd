import CallAtlas.Proofs.Graph.Operations
/-!
What stays true of every graph that a history makes. Main statements: `Built.consistent`, edges start at
definitions, exactly the defined nodes are listed as such, and no label in use is without a carrier; and
`Built.nodup_definitions`, no node is listed twice.
-/
namespace CallAtlas.Graph

variable {g g' : Graph}

structure Consistent (g : Graph) : Prop where
  mem_definitions : ∀ i, i ∈ g.definitions ↔ i < g.size ∧ g.isExternalAt i = false
  callers_defined : ∀ e ∈ g.edges, e.caller ∈ g.definitions
  /-- a label that is in use has carriers -/
  carriers : ∀ l names, g.labels.get? l = some names → ∃ name, name ∈ names

namespace Consistent

theorem of_eq (h : g.Consistent) (nodes : g'.nodes = g.nodes) (edges : g'.edges = g.edges)
    (definitions : g'.definitions = g.definitions)
    (labels : ∀ l names, g'.labels.get? l = some names → ∃ name, name ∈ names) :
    g'.Consistent := by
  refine ⟨fun i => ?_, fun e he => ?_, labels⟩
  · rw [definitions, h.mem_definitions, size, size, isExternalAt, isExternalAt, nodes]
  · rw [edges] at he
    rw [definitions]
    exact h.callers_defined e he

theorem empty : Consistent {} := ⟨by simp [size], by simp, by simp⟩

theorem mention (h : g.Consistent) (name : String) : (g.mention name).2.Consistent := by
  cases found : g.find? name with
  | some i =>
    rw [mention_of_find? found]
    exact h
  | none =>
    rw [mention_fresh found]
    refine ⟨fun i => ?_, h.callers_defined, h.carriers⟩
    rw [h.mem_definitions]
    simp only [size, isExternalAt, Array.getElem?_push, Array.size_push]
    split
    · rename_i last
      simp [last, Node.isExternal]
    · rename_i other
      refine and_congr_left fun _ => ?_
      omega

theorem settle (h : g.Consistent) {i : Nat} (lt : i < g.size) (name : String) (d : Definition) :
    (g.settle i name d).Consistent := by
  refine ⟨fun j => ?_, fun e he => List.mem_cons_of_mem _ (h.callers_defined e he), h.carriers⟩
  show j ∈ i :: g.definitions ↔ _
  rw [List.mem_cons, h.mem_definitions, size_settle]
  by_cases same : j = i
  · rw [same, isExternalAt_eq (getElem?_settle lt name d)]
    simp [lt, Node.isExternal]
  · have kept : (g.settle i name d).isExternalAt j = g.isExternalAt j := by
      rw [isExternalAt, getElem?_settle_ne same]
      rfl
    rw [kept]
    simp [same]

theorem define (h : g.Consistent) (name : String) (d : Definition) :
    (g.define name d).2.Consistent := by
  rw [define_eq]
  split
  · exact (h.mention name).settle (g.mention_lt_size name) name d
  · exact h.mention name

theorem addLabel (h : g.Consistent) (name label : String) : (g.addLabel name label).Consistent := by
  refine h.of_eq rfl rfl rfl fun l names eq => ?_
  rw [get?_labels_addLabel] at eq
  split at eq
  · cases eq
    exact ⟨g.canonical name, NameSet.mem_insert.mpr (.inl rfl)⟩
  · exact h.carriers l names eq

theorem connect (h : g.Consistent) {caller callee : String} {kind : EdgeKind}
    (eq : g.connect caller callee kind = .ok g') : g'.Consistent := by
  obtain ⟨i, found, defined, rfl⟩ := connect_eq_ok.mp eq
  obtain ⟨node, hn, -⟩ := getElem?_of_find? found
  have lt : i < g.size := (Array.getElem?_eq_some_iff.mp hn).1
  have caller : i ∈ (g.mention callee).2.definitions := by
    unfold Graph.mention
    split <;> exact (h.mem_definitions i).mpr ⟨lt, defined⟩
  have mentioned := h.mention callee
  rw [join_eq]
  refine ⟨mentioned.mem_definitions, fun e he => ?_, mentioned.carriers⟩
  rcases mem_edges_join he with he | rfl
  · exact mentioned.callers_defined e he
  · exact caller

theorem add (h : g.Consistent) {entry : Entry} (eq : g.add entry = .ok g') : g'.Consistent := by
  cases entry with
  | mention name =>
    cases eq
    exact h.mention name
  | define name d =>
    cases eq
    exact h.define name d
  | label l name =>
    cases eq
    exact h.addLabel name l
  | edge caller callee kind => exact h.connect eq

theorem apply (h : g.Consistent) (change : Change) : (g.apply change).Consistent := by
  rcases g.apply_cases change with ⟨entry, -, added⟩ | ⟨_, _, -, -, same⟩ |
    ⟨-, labels, _, same, kept⟩
  · exact h.add added
  · rwa [same]
  · rw [same]
    refine h.of_eq rfl rfl rfl ?_
    rcases kept with rfl | rfl
    · exact h.carriers
    · simp

end Consistent

theorem Built.consistent (h : g.Built) : g.Consistent :=
  h.induction .empty fun _ change held => held.apply change

theorem nodup_define (h : g.Consistent) (nodup : g.definitions.Nodup) (name : String)
    (d : Definition) : (g.define name d).2.definitions.Nodup := by
  have mentioned := h.mention name
  have same : (g.mention name).2.definitions = g.definitions := by
    unfold mention
    split <;> rfl
  rw [define_eq]
  split
  · rename_i external
    refine List.nodup_cons.mpr ⟨fun listed => ?_, same ▸ nodup⟩
    have defined := ((mentioned.mem_definitions _).mp listed).2
    rw [external] at defined
    cases defined
  · exact same ▸ nodup

theorem nodup_definitions_add (h : g.Consistent) (nodup : g.definitions.Nodup) {entry : Entry}
    (eq : g.add entry = .ok g') : g'.definitions.Nodup := by
  cases entry with
  | mention name =>
    cases eq
    unfold mention
    split <;> exact nodup
  | define name d =>
    cases eq
    exact nodup_define h nodup name d
  | label l name =>
    cases eq
    exact nodup
  | edge caller callee kind =>
    obtain ⟨i, -, -, rfl⟩ := connect_eq_ok.mp eq
    rw [join_eq]
    unfold mention
    split <;> exact nodup

theorem Built.nodup_definitions (built : g.Built) : g.definitions.Nodup := by
  have both : g.Consistent ∧ g.definitions.Nodup := by
    refine built.induction (P := fun g => g.Consistent ∧ g.definitions.Nodup)
      ⟨.empty, List.nodup_nil⟩ fun g change ⟨h, nodup⟩ => ⟨h.apply change, ?_⟩
    rcases g.apply_cases change with ⟨entry, -, added⟩ | ⟨_, _, -, -, same⟩ |
      ⟨-, _, _, same, -⟩
    · exact nodup_definitions_add h nodup added
    · rw [same]
      exact nodup
    · rw [same]
      exact nodup
  exact both.2

end CallAtlas.Graph
