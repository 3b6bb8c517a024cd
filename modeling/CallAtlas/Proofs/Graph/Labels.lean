import CallAtlas.Dump.Writer
import CallAtlas.Proofs.Graph.Consistency
/-!
Labels by their carriers: the names that a label is stored with, what adding labels does to them, and the
names that a dump writes them with.
-/
namespace CallAtlas

theorem Node.displayName_cases (node : Node) :
    node.name = node.displayName ∨ node.username = some node.displayName := by
  rw [displayName]
  cases node.username <;> simp

theorem Node.isExternal_of_username {node : Node} {username : String}
    (h : node.username = some username) : node.isExternal = false := by
  obtain ⟨d, defined, -⟩ := Option.bind_eq_some_iff.mp h
  rw [isExternal, defined]
  rfl

namespace Graph

variable {g g' : Graph}

theorem canonical_cases (g : Graph) (name : String) :
    g.resolve? name = none ∧ g.canonical name = name ∨
      ∃ i node, g.resolve? name = some i ∧ g.nodes[i]? = some node ∧
        g.canonical name = node.name := by
  cases found : g.resolve? name with
  | none => exact .inl ⟨rfl, by rw [canonical, found]; rfl⟩
  | some i =>
    have lt := lt_size_of_resolve? found
    refine .inr ⟨i, g.nodes[i], rfl, Array.getElem?_eq_getElem lt, ?_⟩
    rw [canonical, found]
    exact nameAt_eq lt

/-- The name under which a name is shown, in the graph or not. -/
def shownAs (g : Graph) (name : String) : String := (g.displayName? name).getD name

theorem shownAs_cases (g : Graph) (name : String) :
    g.resolve? name = none ∧ g.shownAs name = name ∨
      ∃ i node, g.resolve? name = some i ∧ g.nodes[i]? = some node ∧
        g.shownAs name = node.displayName := by
  cases found : g.resolve? name with
  | none => exact .inl ⟨rfl, by rw [shownAs, displayName?, found]; rfl⟩
  | some i =>
    have lt := lt_size_of_resolve? found
    refine .inr ⟨i, g.nodes[i], rfl, Array.getElem?_eq_getElem lt, ?_⟩
    rw [shownAs, displayName?, found, Option.map_some, Option.getD_some, displayAt,
      Array.getElem?_eq_getElem lt]
    rfl

theorem resolve?_eq_none {name : String} (missing : g.contains name = false) :
    g.resolve? name = none :=
  Option.isNone_iff_eq_none.mp (Option.isSome_eq_false_iff.mp missing)

theorem canonical_eq_self {name : String} (missing : g.contains name = false) :
    g.canonical name = name := by
  rw [canonical, resolve?_eq_none missing]
  rfl

theorem shownAs_eq_self {name : String} (missing : g.contains name = false) :
    g.shownAs name = name := by
  rw [shownAs, displayName?, resolve?_eq_none missing]
  rfl

section Listed

variable (listed : ∀ i, i ∈ g.definitions ↔ i < g.size ∧ g.isExternalAt i = false)

include listed

theorem isSome_findUsername? {node : Node} (h : node ∈ g.nodes) {username : String}
    (own : node.username = some username) : (g.findUsername? username).isSome := by
  obtain ⟨i, lt, rfl⟩ := Array.mem_iff_getElem.mp h
  have here : g.nodes[i]? = some g.nodes[i] := Array.getElem?_eq_getElem lt
  refine List.find?_isSome.mpr ⟨i, (listed i).mpr ⟨lt, ?_⟩, by simp [here, own]⟩
  rw [isExternalAt_eq here]
  exact Node.isExternal_of_username own

theorem contains_iff {name : String} : g.contains name = true ↔
    ∃ node ∈ g.nodes, node.name = name ∨ node.username = some name := by
  rw [contains, Option.isSome_iff_exists]
  constructor
  · rintro ⟨i, found⟩
    obtain ⟨node, hn, known⟩ := getElem?_of_resolve? found
    exact ⟨node, Array.mem_of_getElem? hn, known⟩
  · rintro ⟨node, hn, known⟩
    rw [← Option.isSome_iff_exists, resolve?, Option.isSome_or, Bool.or_eq_true]
    rcases known with rfl | eq
    · right
      obtain ⟨i, lt, rfl⟩ := Array.mem_iff_getElem.mp hn
      have := isSome_find?_nameAt (g := g) lt
      rwa [nameAt_eq lt] at this
    · left
      exact isSome_findUsername? listed hn eq

theorem contains_displayName {node : Node} (h : node ∈ g.nodes) :
    g.contains node.displayName = true :=
  (contains_iff listed).mpr ⟨node, h, node.displayName_cases⟩

theorem contains_displayAt {i : Nat} (lt : i < g.size) : g.contains (g.displayAt i) = true := by
  rw [displayAt, Array.getElem?_eq_getElem lt]
  exact contains_displayName listed (Array.getElem_mem lt)

theorem canonical_of_not_contains {name : String} (h : g.contains (g.canonical name) = false) :
    g.canonical name = name := by
  rcases g.canonical_cases name with ⟨-, eq⟩ | ⟨i, node, -, hn, eq⟩
  · exact eq
  · have here := (contains_iff listed).mpr ⟨node, Array.mem_of_getElem? hn, .inl rfl⟩
    rw [eq, here] at h
    cases h

theorem shownAs_of_not_contains {name : String} (h : g.contains (g.shownAs name) = false) :
    g.shownAs name = name := by
  rcases g.shownAs_cases name with ⟨-, eq⟩ | ⟨i, node, -, hn, eq⟩
  · exact eq
  · have here := contains_displayName listed (Array.mem_of_getElem? hn)
    rw [eq, here] at h
    cases h

end Listed

/-- Every username belongs to one node and is not the name of another. -/
def Unmistakable (g : Graph) : Prop :=
  ∀ m ∈ g.nodes, ∀ n ∈ g.nodes, ∀ u ∈ m.username, n.name = u ∨ n.username = some u → m = n

theorem Unmistakable.resolve?_eq_some (u : g.Unmistakable) (h : g.WellFormed)
    (listed : ∀ i, i ∈ g.definitions ↔ i < g.size ∧ g.isExternalAt i = false)
    {name : String} {i : Nat} :
    g.resolve? name = some i ↔
      ∃ node, g.nodes[i]? = some node ∧ (node.name = name ∨ node.username = some name) := by
  refine ⟨getElem?_of_resolve?, fun ⟨node, hn, known⟩ => ?_⟩
  have hm := Array.mem_of_getElem? hn
  obtain ⟨j, found⟩ := Option.isSome_iff_exists.mp ((contains_iff listed).mpr ⟨node, hm, known⟩)
  obtain ⟨other, ho, alike⟩ := getElem?_of_resolve? found
  have same : i = j := by
    rcases alike with named | called
    · rcases known with rfl | eq
      · refine h.nameAt_inj (Array.getElem?_eq_some_iff.mp hn).1
          (Array.getElem?_eq_some_iff.mp ho).1 ?_
        rw [nameAt, nameAt, hn, ho]
        exact named.symm
      · exact h.eq_of_getElem? (u node hm other (Array.mem_of_getElem? ho) name eq (.inl named) ▸ hn) ho
    · exact h.eq_of_getElem? hn (u other (Array.mem_of_getElem? ho) node hm name called known ▸ ho)
  rw [found, same]

theorem Unmistakable.canonical_eq (u : g.Unmistakable) (h : g.WellFormed) (consistent : g.Consistent)
    {name : String} {node : Node} (hn : node ∈ g.nodes)
    (known : node.name = name ∨ node.username = some name) : g.canonical name = node.name := by
  obtain ⟨i, lt, rfl⟩ := Array.mem_iff_getElem.mp hn
  have found := (u.resolve?_eq_some h consistent.mem_definitions).mpr
    ⟨_, Array.getElem?_eq_getElem lt, known⟩
  rw [canonical, found]
  exact nameAt_eq lt

theorem Unmistakable.canonical_shownAs (u : g.Unmistakable) (h : g.WellFormed)
    (consistent : g.Consistent) (name : String) : g.canonical (g.shownAs name) = g.canonical name := by
  rcases g.shownAs_cases name with ⟨-, eq⟩ | ⟨i, node, found, hn, eq⟩
  · rw [eq]
  · rw [eq, u.canonical_eq h consistent (Array.mem_of_getElem? hn) node.displayName_cases, canonical,
      found, Option.map_some, nameAt, hn]
    rfl

theorem Unmistakable.canonical_canonical (u : g.Unmistakable) (h : g.WellFormed)
    (consistent : g.Consistent) (name : String) :
    g.canonical (g.canonical name) = g.canonical name := by
  rcases g.canonical_cases name with ⟨-, eq⟩ | ⟨i, node, -, hn, eq⟩
  · rw [eq, eq]
  · rw [eq]
    exact u.canonical_eq h consistent (Array.mem_of_getElem? hn) (.inl rfl)

theorem mem_labeled {l name : String} :
    name ∈ g.labeled l ↔ ∃ names, g.labels.get? l = some names ∧ name ∈ names := by
  rw [labeled]
  cases g.labels.get? l with
  | none => simp [NameMap.mem_iff_isSome_get?]
  | some names => simp

theorem mem_labels_of_mem_labeled {l name : String} (h : name ∈ g.labeled l) : l ∈ g.labels := by
  obtain ⟨names, found, -⟩ := mem_labeled.mp h
  rw [NameMap.mem_iff_isSome_get?, found]
  rfl

theorem Consistent.mem_labels_iff (h : g.Consistent) {l : String} :
    l ∈ g.labels ↔ ∃ name, name ∈ g.labeled l := by
  constructor
  · intro used
    rw [NameMap.mem_iff_isSome_get?, Option.isSome_iff_exists] at used
    obtain ⟨names, found⟩ := used
    obtain ⟨name, hn⟩ := h.carriers l names found
    exact ⟨name, mem_labeled.mpr ⟨names, found, hn⟩⟩
  · rintro ⟨name, hn⟩
    exact mem_labels_of_mem_labeled hn

def addLabels (g : Graph) (pairs : List (String × String)) : Graph :=
  pairs.foldl (fun g p => g.addLabel p.2 p.1) g

theorem addLabels_eq (g : Graph) (pairs : List (String × String)) :
    g.addLabels pairs = { g with labels := (g.addLabels pairs).labels } := by
  induction pairs generalizing g with
  | nil => rfl
  | cons p pairs ih => exact ih (g.addLabel p.2 p.1)

theorem canonical_addLabel (g : Graph) (name label other : String) :
    (g.addLabel name label).canonical other = g.canonical other := rfl

theorem mem_labeled_addLabel {name label l other : String} :
    other ∈ (g.addLabel name label).labeled l ↔
      other ∈ g.labeled l ∨ (l = label ∧ other = g.canonical name) := by
  rw [labeled, get?_labels_addLabel]
  split
  · rename_i here
    rw [here, Option.getD_some, NameSet.mem_insert]
    simp [or_comm]
  · rename_i other
    simp [other, labeled]

theorem mem_labeled_addLabels {pairs : List (String × String)} {l name : String} :
    name ∈ (g.addLabels pairs).labeled l ↔
      name ∈ g.labeled l ∨ ∃ other, (l, other) ∈ pairs ∧ g.canonical other = name := by
  induction pairs generalizing g with
  | nil => simp [addLabels]
  | cons p pairs ih =>
    obtain ⟨label, n⟩ := p
    show name ∈ ((g.addLabel n label).addLabels pairs).labeled l ↔ _
    rw [ih, mem_labeled_addLabel]
    simp only [canonical_addLabel, List.mem_cons, Prod.mk.injEq]
    constructor
    · rintro ((h | ⟨rfl, rfl⟩) | ⟨other, ho, rfl⟩)
      · exact .inl h
      · exact .inr ⟨n, .inl ⟨rfl, rfl⟩, rfl⟩
      · exact .inr ⟨other, .inr ho, rfl⟩
    · rintro (h | ⟨other, ⟨rfl, rfl⟩ | ho, rfl⟩)
      · exact .inl (.inl h)
      · exact .inl (.inr ⟨rfl, rfl⟩)
      · exact .inr ⟨other, ho, rfl⟩

theorem mem_labels_addLabels {pairs : List (String × String)} {l : String} :
    l ∈ (g.addLabels pairs).labels ↔ l ∈ g.labels ∨ ∃ other, (l, other) ∈ pairs := by
  induction pairs generalizing g with
  | nil => simp [addLabels]
  | cons p pairs ih =>
    obtain ⟨label, n⟩ := p
    have once : l ∈ (g.addLabel n label).labels ↔ l = label ∨ l ∈ g.labels := by
      rw [NameMap.mem_iff_isSome_get?, NameMap.mem_iff_isSome_get?, get?_labels_addLabel]
      split <;> simp_all
    show l ∈ ((g.addLabel n label).addLabels pairs).labels ↔ _
    rw [ih, once]
    simp only [List.mem_cons, Prod.mk.injEq]
    constructor
    · rintro ((rfl | h) | ⟨other, ho⟩)
      · exact .inr ⟨n, .inl ⟨rfl, rfl⟩⟩
      · exact .inl h
      · exact .inr ⟨other, .inr ho⟩
    · rintro (h | ⟨other, ⟨rfl, -⟩ | ho⟩)
      · exact .inl (.inr h)
      · exact .inl (.inl rfl)
      · exact .inr ⟨other, ho⟩

theorem labels_ext (labels : ∀ l, l ∈ g.labels ↔ l ∈ g'.labels)
    (labeled : ∀ l name, name ∈ g.labeled l ↔ name ∈ g'.labeled l) : g.labels = g'.labels := by
  refine NameMap.ext_get? fun l => ?_
  have used := labels l
  have names := labeled l
  rw [NameMap.mem_iff_isSome_get?, NameMap.mem_iff_isSome_get?] at used
  rw [Graph.labeled, Graph.labeled] at names
  cases before : g.labels.get? l with
  | none => cases after : g'.labels.get? l <;> simp_all
  | some S =>
    cases after : g'.labels.get? l with
    | none => simp_all
    | some T =>
      rw [before, after] at names
      exact congrArg some (NameSet.ext names)

def writtenLabels (g : Graph) : List (String × String) :=
  g.labelNames.flatMap fun l => (g.labeledNodes l).map (l, ·)

theorem labelEntries_eq (g : Graph) :
    g.labelEntries = g.writtenLabels.map fun p => .label p.1 p.2 := by
  rw [labelEntries, writtenLabels, List.map_flatMap]
  simp [Function.comp_def]

theorem mem_labeledNodes {l other : String} :
    other ∈ g.labeledNodes l ↔ ∃ name ∈ g.labeled l, g.shownAs name = other := by
  rw [labeledNodes, sortNames, List.mem_mergeSort, List.mem_map]
  rfl

theorem mem_writtenLabels {l other : String} :
    (l, other) ∈ g.writtenLabels ↔ ∃ name ∈ g.labeled l, g.shownAs name = other := by
  rw [writtenLabels, List.mem_flatMap, ← mem_labeledNodes]
  simp only [List.mem_map, Prod.mk.injEq]
  constructor
  · rintro ⟨_, -, name, hn, rfl, rfl⟩
    exact hn
  · intro hn
    obtain ⟨name, carried, -⟩ := mem_labeledNodes.mp hn
    exact ⟨l, mem_labels_of_mem_labeled carried, other, hn, rfl, rfl⟩

theorem foldlM_add_labels (pairs : List (String × String)) :
    (pairs.map fun p => Entry.label p.1 p.2).foldlM add g = .ok (g.addLabels pairs) := by
  induction pairs generalizing g with
  | nil => rfl
  | cons p pairs ih => exact ih

end Graph

end CallAtlas
