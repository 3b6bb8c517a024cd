import CallAtlas.Proofs.Graph.Lookup
/-!
What additions do to the parts of a graph: which nodes, definitions, labels and edges there are after each
of them.
-/
namespace CallAtlas.Graph

variable {g g' : Graph}

theorem mention_of_find? {name : String} {i : Nat} (h : g.find? name = some i) :
    g.mention name = (i, g) := by
  rw [mention, h]

theorem mention_fresh {name : String} (h : g.find? name = none) :
    g.mention name = (g.size, { g with nodes := g.nodes.push { name } }) := by
  rw [mention, h]

theorem define_of_external {name : String} {i : Nat} (h : g.find? name = some i)
    (external : g.isExternalAt i = true) (d : Definition) :
    g.define name d = (i, { g with
      nodes := g.nodes.setIfInBounds i { name, definition := some d }
      definitions := i :: g.definitions }) := by
  rw [define, mention_of_find? h]
  dsimp only
  rw [if_pos external]

theorem define_of_defined {name : String} {i : Nat} (h : g.find? name = some i)
    (defined : g.isExternalAt i = false) (d : Definition) : g.define name d = (i, g) := by
  rw [define, mention_of_find? h]
  dsimp only
  rw [defined, if_neg Bool.false_ne_true]

theorem define_fresh {name : String} (h : g.find? name = none) (d : Definition) :
    g.define name d = (g.size, { g with
      nodes := g.nodes.push { name, definition := some d }
      definitions := g.size :: g.definitions }) := by
  have external : Graph.isExternalAt { g with nodes := g.nodes.push { name } } g.size = true := by
    simp [isExternalAt, size, Node.isExternal]
  rw [define, mention_fresh h]
  dsimp only
  rw [if_pos external]
  congr 2
  rw [size]
  ext i
  · simp
  · grind

def settle (g : Graph) (i : Nat) (name : String) (d : Definition) : Graph :=
  { g with
    nodes := g.nodes.setIfInBounds i { name, definition := some d }
    definitions := i :: g.definitions }

theorem define_eq (g : Graph) (name : String) (d : Definition) : g.define name d =
    if (g.mention name).2.isExternalAt (g.mention name).1 = true then
      ((g.mention name).1, (g.mention name).2.settle (g.mention name).1 name d)
    else g.mention name := rfl

theorem size_settle (g : Graph) (i : Nat) (name : String) (d : Definition) :
    (g.settle i name d).size = g.size := Array.size_setIfInBounds

theorem getElem?_settle {i : Nat} (lt : i < g.size) (name : String) (d : Definition) :
    (g.settle i name d).nodes[i]? = some { name, definition := some d } := by
  simp [settle, show i < g.nodes.size from lt]

theorem getElem?_settle_ne {i j : Nat} (ne : j ≠ i) (name : String) (d : Definition) :
    (g.settle i name d).nodes[j]? = g.nodes[j]? := by
  simp [settle, Ne.symm ne]

theorem nodes_mention (g : Graph) (name : String) : (g.mention name).2.nodes.toList =
    if name ∈ g.nodes.toList.map Node.name then g.nodes.toList
    else g.nodes.toList ++ [⟨name, none⟩] := by
  cases found : g.find? name with
  | none =>
    rw [if_neg (find?_eq_none.mp found), mention_fresh found]
    exact Array.toList_push
  | some i =>
    have known : name ∈ g.nodes.toList.map Node.name := by
      by_contra fresh
      rw [find?_eq_none.mpr fresh] at found
      cases found
    rw [if_pos known, mention_of_find? found]

theorem WellFormed.nodes_define (h : g.WellFormed) (name : String) (d : Definition) :
    (g.define name d).2.nodes.toList = (g.mention name).2.nodes.toList.map fun node =>
      if node.name = name then { node with definition := node.definition.or (some d) } else node := by
  obtain ⟨node, here, named⟩ := g.getElem?_mention name
  have mentioned := h.mention name
  have own {k : Nat} {other : Node} (there : (g.mention name).2.nodes[k]? = some other)
      (alike : other.name = name) : k = (g.mention name).1 := by
    have first := mentioned.find?_of_getElem? here
    have second := mentioned.find?_of_getElem? there
    rw [named] at first
    rw [alike, first] at second
    cases second
    rfl
  rw [define_eq]
  split
  · rename_i external
    rw [isExternalAt_eq here, Node.isExternal, Option.isNone_iff_eq_none] at external
    refine List.ext_getElem? fun k => ?_
    rw [List.getElem?_map, Array.getElem?_toList, Array.getElem?_toList]
    by_cases same : k = (g.mention name).1
    · rw [same, getElem?_settle (Array.getElem?_eq_some_iff.mp here).1, here, Option.map_some,
        if_pos named, external, named]
      rfl
    · rw [getElem?_settle_ne same]
      cases there : (g.mention name).2.nodes[k]? with
      | none => rfl
      | some other => rw [Option.map_some, if_neg fun alike => same (own there alike)]
  · rename_i defined
    refine (List.map_id _).symm.trans (List.map_congr_left fun other ho => ?_)
    obtain ⟨k, there⟩ := List.mem_iff_getElem?.mp ho
    rw [Array.getElem?_toList] at there
    split
    · rename_i alike
      rw [own there alike, here] at there
      cases there
      rw [isExternalAt_eq here, Node.isExternal, Option.isNone_iff_eq_none] at defined
      obtain ⟨first, given⟩ := Option.ne_none_iff_exists'.mp defined
      rw [given, Option.some_or, ← given]
      rfl
    · rfl

theorem get?_labels_addLabel (g : Graph) (name label l : String) :
    (g.addLabel name label).labels.get? l =
      if l = label then some (NameSet.insert (g.labeled label) (g.canonical name))
      else g.labels.get? l :=
  NameMap.get?_put _ _ _ _

theorem connect_eq_ok {caller callee : String} {kind : EdgeKind} :
    g.connect caller callee kind = .ok g' ↔ ∃ i, g.find? caller = some i ∧
      g.isExternalAt i = false ∧ (g.mention callee).2.join i (g.mention callee).1 kind = g' := by
  rw [connect]
  cases g.find? caller with
  | none => simp
  | some i => cases external : g.isExternalAt i <;> simp [external]

theorem mem_edges_join {i j : Nat} {kind : EdgeKind} {e : Edge} (h : e ∈ (g.join i j kind).edges) :
    e ∈ g.edges ∨ e.caller = i := by
  rcases g.join_cases i j kind with ⟨-, eq⟩ | ⟨k, old, -, -, -, ⟨-, eq⟩ | ⟨-, eq⟩⟩
  · rw [eq, Array.mem_push] at h
    rcases h with h | rfl
    · exact .inl h
    · exact .inr rfl
  · rw [eq] at h
    rcases Array.mem_or_eq_of_mem_setIfInBounds h with h | rfl
    · exact .inl h
    · exact .inr rfl
  · rw [eq] at h
    exact .inl h

theorem edges_mention (g : Graph) (name : String) : (g.mention name).2.edges = g.edges := by
  unfold mention
  split <;> rfl

theorem edges_define (g : Graph) (name : String) (d : Definition) :
    (g.define name d).2.edges = g.edges := by
  rw [define_eq]
  split <;> exact g.edges_mention name

theorem edges_join_congr {g' : Graph} (h : g'.edges = g.edges) (i j : Nat) (kind : EdgeKind) :
    (g'.join i j kind).edges = (g.join i j kind).edges := by
  unfold join
  rw [h]
  split
  · rfl
  · split
    · rfl
    · exact h

section Join

variable {i j a b : Nat} {kind : EdgeKind}

theorem mem_setIfInBounds_iff {α : Type} {xs : Array α} {k : Nat} (lt : k < xs.size) {x y : α} :
    y ∈ xs.setIfInBounds k x ↔ y = x ∨ ∃ m, m ≠ k ∧ xs[m]? = some y := by
  rw [Array.mem_iff_getElem?]
  constructor
  · rintro ⟨m, found⟩
    rw [Array.getElem?_setIfInBounds] at found
    split at found
    · cases found
      exact .inl rfl
    · rename_i other
      exact .inr ⟨m, Ne.symm other, found⟩
  · rintro (rfl | ⟨m, other, found⟩)
    · exact ⟨k, by simp [lt]⟩
    · exact ⟨m, by simp [Ne.symm other, found]⟩

theorem mem_edges_join_call : ⟨a, b, .call⟩ ∈ (g.join i j kind).edges ↔
    ⟨a, b, .call⟩ ∈ g.edges ∨ a = i ∧ b = j ∧ kind = .call := by
  rcases g.join_cases i j kind with ⟨-, eq⟩ | ⟨k, old, there, rfl, rfl, ⟨rfl, eq⟩ | ⟨rfl, eq⟩⟩
  · rw [eq, Array.mem_push]
    simp [eq_comm]
  · rw [eq, mem_setIfInBounds_iff (Array.getElem?_eq_some_iff.mp there).1]
    constructor
    · rintro (⟨⟨⟩⟩ | ⟨m, -, found⟩)
      · exact .inr ⟨rfl, rfl, rfl⟩
      · exact .inl (Array.mem_of_getElem? found)
    · rintro (h | ⟨rfl, rfl, -⟩)
      · obtain ⟨m, found⟩ := Array.mem_iff_getElem?.mp h
        by_cases same : m = k
        · rw [same, there] at found
          cases found
          exact .inl rfl
        · exact .inr ⟨m, same, found⟩
      · exact .inl rfl
  · rw [eq]
    simp

theorem exists_mem_edges_join : (∃ l, ⟨a, b, l⟩ ∈ (g.join i j kind).edges) ↔
    (∃ l, ⟨a, b, l⟩ ∈ g.edges) ∨ a = i ∧ b = j := by
  rcases g.join_cases i j kind with ⟨-, eq⟩ | ⟨k, old, there, rfl, rfl, ⟨rfl, eq⟩ | ⟨rfl, eq⟩⟩
  · rw [eq]
    simp [Array.mem_push, exists_or]
  · rw [eq]
    simp only [mem_setIfInBounds_iff (Array.getElem?_eq_some_iff.mp there).1]
    constructor
    · rintro ⟨l, ⟨⟨⟩⟩ | ⟨m, -, found⟩⟩
      · exact .inr ⟨rfl, rfl⟩
      · exact .inl ⟨l, Array.mem_of_getElem? found⟩
    · rintro (⟨l, h⟩ | ⟨rfl, rfl⟩)
      · obtain ⟨m, found⟩ := Array.mem_iff_getElem?.mp h
        by_cases same : m = k
        · rw [same, there] at found
          cases found
          exact ⟨.call, .inl rfl⟩
        · exact ⟨l, .inr ⟨m, same, found⟩⟩
      · exact ⟨.call, .inl rfl⟩
  · rw [eq]
    refine ⟨.inl, ?_⟩
    rintro (h | ⟨rfl, rfl⟩)
    · exact h
    · exact ⟨old.kind, Array.mem_of_getElem? there⟩

end Join

end CallAtlas.Graph
