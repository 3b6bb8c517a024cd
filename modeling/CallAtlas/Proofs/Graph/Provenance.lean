import CallAtlas.Proofs.Graph.Consistency
import Mathlib.Data.List.Induction
/-!
Where a graph has its parts from. A node carries the first definition of its name and stands where the name
was mentioned first; an edge is there if one with its ends was accepted, and it is a call if one of them
was. Main statement: `ofHistory_determined`.
-/
namespace CallAtlas.Graph

def Change.definitionOf (name : String) : Change → Option Definition
  | .add (.define n d) => if n = name then some d else none
  | _ => none

def definitionIn (history : List Change) (name : String) : Option Definition :=
  history.findSome? (·.definitionOf name)

/-- The names that a change mentions when a history came before it; a refused edge mentions nobody. -/
def Change.mentions (before : List Change) : Change → List String
  | .add (.mention name) => [name]
  | .add (.define name _) => [name]
  | .add (.edge caller callee _) =>
    if (definitionIn before caller).isSome then [caller, callee] else []
  | _ => []

def mentionsAfter (before : List Change) : List Change → List String
  | [] => []
  | change :: rest => change.mentions before ++ mentionsAfter (before ++ [change]) rest

def mentionsIn (history : List Change) : List String := mentionsAfter [] history

def nodesIn (history : List Change) : List Node :=
  (mentionsIn history).eraseDups.map fun name => ⟨name, definitionIn history name⟩

/-- An edge was added at a time when its caller was defined. -/
def JoinedIn (history : List Change) (caller callee : String) (kind : EdgeKind) : Prop :=
  ∃ before after, history = before ++ .add (.edge caller callee kind) :: after ∧
    (definitionIn before caller).isSome

def Joins (g : Graph) (caller callee : String) (kind : EdgeKind) : Prop :=
  ∃ i j, ⟨i, j, kind⟩ ∈ g.edges ∧ g.nameAt i = caller ∧ g.nameAt j = callee

variable {history : List Change} {change : Change}

theorem ofHistory_concat (history : List Change) (change : Change) :
    ofHistory (history ++ [change]) = (ofHistory history).apply change := by
  rw [ofHistory, List.foldl_append]
  rfl

theorem definitionIn_concat (history : List Change) (change : Change) (name : String) :
    definitionIn (history ++ [change]) name =
      (definitionIn history name).or (change.definitionOf name) := by
  rw [definitionIn, List.findSome?_append, List.findSome?_singleton]
  rfl

theorem mentionsAfter_concat (before history : List Change) (change : Change) :
    mentionsAfter before (history ++ [change]) =
      mentionsAfter before history ++ change.mentions (before ++ history) := by
  induction history generalizing before with
  | nil => simp [mentionsAfter]
  | cons first rest ih => simp [mentionsAfter, ih]

theorem mentionsIn_concat (history : List Change) (change : Change) :
    mentionsIn (history ++ [change]) = mentionsIn history ++ change.mentions history :=
  mentionsAfter_concat [] history change

theorem eraseDups_concat (names : List String) (name : String) :
    (names ++ [name]).eraseDups =
      if name ∈ names then names.eraseDups else names.eraseDups ++ [name] := by
  have once : [name].eraseDups = [name] := rfl
  rw [List.eraseDups_append, List.removeAll]
  split
  · rename_i known
    simp [known]
  · rename_i fresh
    simp [fresh, once]

theorem mem_mentionsIn {name : String} (h : (definitionIn history name).isSome) :
    name ∈ mentionsIn history := by
  induction history using List.reverseRecOn with
  | nil => cases h
  | append_singleton history change ih =>
    rw [definitionIn_concat, Option.isSome_or, Bool.or_eq_true] at h
    rw [mentionsIn_concat, List.mem_append]
    rcases h with h | h
    · exact .inl (ih h)
    · right
      unfold Change.definitionOf at h
      split at h
      · split at h
        · rename_i eq
          simp [Change.mentions, eq]
        · cases h
      · cases h

theorem joinedIn_concat {caller callee : String} {kind : EdgeKind} :
    JoinedIn (history ++ [change]) caller callee kind ↔ JoinedIn history caller callee kind ∨
      change = .add (.edge caller callee kind) ∧ (definitionIn history caller).isSome := by
  constructor
  · rintro ⟨before, after, eq, defined⟩
    rcases List.eq_nil_or_concat after with rfl | ⟨rest, last, rfl⟩
    · obtain ⟨rfl, last⟩ := List.append_inj' eq rfl
      exact .inr ⟨List.singleton_inj.mp last, defined⟩
    · rw [List.concat_eq_append, ← List.cons_append, ← List.append_assoc] at eq
      obtain ⟨rfl, -⟩ := List.append_inj' eq rfl
      exact .inl ⟨before, rest, rfl, defined⟩
  · rintro (⟨before, after, rfl, defined⟩ | ⟨rfl, defined⟩)
    · exact ⟨before, after ++ [change], by simp, defined⟩
    · exact ⟨history, [], rfl, defined⟩

theorem nodesIn_concat_of_steady (mentions : change.mentions history = [])
    (defines : ∀ name, change.definitionOf name = none) :
    nodesIn (history ++ [change]) = nodesIn history := by
  rw [nodesIn, mentionsIn_concat, mentions, List.append_nil]
  refine List.map_congr_left fun name _ => ?_
  rw [definitionIn_concat, defines, Option.or_none]

theorem nodesIn_concat_mention (history : List Change) (name : String) :
    nodesIn (history ++ [.add (.mention name)]) =
      if name ∈ mentionsIn history then nodesIn history else nodesIn history ++ [⟨name, none⟩] := by
  have same (other : String) :
      definitionIn (history ++ [.add (.mention name)]) other = definitionIn history other := by
    rw [definitionIn_concat]
    exact Option.or_none
  rw [nodesIn, mentionsIn_concat]
  simp only [same]
  show ((mentionsIn history ++ [name]).eraseDups).map _ = _
  rw [eraseDups_concat]
  split
  · rfl
  · rename_i fresh
    have undefined : definitionIn history name = none := by
      by_contra defined
      exact fresh (mem_mentionsIn (Option.isSome_iff_ne_none.mpr defined))
    rw [List.map_append, List.map_singleton, undefined]
    rfl

theorem nodesIn_concat_define (history : List Change) (name : String) (d : Definition) :
    nodesIn (history ++ [.add (.define name d)]) =
      (nodesIn (history ++ [.add (.mention name)])).map fun node =>
        if node.name = name then { node with definition := node.definition.or (some d) } else node := by
  rw [nodesIn, nodesIn, List.map_map, mentionsIn_concat, mentionsIn_concat]
  refine List.map_congr_left fun other _ => ?_
  rw [Function.comp_apply, definitionIn_concat, definitionIn_concat]
  by_cases same : name = other
  · simp [Change.definitionOf, same]
  · simp [Change.definitionOf, same, Ne.symm same]

/-- An edge that is accepted mentions nobody but its callee for the first time. -/
theorem nodesIn_concat_edge {caller : String} (defined : (definitionIn history caller).isSome)
    (callee : String) (kind : EdgeKind) :
    nodesIn (history ++ [.add (.edge caller callee kind)]) =
      nodesIn (history ++ [.add (.mention callee)]) := by
  have known := mem_mentionsIn defined
  have accepted : Change.mentions history (.add (.edge caller callee kind)) = [caller, callee] :=
    if_pos defined
  have mentions : (mentionsIn (history ++ [.add (.edge caller callee kind)])).eraseDups =
      (mentionsIn (history ++ [.add (.mention callee)])).eraseDups := by
    rw [mentionsIn_concat, mentionsIn_concat, accepted]
    show _ = (mentionsIn history ++ [callee]).eraseDups
    rw [List.append_cons, eraseDups_concat, eraseDups_concat, eraseDups_concat, if_pos known]
    by_cases fresh : callee ∈ mentionsIn history
    · simp [fresh]
    · have other : callee ≠ caller := fun eq => fresh (eq ▸ known)
      simp [fresh, other]
  rw [nodesIn, nodesIn, mentions]
  refine List.map_congr_left fun other _ => ?_
  rw [definitionIn_concat, definitionIn_concat]
  rfl

variable {g : Graph}

section NodesIn

variable (listed : g.nodes.toList = nodesIn history)

include listed

theorem names_eq_of_nodesIn : g.nodes.toList.map Node.name = (mentionsIn history).eraseDups := by
  rw [listed, nodesIn, List.map_map]
  exact List.map_id _

theorem WellFormed.isSome_definitionIn (h : g.WellFormed) {name : String} :
    (definitionIn history name).isSome ↔ ∃ i, g.find? name = some i ∧ g.isExternalAt i = false := by
  constructor
  · intro defined
    have member : ⟨name, definitionIn history name⟩ ∈ g.nodes.toList := by
      rw [listed]
      exact List.mem_map.mpr ⟨name, List.mem_eraseDups.mpr (mem_mentionsIn defined), rfl⟩
    obtain ⟨i, here⟩ := List.mem_iff_getElem?.mp member
    rw [Array.getElem?_toList] at here
    refine ⟨i, h.find?_of_getElem? here, ?_⟩
    rw [isExternalAt_eq here, Node.isExternal, Option.isNone_eq_false_iff]
    exact defined
  · rintro ⟨i, found, defined⟩
    obtain ⟨node, here, rfl⟩ := getElem?_of_find? found
    rw [isExternalAt_eq here, Node.isExternal, Option.isNone_eq_false_iff] at defined
    have member : node ∈ nodesIn history := listed ▸ Array.mem_toList_iff.mpr (Array.mem_of_getElem? here)
    obtain ⟨name, -, rfl⟩ := List.mem_map.mp member
    exact defined

theorem nodes_mention_eq (name : String) :
    (g.mention name).2.nodes.toList = nodesIn (history ++ [.add (.mention name)]) := by
  rw [nodes_mention, names_eq_of_nodesIn listed, listed, nodesIn_concat_mention]
  simp only [List.mem_eraseDups]

theorem WellFormed.exists_connect (h : g.WellFormed) {caller callee : String} {kind : EdgeKind} :
    (∃ g', g.connect caller callee kind = .ok g') ↔ (definitionIn history caller).isSome := by
  rw [h.isSome_definitionIn listed]
  constructor
  · rintro ⟨g', eq⟩
    obtain ⟨i, found, defined, -⟩ := connect_eq_ok.mp eq
    exact ⟨i, found, defined⟩
  · rintro ⟨i, found, defined⟩
    exact ⟨_, connect_eq_ok.mpr ⟨i, found, defined, rfl⟩⟩

end NodesIn

theorem mentions_of_not_add (h : ∀ entry, change ≠ .add entry) : change.mentions history = [] := by
  cases change with
  | add entry => exact absurd rfl (h entry)
  | _ => rfl

theorem definitionOf_of_not_add (h : ∀ entry, change ≠ .add entry) (name : String) :
    change.definitionOf name = none := by
  cases change with
  | add entry => exact absurd rfl (h entry)
  | _ => rfl

theorem built_ofHistory (history : List Change) : (ofHistory history).Built := ⟨history, rfl⟩

theorem nodes_ofHistory (history : List Change) :
    (ofHistory history).nodes.toList = nodesIn history := by
  -- from the end of the history: what is before a change decides whether it is accepted
  induction history using List.reverseRecOn with
  | nil => rfl
  | append_singleton history change ih =>
    have wf := (built_ofHistory history).wellFormed
    rw [ofHistory_concat]
    rcases (ofHistory history).apply_cases change with
      ⟨entry, rfl, added⟩ | ⟨entry, e, rfl, refused, same⟩ | ⟨other, _, _, same, -⟩
    · cases entry with
      | mention name => exact nodes_mention_eq ih name
      | define name d =>
        rw [nodesIn_concat_define, ← nodes_mention_eq ih]
        exact wf.nodes_define name d
      | label l name =>
        rw [nodesIn_concat_of_steady rfl fun _ => rfl]
        exact ih
      | edge caller callee kind =>
        have defined := (wf.exists_connect ih).mp ⟨_, added⟩
        obtain ⟨i, -, -, eq⟩ := connect_eq_ok.mp added
        rw [nodesIn_concat_edge defined, ← nodes_mention_eq ih, ← eq, join_eq]
    · cases entry with
      | mention | define | label => cases refused
      | edge caller callee kind =>
        have undefined : ¬ (definitionIn history caller).isSome := by
          intro defined
          obtain ⟨g', accepted⟩ := (wf.exists_connect ih).mpr defined
          cases refused.symm.trans accepted
        have mentions : Change.mentions history (.add (.edge caller callee kind)) = [] :=
          if_neg undefined
        rw [same, nodesIn_concat_of_steady mentions fun _ => rfl]
        exact ih
    · rw [same, nodesIn_concat_of_steady (mentions_of_not_add other) (definitionOf_of_not_add other)]
      exact ih

theorem names_ofHistory (history : List Change) :
    (ofHistory history).nodes.toList.map Node.name = (mentionsIn history).eraseDups :=
  names_eq_of_nodesIn (nodes_ofHistory history)

theorem nameAt_concat {i : Nat} (lt : i < (ofHistory history).size) :
    (ofHistory (history ++ [change])).nameAt i = (ofHistory history).nameAt i := by
  have listed (g : Graph) : g.nameAt i = ((g.nodes.toList.map Node.name)[i]?).getD "" := by
    rw [List.getElem?_map, Array.getElem?_toList]
    rfl
  have inside : i < (mentionsIn history).eraseDups.length := by
    rw [← names_ofHistory, List.length_map, Array.length_toList]
    exact lt
  rw [listed, listed, names_ofHistory, names_ofHistory, mentionsIn_concat, List.eraseDups_append,
    List.getElem?_append_left inside]

theorem edges_concat (history : List Change) (change : Change) :
    ((ofHistory (history ++ [change])).edges = (ofHistory history).edges ∧
      ∀ caller callee kind, change = .add (.edge caller callee kind) →
        (definitionIn history caller).isSome = false) ∨
    ∃ caller callee kind i j, change = .add (.edge caller callee kind) ∧
      (definitionIn history caller).isSome ∧
      (ofHistory (history ++ [change])).edges = ((ofHistory history).join i j kind).edges ∧
      (ofHistory (history ++ [change])).nameAt i = caller ∧
      (ofHistory (history ++ [change])).nameAt j = callee := by
  have wf := (built_ofHistory history).wellFormed
  rw [ofHistory_concat]
  rcases (ofHistory history).apply_cases change with
    ⟨entry, rfl, added⟩ | ⟨entry, e, rfl, refused, same⟩ | ⟨other, _, _, same, -⟩
  · cases entry with
    | mention name => exact .inl ⟨edges_mention _ name, nofun⟩
    | define name d => exact .inl ⟨edges_define _ name d, nofun⟩
    | label l name => exact .inl ⟨rfl, nofun⟩
    | edge caller callee kind =>
      have defined := (wf.exists_connect (nodes_ofHistory history)).mp ⟨_, added⟩
      obtain ⟨i, found, -, eq⟩ := connect_eq_ok.mp added
      obtain ⟨node, here, named⟩ := (ofHistory history).getElem?_mention callee
      refine .inr ⟨caller, callee, kind, i, ((ofHistory history).mention callee).1, rfl, defined,
        ?_, ?_, ?_⟩
      · rw [← eq]
        exact edges_join_congr (edges_mention _ callee) i _ kind
      · obtain ⟨node, here, rfl⟩ := getElem?_of_find? found
        rw [← ofHistory_concat, nameAt_concat (Array.getElem?_eq_some_iff.mp here).1, nameAt, here]
        rfl
      · rw [← eq, join_eq, nameAt, here, ← named]
        rfl
  · refine .inl ⟨by rw [same], fun caller callee kind edge => ?_⟩
    cases edge
    rw [Bool.eq_false_iff]
    intro defined
    obtain ⟨g', accepted⟩ := (wf.exists_connect (nodes_ofHistory history)).mpr defined
    cases refused.symm.trans accepted
  · exact .inl ⟨by rw [same], fun caller callee kind eq => absurd eq (other _)⟩

theorem nameAt_concat_of_mem_edges (change : Change) {e : Edge} (h : e ∈ (ofHistory history).edges) :
    (ofHistory (history ++ [change])).nameAt e.caller = (ofHistory history).nameAt e.caller ∧
      (ofHistory (history ++ [change])).nameAt e.callee = (ofHistory history).nameAt e.callee := by
  have lt := (built_ofHistory history).wellFormed.edges_lt e h
  exact ⟨nameAt_concat lt.1, nameAt_concat lt.2⟩

section Joins

variable {caller callee : String}

theorem joins_concat_of_edges
    (same : (ofHistory (history ++ [change])).edges = (ofHistory history).edges) (kind : EdgeKind) :
    (ofHistory (history ++ [change])).Joins caller callee kind ↔
      (ofHistory history).Joins caller callee kind := by
  rw [Joins, Joins, same]
  refine exists_congr fun i => exists_congr fun j => and_congr_right fun h => ?_
  obtain ⟨first, second⟩ := nameAt_concat_of_mem_edges change h
  rw [first, second]

theorem joins_call_concat : (ofHistory (history ++ [change])).Joins caller callee .call ↔
    (ofHistory history).Joins caller callee .call ∨
      change = .add (.edge caller callee .call) ∧ (definitionIn history caller).isSome := by
  rcases edges_concat history change with
    ⟨same, refused⟩ | ⟨caller', callee', kind, i, j, rfl, defined, joined, first, second⟩
  · rw [joins_concat_of_edges same, iff_self_or]
    rintro ⟨edge, defined⟩
    rw [refused _ _ _ edge] at defined
    cases defined
  · constructor
    · rintro ⟨a, b, h, rfl, rfl⟩
      rw [joined, mem_edges_join_call] at h
      rcases h with h | ⟨rfl, rfl, rfl⟩
      · obtain ⟨start, stop⟩ := nameAt_concat_of_mem_edges _ h
        exact .inl ⟨a, b, h, start.symm, stop.symm⟩
      · rw [first, second]
        exact .inr ⟨rfl, defined⟩
    · rintro (⟨a, b, h, rfl, rfl⟩ | ⟨⟨⟩, -⟩)
      · obtain ⟨start, stop⟩ := nameAt_concat_of_mem_edges _ h
        exact ⟨a, b, joined ▸ mem_edges_join_call.mpr (.inl h), start, stop⟩
      · exact ⟨i, j, joined ▸ mem_edges_join_call.mpr (.inr ⟨rfl, rfl, rfl⟩), first, second⟩

theorem exists_joins_concat : (∃ kind, (ofHistory (history ++ [change])).Joins caller callee kind) ↔
    (∃ kind, (ofHistory history).Joins caller callee kind) ∨
      ∃ kind, change = .add (.edge caller callee kind) ∧ (definitionIn history caller).isSome := by
  rcases edges_concat history change with
    ⟨same, refused⟩ | ⟨caller', callee', kind, i, j, rfl, defined, joined, first, second⟩
  · simp only [joins_concat_of_edges same]
    rw [iff_self_or]
    rintro ⟨kind, edge, defined⟩
    rw [refused _ _ _ edge] at defined
    cases defined
  · constructor
    · rintro ⟨k, a, b, h, rfl, rfl⟩
      rw [joined] at h
      rcases exists_mem_edges_join.mp ⟨k, h⟩ with ⟨l, h⟩ | ⟨rfl, rfl⟩
      · obtain ⟨start, stop⟩ := nameAt_concat_of_mem_edges _ h
        exact .inl ⟨l, a, b, h, start.symm, stop.symm⟩
      · rw [first, second]
        exact .inr ⟨kind, rfl, defined⟩
    · rintro (⟨k, a, b, h, rfl, rfl⟩ | ⟨k, ⟨⟩, -⟩)
      · obtain ⟨start, stop⟩ := nameAt_concat_of_mem_edges _ h
        obtain ⟨l, there⟩ := exists_mem_edges_join.mpr (.inl ⟨k, h⟩)
        exact ⟨l, a, b, joined ▸ there, start, stop⟩
      · obtain ⟨l, there⟩ := exists_mem_edges_join.mpr (.inr ⟨rfl, rfl⟩)
        exact ⟨l, i, j, joined ▸ there, first, second⟩

theorem joins_call (history : List Change) :
    (ofHistory history).Joins caller callee .call ↔ JoinedIn history caller callee .call := by
  induction history using List.reverseRecOn with
  | nil =>
    constructor
    · rintro ⟨i, j, h, -⟩
      cases Array.not_mem_empty _ h
    · rintro ⟨before, after, eq, -⟩
      simp at eq
  | append_singleton history change ih => rw [joins_call_concat, joinedIn_concat, ih]

theorem exists_joins (history : List Change) :
    (∃ kind, (ofHistory history).Joins caller callee kind) ↔
      ∃ kind, JoinedIn history caller callee kind := by
  induction history using List.reverseRecOn with
  | nil =>
    constructor
    · rintro ⟨kind, i, j, h, -⟩
      cases Array.not_mem_empty _ h
    · rintro ⟨kind, before, after, eq, -⟩
      simp at eq
  | append_singleton history change ih =>
    rw [exists_joins_concat, ih, ← exists_or]
    simp only [joinedIn_concat]

theorem WellFormed.joins_unique (h : g.WellFormed) {kind kind' : EdgeKind}
    (one : g.Joins caller callee kind) (two : g.Joins caller callee kind') : kind = kind' := by
  obtain ⟨i, j, here, rfl, rfl⟩ := one
  obtain ⟨i', j', there, first, second⟩ := two
  have lt := h.edges_lt _ here
  have lt' := h.edges_lt _ there
  have start : i' = i := h.nameAt_inj lt'.1 lt.1 first
  have stop : j' = j := h.nameAt_inj lt'.2 lt.2 second
  subst start stop
  have same := List.inj_on_of_nodup_map h.edges_nodup (Array.mem_toList_iff.mpr here)
    (Array.mem_toList_iff.mpr there) rfl
  cases same
  rfl

theorem joins_ref (history : List Change) :
    (ofHistory history).Joins caller callee .ref ↔
      JoinedIn history caller callee .ref ∧ ¬ JoinedIn history caller callee .call := by
  have wf := (built_ofHistory history).wellFormed
  rw [← joins_call]
  constructor
  · intro there
    have single : ¬ (ofHistory history).Joins caller callee .call := by
      intro call
      cases wf.joins_unique there call
    refine ⟨?_, single⟩
    obtain ⟨kind, joined⟩ := (exists_joins history).mp ⟨.ref, there⟩
    cases kind with
    | call => exact absurd ((joins_call history).mpr joined) single
    | ref => exact joined
  · rintro ⟨joined, single⟩
    obtain ⟨kind, there⟩ := (exists_joins history).mpr ⟨.ref, joined⟩
    cases kind with
    | call => exact absurd there single
    | ref => exact there

end Joins

/-- The history determines the graph: its nodes are the names that were mentioned, in that order, each with
its first definition if it has one; an edge is a call if an accepted one with its ends was a call, and a
reference if accepted ones were references alone; and an edge is accepted if its caller was defined before. -/
theorem ofHistory_determined (history : List Change) :
    (ofHistory history).nodes.toList =
        (mentionsIn history).eraseDups.map (fun name => ⟨name, definitionIn history name⟩) ∧
      (∀ caller callee, (ofHistory history).Joins caller callee .call ↔
        JoinedIn history caller callee .call) ∧
      (∀ caller callee, (ofHistory history).Joins caller callee .ref ↔
        JoinedIn history caller callee .ref ∧ ¬ JoinedIn history caller callee .call) ∧
      ∀ before caller callee kind,
        (∃ g', (ofHistory before).connect caller callee kind = .ok g') ↔
          (definitionIn before caller).isSome :=
  ⟨nodes_ofHistory history, fun _ _ => joins_call history, fun _ _ => joins_ref history,
    fun before _ _ _ => (built_ofHistory before).wellFormed.exists_connect (nodes_ofHistory before)⟩

end CallAtlas.Graph
