import CallAtlas.Graph.Query
import CallAtlas.Proofs.Graph.Labels
import Mathlib.Data.List.Find
/-!
Look-ups by table instead of by search. An indexed graph carries tables from canonical names, usernames
and files to positions; its additions read them and keep them up to date entry by entry. Main statement:
`sound_ofHistory`, after every history the tables answer as the searches in the graph do, names and nodes
correspond one to one, and every node is entered where it belongs and nowhere else.
-/
namespace CallAtlas

namespace Graph

variable {g g' : Graph}

def definedIn (g : Graph) (file : String) : List Nat :=
  g.definitions.reverse.filter fun i => g.fileAt i == some file

theorem Consistent.mem_definedIn (h : g.Consistent) {file : String} {i : Nat} :
    i ∈ g.definedIn file ↔ g.fileAt i = some file := by
  rw [definedIn, List.mem_filter, List.mem_reverse, beq_iff_eq, h.mem_definitions]
  refine and_iff_right_of_imp fun placed => ?_
  obtain ⟨node, here, own⟩ := Option.bind_eq_some_iff.mp placed
  obtain ⟨d, defined, -⟩ := Option.bind_eq_some_iff.mp own
  refine ⟨(Array.getElem?_eq_some_iff.mp here).1, ?_⟩
  rw [isExternalAt_eq here, Node.isExternal, defined]
  rfl

theorem Consistent.count_definedIn (h : g.Consistent) (nodup : g.definitions.Nodup) (file : String)
    (i : Nat) : (g.definedIn file).count i = if g.fileAt i = some file then 1 else 0 := by
  have once : (g.definedIn file).Nodup := (List.nodup_reverse.mpr nodup).filter _
  split
  · rename_i placed
    exact List.count_eq_one_of_mem once (h.mem_definedIn.mpr placed)
  · rename_i elsewhere
    exact List.count_eq_zero_of_not_mem fun listed => elsewhere (h.mem_definedIn.mp listed)

theorem findUsername?_congr (definitions : g'.definitions = g.definitions)
    (nodes : ∀ i ∈ g.definitions, g'.nodes[i]? = g.nodes[i]?) (username : String) :
    g'.findUsername? username = g.findUsername? username := by
  rw [findUsername?, findUsername?, definitions]
  exact List.find?_congr fun i hi => by rw [nodes i hi]

theorem definedIn_congr (definitions : g'.definitions = g.definitions)
    (nodes : ∀ i ∈ g.definitions, g'.nodes[i]? = g.nodes[i]?) (file : String) :
    g'.definedIn file = g.definedIn file := by
  rw [definedIn, definedIn, definitions]
  exact List.filter_congr fun i hi => by rw [fileAt, fileAt, nodes i (List.mem_reverse.mp hi)]

theorem find?_push (node : Node) (name : String) :
    Graph.find? { g with nodes := g.nodes.push node } name =
      (g.find? name).or (if node.name = name then some g.size else none) := by
  rw [find?, Array.findIdx?_push]
  simp [find?, size]

section Push

variable (listed : ∀ i ∈ g.definitions, i < g.size) (node : Node)

include listed

theorem getElem?_push_of_mem {i : Nat} (h : i ∈ g.definitions) :
    (g.nodes.push node)[i]? = g.nodes[i]? := by
  have other : i ≠ g.nodes.size := Nat.ne_of_lt (listed i h)
  rw [Array.getElem?_push, if_neg other]

theorem findUsername?_push (username : String) :
    Graph.findUsername? { g with nodes := g.nodes.push node } username =
      g.findUsername? username :=
  @findUsername?_congr g { g with nodes := g.nodes.push node } rfl
    (fun _ hi => getElem?_push_of_mem listed node hi) username

theorem definedIn_push (file : String) :
    Graph.definedIn { g with nodes := g.nodes.push node } file = g.definedIn file :=
  @definedIn_congr g { g with nodes := g.nodes.push node } rfl
    (fun _ hi => getElem?_push_of_mem listed node hi) file

end Push

theorem find?_settle {i : Nat} {node : Node} (here : g.nodes[i]? = some node) (d : Definition)
    (name : String) : (g.settle i node.name d).find? name = g.find? name := by
  have names : (g.settle i node.name d).nodes.toList.map Node.name = g.nodes.toList.map Node.name :=
    map_setIfInBounds_of_eq here rfl
  rw [find?_eq_findIdx?, find?_eq_findIdx?, names]

section Settle

variable {i : Nat} (lt : i < g.size) (unlisted : i ∉ g.definitions) (name : String) (d : Definition)

include unlisted in
theorem getElem?_settle_of_mem {j : Nat} (h : j ∈ g.definitions) :
    (g.settle i name d).nodes[j]? = g.nodes[j]? :=
  getElem?_settle_ne (ne_of_mem_of_not_mem h unlisted) name d

include lt unlisted

theorem findUsername?_settle (username : String) : (g.settle i name d).findUsername? username =
    if d.username = some username then some i else g.findUsername? username := by
  have rest : g.definitions.find? (fun j =>
      ((g.settle i name d).nodes[j]?.bind Node.username) == some username) =
      g.findUsername? username :=
    List.find?_congr fun j hj => by rw [getElem?_settle_of_mem unlisted name d hj]
  show List.find? _ (i :: g.definitions) = _
  rw [List.find?_cons, rest, getElem?_settle lt]
  by_cases taken : d.username = some username
  · simp [Node.username, taken]
  · simp [Node.username, taken, beq_false_of_ne taken]

theorem definedIn_settle (file : String) : (g.settle i name d).definedIn file =
    g.definedIn file ++ if d.file = some file then [i] else [] := by
  have rest : g.definitions.reverse.filter (fun j => (g.settle i name d).fileAt j == some file) =
      g.definedIn file :=
    List.filter_congr fun j hj => by
      rw [fileAt, fileAt, getElem?_settle_of_mem unlisted name d (List.mem_reverse.mp hj)]
  have here : (g.settle i name d).fileAt i = d.file := by
    rw [fileAt, getElem?_settle lt]
    rfl
  show List.filter _ (i :: g.definitions).reverse = _
  rw [List.reverse_cons, List.filter_append, rest, List.filter_singleton, here]
  by_cases placed : d.file = some file
  · simp [placed]
  · simp [placed, beq_false_of_ne placed]

end Settle

end Graph

/-- A graph with tables that answer look-ups. -/
structure Indexed where
  graph : Graph := {}
  /-- the position of each canonical name -/
  names : NameMap Nat := ∅
  /-- the position that each username stands for -/
  usernames : NameMap Nat := ∅
  /-- the positions that each file defines, in the order of their definitions -/
  files : NameMap (List Nat) := ∅

namespace Indexed

open CallAtlas.Graph

def mention (x : Indexed) (name : String) : Nat × Indexed :=
  match x.names.get? name with
  | some i => (i, x)
  | none => (x.graph.size, { x with
      graph := { x.graph with nodes := x.graph.nodes.push { name } }
      names := x.names.put name x.graph.size })

def enter (x : Indexed) (i : Nat) (d : Definition) : Indexed :=
  { x with
    usernames := match d.username with
      | none => x.usernames
      | some username => x.usernames.put username i
    files := match d.file with
      | none => x.files
      | some file => x.files.update file fun is => is.getD [] ++ [i] }

def define (x : Indexed) (name : String) (d : Definition) : Nat × Indexed :=
  let (i, x) := x.mention name
  if x.graph.isExternalAt i then (i, { x.enter i d with graph := x.graph.settle i name d })
  else (i, x)

def connect (x : Indexed) (caller callee : String) (kind : EdgeKind) : Except EdgeError Indexed :=
  match x.names.get? caller with
  | none => .error (.unknownCaller caller)
  | some i =>
    if x.graph.isExternalAt i then .error (.externalCaller caller)
    else
      let (j, x) := x.mention callee
      .ok { x with graph := x.graph.join i j kind }

def add (x : Indexed) : Entry → Except EdgeError Indexed
  | .mention name => .ok (x.mention name).2
  | .define name d => .ok (x.define name d).2
  | .label l name => .ok { x with graph := x.graph.addLabel name l }
  | .edge caller callee kind => x.connect caller callee kind

def apply (x : Indexed) : Change → Indexed
  | .add entry =>
    match x.add entry with
    | .ok x' => x'
    | .error _ => x
  | change => { x with graph := x.graph.apply change }

def ofHistory (history : List Change) : Indexed := history.foldl apply {}

/-- The tables answer as the searches in the graph do. -/
structure Faithful (x : Indexed) : Prop where
  names : ∀ name, x.names.get? name = x.graph.find? name
  usernames : ∀ username, x.usernames.get? username = x.graph.findUsername? username
  files : ∀ file, (x.files.get? file).getD [] = x.graph.definedIn file
  /-- no file is entered without a node -/
  inhabited : ∀ file, x.files.get? file ≠ some []

variable {x : Indexed}

namespace Faithful

theorem empty : Faithful {} :=
  ⟨fun _ => by simp [find?], fun _ => rfl, fun _ => rfl, fun _ => nofun⟩

theorem of_eq (f : x.Faithful) {g : Graph} (nodes : g.nodes = x.graph.nodes)
    (definitions : g.definitions = x.graph.definitions) : Faithful { x with graph := g } := by
  have same : ∀ i ∈ x.graph.definitions, g.nodes[i]? = x.graph.nodes[i]? := by
    intro i _
    rw [nodes]
  refine ⟨fun name => ?_, fun username => ?_, fun file => ?_, f.inhabited⟩
  · rw [f.names, find?_eq_findIdx?, find?_eq_findIdx?, nodes]
  · rw [f.usernames, findUsername?_congr definitions same]
  · rw [f.files, definedIn_congr definitions same]

theorem push (f : x.Faithful) (listed : ∀ i ∈ x.graph.definitions, i < x.graph.size) {name : String}
    (missing : x.graph.find? name = none) : Faithful { x with
      graph := { x.graph with nodes := x.graph.nodes.push { name } }
      names := x.names.put name x.graph.size } := by
  refine ⟨fun other => ?_, fun username => ?_, fun file => ?_, f.inhabited⟩
  · rw [NameMap.get?_put, find?_push, f.names]
    by_cases here : other = name
    · simp [here, missing]
    · simp [here, Ne.symm here]
  · exact (f.usernames username).trans (findUsername?_push listed _ username).symm
  · exact (f.files file).trans (definedIn_push listed _ file).symm

theorem settle (f : x.Faithful) {i : Nat} {node : Node} (here : x.graph.nodes[i]? = some node)
    (unlisted : i ∉ x.graph.definitions) (d : Definition) :
    Faithful { x.enter i d with graph := x.graph.settle i node.name d } := by
  have lt : i < x.graph.size := (Array.getElem?_eq_some_iff.mp here).1
  refine ⟨fun name => ?_, fun username => ?_, fun file => ?_, fun file => ?_⟩
  · exact (f.names name).trans (find?_settle here d name).symm
  · rw [findUsername?_settle lt unlisted, ← f.usernames]
    unfold enter
    cases d.username with
    | none => rfl
    | some taken =>
      dsimp only
      rw [NameMap.get?_put]
      simp [eq_comm]
  · rw [definedIn_settle lt unlisted, ← f.files]
    unfold enter
    cases d.file with
    | none => simp
    | some placed =>
      dsimp only
      rw [NameMap.update, NameMap.get?_put]
      by_cases eq : file = placed
      · simp [eq]
      · simp [eq, Ne.symm eq]
  · unfold enter
    cases d.file with
    | none => exact f.inhabited file
    | some placed =>
      dsimp only
      rw [NameMap.update, NameMap.get?_put]
      split
      · simp
      · exact f.inhabited file

end Faithful

/-- A step done with tables leads to the position and the graph that it leads to without them. -/
structure Mirrors (r : Nat × Indexed) (s : Nat × Graph) : Prop where
  position : r.1 = s.1
  graph : r.2.graph = s.2
  faithful : r.2.Faithful

theorem mirrors_mention (f : x.Faithful) (h : x.graph.Consistent) (name : String) :
    Mirrors (x.mention name) (x.graph.mention name) := by
  cases found : x.graph.find? name with
  | some i =>
    rw [mention, f.names, found, mention_of_find? found]
    exact ⟨rfl, rfl, f⟩
  | none =>
    rw [mention, f.names, found, mention_fresh found]
    exact ⟨rfl, rfl, f.push (fun i hi => ((h.mem_definitions i).mp hi).1) found⟩

theorem mirrors_define (f : x.Faithful) (h : x.graph.Consistent) (name : String) (d : Definition) :
    Mirrors (x.define name d) (x.graph.define name d) := by
  obtain ⟨position, graph, faithful⟩ := mirrors_mention f h name
  obtain ⟨node, here, rfl⟩ := x.graph.getElem?_mention name
  have consistent := h.mention node.name
  rw [define_eq, define]
  dsimp only
  rw [position, graph]
  cases external : (x.graph.mention node.name).2.isExternalAt (x.graph.mention node.name).1 with
  | false =>
    rw [if_neg Bool.false_ne_true, if_neg Bool.false_ne_true]
    exact ⟨rfl, graph, faithful⟩
  | true =>
    rw [if_pos rfl, if_pos rfl]
    rw [← graph] at here external consistent
    refine ⟨rfl, rfl, ?_⟩
    rw [← graph]
    refine faithful.settle here (fun listed => ?_) d
    have defined := ((consistent.mem_definitions _).mp listed).2
    rw [external] at defined
    cases defined

theorem connect_spec (f : x.Faithful) (h : x.graph.Consistent) (caller callee : String)
    (kind : EdgeKind) :
    (x.connect caller callee kind).map Indexed.graph = x.graph.connect caller callee kind ∧
      ∀ x', x.connect caller callee kind = .ok x' → x'.Faithful := by
  obtain ⟨position, graph, faithful⟩ := mirrors_mention f h callee
  rw [connect, f.names, Graph.connect]
  cases x.graph.find? caller with
  | none =>
    refine ⟨rfl, ?_⟩
    rintro _ ⟨⟩
  | some i =>
    dsimp only
    cases x.graph.isExternalAt i with
    | true =>
      refine ⟨rfl, ?_⟩
      rintro _ ⟨⟩
    | false =>
      rw [if_neg Bool.false_ne_true, if_neg Bool.false_ne_true, graph, position]
      refine ⟨rfl, ?_⟩
      rintro _ ⟨⟩
      refine faithful.of_eq ?_ ?_
      · rw [graph, join_eq]
      · rw [graph, join_eq]

theorem add_spec (f : x.Faithful) (h : x.graph.Consistent) (entry : Entry) :
    (x.add entry).map Indexed.graph = x.graph.add entry ∧
      ∀ x', x.add entry = .ok x' → x'.Faithful := by
  cases entry with
  | mention name =>
    have mirrors := mirrors_mention f h name
    refine ⟨congrArg Except.ok mirrors.graph, ?_⟩
    rintro _ ⟨⟩
    exact mirrors.faithful
  | define name d =>
    have mirrors := mirrors_define f h name d
    refine ⟨congrArg Except.ok mirrors.graph, ?_⟩
    rintro _ ⟨⟩
    exact mirrors.faithful
  | label l name =>
    refine ⟨rfl, ?_⟩
    rintro _ ⟨⟩
    exact f.of_eq rfl rfl
  | edge caller callee kind => exact connect_spec f h caller callee kind

theorem apply_of_not_add {change : Change} (h : ∀ entry, change ≠ .add entry) :
    x.apply change = { x with graph := x.graph.apply change } := by
  cases change with
  | add entry => exact absurd rfl (h entry)
  | _ => rfl

theorem apply_spec (f : x.Faithful) (h : x.graph.Consistent) (change : Change) :
    (x.apply change).graph = x.graph.apply change ∧ (x.apply change).Faithful := by
  by_cases other : ∀ entry, change ≠ .add entry
  · obtain ⟨_, _, same, -⟩ := x.graph.apply_of_not_add other
    rw [apply_of_not_add other]
    refine ⟨rfl, f.of_eq ?_ ?_⟩
    · rw [same]
    · rw [same]
  · obtain ⟨entry, rfl⟩ := not_forall_not.mp other
    obtain ⟨graph, faithful⟩ := add_spec f h entry
    unfold apply Graph.apply
    dsimp only
    rw [← graph]
    cases added : x.add entry with
    | error e => exact ⟨rfl, f⟩
    | ok x' => exact ⟨rfl, faithful x' added⟩

/-- A history done with tables makes the same graph, and the tables answer as its searches do. -/
theorem ofHistory_spec (history : List Change) :
    (ofHistory history).graph = Graph.ofHistory history ∧ (ofHistory history).Faithful := by
  have run : ∀ x : Indexed, x.Faithful → x.graph.Consistent →
      (history.foldl apply x).graph = history.foldl Graph.apply x.graph ∧
        (history.foldl apply x).Faithful := by
    induction history with
    | nil => exact fun x f _ => ⟨rfl, f⟩
    | cons change history ih =>
      intro x f h
      obtain ⟨graph, faithful⟩ := apply_spec f h change
      rw [List.foldl_cons, List.foldl_cons, ← graph]
      exact ih _ faithful (graph ▸ h.apply change)
  exact run {} .empty .empty

/-- What the tables and the graph say of each other, and the graph of itself. -/
structure Sound (x : Indexed) : Prop where
  /-- canonical names and nodes correspond one to one -/
  names : ∀ name i, x.names.get? name = some i ↔
    ∃ node, x.graph.nodes[i]? = some node ∧ node.name = name
  /-- at most one edge leads from a node to another -/
  edges_nodup : (x.graph.edges.toList.map fun e => (e.caller, e.callee)).Nodup
  edges_between : ∀ e ∈ x.graph.edges, ∃ caller callee, x.graph.nodes[e.caller]? = some caller ∧
    caller.isExternal = false ∧ x.graph.nodes[e.callee]? = some callee
  /-- this holds of every node by the type of its data -/
  externals_bare : ∀ node ∈ x.graph.nodes, node.isExternal = true →
    node.username = none ∧ node.file = none ∧ node.line = none
  /-- a node is entered once under its file and under no other -/
  files_count : ∀ file i, ((x.files.get? file).getD []).count i =
    if x.graph.fileAt i = some file then 1 else 0
  files_inhabited : ∀ file, file ∈ x.files ↔ ∃ i, x.graph.fileAt i = some file
  usernames_sound : ∀ username i, x.usernames.get? username = some i →
    ∃ node, x.graph.nodes[i]? = some node ∧ node.isExternal = false ∧ node.username = some username
  usernames_complete : ∀ node ∈ x.graph.nodes, ∀ username, node.username = some username →
    username ∈ x.usernames

theorem Faithful.isSome_files (f : x.Faithful) (file : String) :
    (x.files.get? file).isSome ↔ x.graph.definedIn file ≠ [] := by
  rw [← f.files]
  cases entered : x.files.get? file with
  | none => simp
  | some is =>
    have inhabited : is ≠ [] := fun eq => f.inhabited file (eq ▸ entered)
    simp [inhabited]

theorem Faithful.sound (f : x.Faithful) (built : x.graph.Built) : x.Sound := by
  have wf := built.wellFormed
  have consistent := built.consistent
  refine ⟨fun name i => ?_, wf.edges_nodup, fun e he => ?_, fun node _ external => ?_,
    fun file i => ?_, fun file => ?_, fun username i found => ?_, fun node hn username own => ?_⟩
  · rw [f.names]
    refine ⟨getElem?_of_find?, ?_⟩
    rintro ⟨node, here, rfl⟩
    exact wf.find?_of_getElem? here
  · obtain ⟨lt, defined⟩ := (consistent.mem_definitions _).mp (consistent.callers_defined e he)
    have caller := Array.getElem?_eq_getElem lt
    rw [isExternalAt_eq caller] at defined
    exact ⟨_, _, caller, defined, Array.getElem?_eq_getElem (wf.edges_lt e he).2⟩
  · have undefined : node.definition = none := Option.isNone_iff_eq_none.mp external
    simp [Node.username, Node.file, Node.line, undefined]
  · rw [f.files, consistent.count_definedIn built.nodup_definitions]
  · rw [NameMap.mem_iff_isSome_get?, f.isSome_files, ne_eq, List.eq_nil_iff_forall_not_mem]
    simp only [consistent.mem_definedIn, not_forall, not_not]
  · rw [f.usernames] at found
    obtain ⟨node, here, own⟩ := getElem?_of_findUsername? found
    exact ⟨node, here, Node.isExternal_of_username own, own⟩
  · rw [NameMap.mem_iff_isSome_get?, f.usernames]
    exact isSome_findUsername? consistent.mem_definitions hn own

/-- Whatever the history, refused additions included, the tables answer as the searches in the graph that
it makes do, and tables and graph are sound. -/
theorem sound_ofHistory (history : List Change) :
    (ofHistory history).graph = Graph.ofHistory history ∧ (ofHistory history).Faithful ∧
      (ofHistory history).Sound := by
  obtain ⟨graph, faithful⟩ := ofHistory_spec history
  exact ⟨graph, faithful, faithful.sound ⟨history, graph⟩⟩

end Indexed

end CallAtlas
