import CallAtlas.Graph.Drawing
import CallAtlas.Proofs.Graph.Indexed
import CallAtlas.Proofs.Graph.Neighbours
import CallAtlas.Proofs.Text.Token
/-!
What a drawing shows. The lines are written from names, and what a node is drawn with depends on which names
were written before; a plan says the same by positions. Main statements: `splitFrom_edgeLine` and
`splitFrom_nodeLine`, the names in a line can be read from it, so that no two lines are alike; and
`Built.draws_plan`, a drawing shows all that is visible, and shows it once.
-/
namespace CallAtlas

namespace Drawing

def edgeLine (caller callee : String) : String := quoted caller ++ " -> " ++ quoted callee ++ ";"

def nodeLine (node : String) : String := quoted node ++ ";"

/-- What is drawn, by positions. -/
structure Plan where
  /-- files with the nodes in their boxes -/
  boxes : List (String × List Nat)
  edges : List (Nat × Nat)
  /-- the nodes that stand alone -/
  lonely : List Nat

namespace Plan

def boxLines (g : Graph) (plan : Plan) : List String :=
  plan.boxes.zipIdx.flatMap fun b => box b.2 b.1.1 (b.1.2.map g.displayAt)

def edgeLines (g : Graph) (plan : Plan) : List String :=
  plan.edges.map fun e => edgeLine (g.displayAt e.1) (g.displayAt e.2)

def lonelyLines (g : Graph) (plan : Plan) : List String :=
  plan.lonely.map fun i => nodeLine (g.displayAt i)

def text (g : Graph) (plan : Plan) : String :=
  Lines.unlines ("digraph callgraph \x7b" ::
    (plan.boxLines g ++ plan.edgeLines g ++ plan.lonelyLines g ++ ["\x7d"]))

end Plan

theorem toList_quoted (name : String) :
    (quoted name).toList = '"' :: (Token.escape name.toList ++ ['"']) := String.toList_ofList

theorem splitFrom_quoted (name : String) (tail : List Char) :
    Token.splitFrom .gap ((quoted name).toList ++ tail) =
      (Token.splitFrom .plain tail).map (name.toList.foldr Token.push ·) := by
  rw [toList_quoted, List.cons_append, List.append_assoc]
  exact Token.splitFrom_quoted_escape name.toList tail

theorem splitFrom_nodeLine (node : String) :
    Token.splitFrom .gap (nodeLine node).toList = .ok [node.toList ++ [';']] := by
  have last : Token.splitFrom .plain [';'] = .ok [[';']] := by decide
  rw [nodeLine, String.toList_append]
  show Token.splitFrom .gap ((quoted node).toList ++ [';']) = _
  rw [splitFrom_quoted, last]
  exact congrArg Except.ok (Token.foldr_push_cons _ _ _)

theorem splitFrom_arrow (tail : List Char) :
    Token.splitFrom .plain (' ' :: '-' :: '>' :: ' ' :: tail) =
      (Token.splitFrom .gap tail).map ([] :: ['-', '>'] :: ·) := by
  have step : Token.splitFrom .plain (' ' :: '-' :: '>' :: ' ' :: tail) =
      ((((Token.splitFrom .gap tail).map ([] :: ·)).map (Token.push '>')).map (Token.push '-')).map
        ([] :: ·) := rfl
  rw [step]
  cases Token.splitFrom .gap tail <;> rfl

theorem splitFrom_edgeLine (caller callee : String) :
    Token.splitFrom .gap (edgeLine caller callee).toList =
      .ok [caller.toList, ['-', '>'], callee.toList ++ [';']] := by
  have split : (edgeLine caller callee).toList = (quoted caller).toList ++
      ' ' :: '-' :: '>' :: ' ' :: (nodeLine callee).toList := by
    simp [edgeLine, nodeLine]
  rw [split, splitFrom_quoted, splitFrom_arrow, splitFrom_nodeLine]
  refine congrArg Except.ok ((Token.foldr_push_cons _ _ _).trans ?_)
  rw [List.append_nil]

theorem nodeLine_inj {node other : String} (same : nodeLine node = nodeLine other) : node = other := by
  have tokens := splitFrom_nodeLine node
  rw [same, splitFrom_nodeLine] at tokens
  simpa [String.toList_inj] using tokens.symm

theorem edgeLine_inj {caller callee caller' callee' : String}
    (same : edgeLine caller callee = edgeLine caller' callee') : caller = caller' ∧ callee = callee' := by
  have tokens := splitFrom_edgeLine caller callee
  rw [same, splitFrom_edgeLine] at tokens
  simpa [String.toList_inj] using tokens.symm

theorem edgeLine_ne_nodeLine (caller callee node : String) : edgeLine caller callee ≠ nodeLine node := by
  intro same
  have tokens := splitFrom_edgeLine caller callee
  rw [same, splitFrom_nodeLine] at tokens
  simp at tokens

theorem boxes_eq (number : Nat) (entries : List (String × List String)) :
    boxes number entries = (entries.zipIdx number).flatMap fun b => box b.2 b.1.1 b.1.2 := by
  induction entries generalizing number with
  | nil => rfl
  | cons entry entries ih => rw [boxes, ih, List.zipIdx_cons, List.flatMap_cons]

end Drawing

namespace Graph

/-- What is visible is drawn, and nothing is drawn twice. -/
structure Plans (g : Graph) (drawing : Drawing) (plan : Drawing.Plan) : Prop where
  /-- every file has one box at most, and the boxes are in the order of their files -/
  boxes_ascending : plan.boxes.Pairwise fun b b' => b.1 < b'.1
  mem_boxes : ∀ file, file ∈ plan.boxes.map Prod.fst ↔
    drawing.files = true ∧ ∃ i, g.fileAt i = some file ∧ g.showsAt false i = true
  boxed : ∀ b ∈ plan.boxes, b.2.Nodup ∧
    ∀ i, i ∈ b.2 ↔ g.fileAt i = some b.1 ∧ g.showsAt false i = true
  edges_nodup : plan.edges.Nodup
  mem_edges : ∀ i j, (i, j) ∈ plan.edges ↔ g.showsAt false i = true ∧
    g.showsAt drawing.scope.externals j = true ∧ g.showsEdgeAt drawing.scope.refs i j = true
  lonely_nodup : plan.lonely.Nodup
  mem_lonely : ∀ i, i ∈ plan.lonely ↔
    g.showsAt false i = true ∧ ∀ e ∈ plan.edges, e.1 ≠ i ∧ e.2 ≠ i

def shownNodes (g : Graph) : List Nat := (List.range g.size).filter (g.showsAt false)

def shownEdges (g : Graph) (scope : Scope) : List (Nat × Nat) :=
  g.shownNodes.flatMap fun i => (g.shownCallees scope i).map fun j => (i, j)

def plan (g : Graph) (drawing : Drawing) : Drawing.Plan where
  boxes :=
    if drawing.files then
      (g.files.map fun file => (file, (g.definedIn file).filter (g.showsAt false))).filter
        fun b => !b.2.isEmpty
    else []
  edges := g.shownEdges drawing.scope
  lonely := g.shownNodes.filter fun i =>
    !(g.shownEdges drawing.scope).any fun e => e.1 == i || e.2 == i

variable {g : Graph} {drawing : Drawing} {scope : Scope} {i j : Nat}

theorem mem_shownNodes : i ∈ g.shownNodes ↔ g.showsAt false i = true := by
  rw [shownNodes, List.mem_filter, List.mem_range]
  exact and_iff_right_of_imp g.lt_size_of_showsAt

theorem nodup_shownNodes : g.shownNodes.Nodup := List.nodup_range.filter _

theorem mem_shownEdges : (i, j) ∈ g.shownEdges scope ↔ g.showsAt false i = true ∧
    g.showsAt scope.externals j = true ∧ g.showsEdgeAt scope.refs i j = true := by
  simp only [shownEdges, List.mem_flatMap, List.mem_map, mem_shownNodes, mem_shownCallees,
    Prod.mk.injEq]
  constructor
  · rintro ⟨i, caller, j, callee, rfl, rfl⟩
    exact ⟨caller, callee⟩
  · rintro ⟨caller, callee⟩
    exact ⟨i, caller, j, callee, rfl, rfl⟩

theorem WellFormed.nodup_shownEdges (h : g.WellFormed) (scope : Scope) :
    (g.shownEdges scope).Nodup := by
  rw [shownEdges, List.nodup_flatMap]
  constructor
  · intro i _
    have callees : (g.shownCallees scope i).Nodup := (h.nodup_calleesAt i).filter _
    exact callees.map fun j k same => (Prod.mk.inj same).2
  · refine nodup_shownNodes.imp fun apart e first second => ?_
    obtain ⟨j, -, rfl⟩ := List.mem_map.mp first
    obtain ⟨k, -, same⟩ := List.mem_map.mp second
    exact apart (Prod.mk.inj same).1.symm

theorem pairwise_files (g : Graph) : g.files.Pairwise (· < ·) := NameMap.pairwise_keys _

theorem Consistent.mem_files (h : g.Consistent) {file : String} :
    file ∈ g.files ↔ ∃ i, g.fileAt i = some file := by
  rw [files, NameSet.mem_toList, NameSet.mem_ofList, List.mem_filterMap]
  refine exists_congr fun i => and_iff_right_of_imp fun placed => ?_
  have listed := List.mem_filter.mp (h.mem_definedIn.mpr placed)
  exact List.mem_reverse.mp listed.1

theorem mem_plan_boxes {b : String × List Nat} : b ∈ (g.plan drawing).boxes ↔
    drawing.files = true ∧ b.1 ∈ g.files ∧ b.2 = (g.definedIn b.1).filter (g.showsAt false) ∧
      b.2 ≠ [] := by
  obtain ⟨file, is⟩ := b
  rw [plan]
  cases drawing.files with
  | false => simp
  | true =>
    simp only [if_true, List.mem_filter, List.mem_map, Prod.mk.injEq, Bool.not_eq_true',
      List.isEmpty_eq_false_iff, true_and]
    constructor
    · rintro ⟨⟨_, listed, rfl, rfl⟩, inhabited⟩
      exact ⟨listed, rfl, inhabited⟩
    · rintro ⟨listed, rfl, inhabited⟩
      exact ⟨⟨file, listed, rfl, rfl⟩, inhabited⟩

theorem Built.plans (built : g.Built) (drawing : Drawing) : g.Plans drawing (g.plan drawing) := by
  have consistent := built.consistent
  have mem_shown {file : String} {i : Nat} : i ∈ (g.definedIn file).filter (g.showsAt false) ↔
      g.fileAt i = some file ∧ g.showsAt false i = true := by
    rw [List.mem_filter, consistent.mem_definedIn]
  constructor
  case boxes_ascending =>
    show (if drawing.files then _ else []).Pairwise _
    split
    · have ordered := List.Pairwise.map
        (S := fun b b' : String × List Nat => b.1 < b'.1)
        (fun file => (file, (g.definedIn file).filter (g.showsAt false)))
        (fun _ _ before => before) g.pairwise_files
      exact ordered.filter _
    · exact .nil
  case mem_boxes =>
    intro file
    rw [List.mem_map]
    constructor
    · rintro ⟨b, drawn, rfl⟩
      obtain ⟨wanted, -, same, inhabited⟩ := mem_plan_boxes.mp drawn
      obtain ⟨i, hi⟩ := List.exists_mem_of_ne_nil _ inhabited
      rw [same] at hi
      exact ⟨wanted, i, mem_shown.mp hi⟩
    · rintro ⟨wanted, i, placed, shown⟩
      refine ⟨(file, (g.definedIn file).filter (g.showsAt false)), mem_plan_boxes.mpr ?_, rfl⟩
      refine ⟨wanted, consistent.mem_files.mpr ⟨i, placed⟩, rfl, ?_⟩
      exact List.ne_nil_of_mem (mem_shown.mpr ⟨placed, shown⟩)
  case boxed =>
    intro b drawn
    obtain ⟨-, -, same, -⟩ := mem_plan_boxes.mp drawn
    rw [same]
    refine ⟨?_, fun i => mem_shown⟩
    exact ((List.nodup_reverse.mpr built.nodup_definitions).filter _).filter _
  case edges_nodup => exact built.wellFormed.nodup_shownEdges drawing.scope
  case mem_edges => exact fun i j => mem_shownEdges
  case lonely_nodup => exact nodup_shownNodes.filter _
  case mem_lonely =>
    intro i
    show i ∈ g.shownNodes.filter _ ↔ _
    rw [List.mem_filter, mem_shownNodes]
    simp [plan]

theorem visibleNodes_eq_map_shownNodes (g : Graph) :
    g.visibleNodes false = g.shownNodes.map g.displayAt := rfl

theorem visibleFiles_eq_map (g : Graph) (drawing : Drawing) :
    (if drawing.files then g.visibleFiles else []) =
      (g.plan drawing).boxes.map fun b => (b.1, b.2.map g.displayAt) := by
  rw [plan]
  split
  · have listed : (g.files.map fun file => (file, g.nodesOfFile file)) =
        (g.files.map fun file => (file, (g.definedIn file).filter (g.showsAt false))).map
          fun b => (b.1, b.2.map g.displayAt) := by
      rw [List.map_map]
      rfl
    rw [visibleFiles, listed, List.filter_map]
    refine congrArg (List.map _) (List.filter_congr fun b _ => ?_)
    simp
  · rfl

theorem Addressed.drawnEdges_eq (addressed : g.Addressed) (scope : Scope) :
    g.drawnEdges scope = (g.shownEdges scope).map fun e => (g.displayAt e.1, g.displayAt e.2) := by
  rw [drawnEdges, visibleNodes_eq_map_shownNodes, List.flatMap_map, shownEdges, List.map_flatMap]
  refine List.flatMap_congr fun i hi => ?_
  have lt := g.lt_size_of_showsAt (mem_shownNodes.mp hi)
  rw [addressed.callees_displayAt lt, List.map_map, List.map_map]
  rfl

theorem Addressed.lonelyNodes_eq (addressed : g.Addressed) (drawing : Drawing) :
    g.lonelyNodes drawing.scope = (g.plan drawing).lonely.map g.displayAt := by
  have named {i j : Nat} (hi : i < g.size) (hj : j < g.size) :
      (g.displayAt i == g.displayAt j) = (i == j) := by
    rw [Bool.eq_iff_iff, beq_iff_eq, beq_iff_eq]
    exact ⟨addressed.displayAt_inj hi hj, fun same => same ▸ rfl⟩
  rw [lonelyNodes, addressed.drawnEdges_eq, visibleNodes_eq_map_shownNodes, List.filter_map, plan]
  refine congrArg (List.map _) (List.filter_congr fun i hi => congrArg (!·) ?_)
  have lt := g.lt_size_of_showsAt (mem_shownNodes.mp hi)
  rw [List.any_map, Bool.eq_iff_iff, List.any_eq_true, List.any_eq_true]
  refine exists_congr fun e => and_congr_right fun he => ?_
  obtain ⟨caller, callee, -⟩ := mem_shownEdges.mp he
  rw [Function.comp_apply, named (g.lt_size_of_showsAt caller) lt,
    named (g.lt_size_of_showsAt callee) lt]

/-- A drawing is what its plan says. -/
theorem Addressed.draw_eq (addressed : g.Addressed) (drawing : Drawing) :
    g.draw drawing = (g.plan drawing).text g := by
  have boxes : (if drawing.files then Drawing.boxes 0 g.visibleFiles else []) =
      (g.plan drawing).boxLines g := by
    have moved : (if drawing.files then Drawing.boxes 0 g.visibleFiles else []) =
        Drawing.boxes 0 (if drawing.files then g.visibleFiles else []) := by split <;> rfl
    rw [moved, visibleFiles_eq_map, Drawing.boxes_eq, List.zipIdx_map, List.flatMap_map]
    rfl
  rw [draw, boxes, addressed.drawnEdges_eq, addressed.lonelyNodes_eq, List.map_map, List.map_map]
  rfl

theorem Addressed.nodup_lines (addressed : g.Addressed) {plan : Drawing.Plan}
    (h : g.Plans drawing plan) : (plan.edgeLines g ++ plan.lonelyLines g).Nodup ∧
      ∀ b ∈ plan.boxes, (b.2.map fun i => Drawing.nodeLine (g.displayAt i)).Nodup := by
  have apart {is : List Nat} (nodup : is.Nodup) (shown : ∀ i ∈ is, g.showsAt false i = true) :
      (is.map fun i => Drawing.nodeLine (g.displayAt i)).Nodup := by
    refine nodup.map_on fun i hi j hj same => ?_
    exact addressed.displayAt_inj (g.lt_size_of_showsAt (shown i hi))
      (g.lt_size_of_showsAt (shown j hj)) (Drawing.nodeLine_inj same)
  constructor
  · refine List.nodup_append.mpr ⟨?_, ?_, ?_⟩
    · refine h.edges_nodup.map_on ?_
      rintro ⟨i, j⟩ first ⟨k, l⟩ second same
      obtain ⟨callers, callees⟩ := Drawing.edgeLine_inj same
      obtain ⟨hi, hj, -⟩ := (h.mem_edges i j).mp first
      obtain ⟨hk, hl, -⟩ := (h.mem_edges k l).mp second
      rw [addressed.displayAt_inj (g.lt_size_of_showsAt hi) (g.lt_size_of_showsAt hk) callers,
        addressed.displayAt_inj (g.lt_size_of_showsAt hj) (g.lt_size_of_showsAt hl) callees]
    · exact apart h.lonely_nodup fun i hi => ((h.mem_lonely i).mp hi).1
    · intro line edge other lonely same
      obtain ⟨e, -, rfl⟩ := List.mem_map.mp edge
      obtain ⟨i, -, rfl⟩ := List.mem_map.mp lonely
      exact Drawing.edgeLine_ne_nodeLine _ _ _ same
  · intro b drawn
    obtain ⟨nodup, mem⟩ := h.boxed b drawn
    exact apart nodup fun i hi => ((mem i).mp hi).2

/-- If display names address their nodes, a drawing shows everything that is visible, once: with boxes each
file of a visible node, with those nodes; each visible edge from a defined node to a node that is looked at;
and alone each visible defined node that none of these edges touches. -/
theorem Built.draws_plan (built : g.Built) (addressed : g.Addressed) (drawing : Drawing) :
    ∃ plan, g.Plans drawing plan ∧ g.draw drawing = plan.text g ∧
      (plan.edgeLines g ++ plan.lonelyLines g).Nodup ∧
      ∀ b ∈ plan.boxes, (b.2.map fun i => Drawing.nodeLine (g.displayAt i)).Nodup := by
  have plans := built.plans drawing
  obtain ⟨lines, boxes⟩ := addressed.nodup_lines plans
  exact ⟨g.plan drawing, plans, addressed.draw_eq drawing, lines, boxes⟩

/-- Two files, of which one defines hidden nodes only, an external node, a reference, and a quote in a
name. -/
def courtyard : Graph := ofHistory
  [.add (.define "main" { file := some "main.c" }), .add (.define "help" { file := some "util.c" }),
    .add (.define "table" { username := some "t\"", file := some "util.c" }), .add (.define "lone" {}),
    .add (.edge "main" "help" .call), .add (.edge "help" "x" .call), .add (.edge "table" "help" .ref),
    .add (.edge "help" "help" .call), .hide "main"]

theorem draws_plan_courtyard : courtyard.Built ∧ courtyard.Addressed ∧
    ∃ plan, courtyard.Plans ⟨true, ⟨true, false⟩⟩ plan ∧
      courtyard.draw ⟨true, ⟨true, false⟩⟩ = plan.text courtyard ∧
      "util.c" ∈ plan.boxes.map Prod.fst ∧ "main.c" ∉ plan.boxes.map Prod.fst ∧
      (1, 4) ∈ plan.edges ∧ 2 ∈ plan.lonely := by
  have built : courtyard.Built := ⟨_, rfl⟩
  have addressed : courtyard.Addressed := built.addressed_iff.mpr (by with_unfolding_all decide)
  have size : courtyard.size = 5 := by with_unfolding_all decide
  obtain ⟨plan, plans, drawn, -⟩ := built.draws_plan addressed ⟨true, ⟨true, false⟩⟩
  refine ⟨built, addressed, plan, plans, drawn, ?_, ?_, ?_, ?_⟩
  · exact (plans.mem_boxes "util.c").mpr ⟨rfl, 1, by with_unfolding_all decide⟩
  · intro boxed
    obtain ⟨-, i, placed, shown⟩ := (plans.mem_boxes "main.c").mp boxed
    have hidden : ∀ i < 5, courtyard.fileAt i = some "main.c" → courtyard.showsAt false i = false := by
      with_unfolding_all decide
    have lt := size ▸ courtyard.lt_size_of_showsAt shown
    exact Bool.false_ne_true ((hidden i lt placed).symm.trans shown)
  · exact (plans.mem_edges 1 4).mpr (by with_unfolding_all decide)
  · refine (plans.mem_lonely 2).mpr ⟨by with_unfolding_all decide, fun e drawn => ?_⟩
    obtain ⟨caller, callee, connected⟩ := (plans.mem_edges e.1 e.2).mp drawn
    have apart : ∀ i < 5, ∀ j < 5, courtyard.showsEdgeAt false i j = true → i ≠ 2 ∧ j ≠ 2 := by
      with_unfolding_all decide
    exact apart e.1 (size ▸ courtyard.lt_size_of_showsAt caller) e.2
      (size ▸ courtyard.lt_size_of_showsAt callee) connected

end Graph

end CallAtlas
