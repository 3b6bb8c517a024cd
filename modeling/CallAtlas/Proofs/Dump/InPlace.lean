import CallAtlas.Dump.Reader
import CallAtlas.Proofs.Graph.Indexed
/-!
Lines of a dump that change a graph in place. The work goes step by step on one graph and its tables, and
what a step has changed stays changed when a later step fails. Main statements: `run_applyLine`, the work
for a line adds what the line says or leaves everything as it is, and `applyLine_all_or_nothing`.
-/
namespace CallAtlas

def Entry.ofLine (line : String) : Except LineError (Option Entry) :=
  match Token.split line with
  | .error e => .error (.split e)
  | .ok tokens => (ofTokens tokens).mapError .entry

theorem Graph.addLine_eq (g : Graph) (line : String) : g.addLine line =
    match Entry.ofLine line with
    | .error e => .error e
    | .ok none => .ok g
    | .ok (some entry) => (g.add entry).mapError .edge := by
  rw [addLine, Entry.ofLine]
  cases Token.split line with
  | error e => rfl
  | ok tokens =>
    dsimp only
    cases Entry.ofTokens tokens with
    | error e => rfl
    | ok said => cases said <;> rfl

namespace Indexed

open CallAtlas.Graph

variable {ε α : Type} {x : Indexed}

/-- Work on a graph and its tables in place. A failure takes nothing back. -/
abbrev Work (ε α : Type) := EStateM ε Indexed α

def whole (x : Indexed) : Except ε Indexed → EStateM.Result ε Indexed Unit
  | .ok x' => .ok () x'
  | .error e => .error e x

def addSaid (x : Indexed) : Option Entry → Except LineError Indexed
  | none => .ok x
  | some entry => (x.add entry).mapError .edge

namespace Work

def ofExcept : Except ε α → Work ε α
  | .ok a => pure a
  | .error e => throw e

def mention (name : String) : Work ε Nat := do
  match (← get).names.get? name with
  | some i => return i
  | none =>
    let i := (← get).graph.size
    modify fun x => { x with graph := { x.graph with nodes := x.graph.nodes.push { name } } }
    modify fun x => { x with names := x.names.put name i }
    return i

def define (name : String) (d : Definition) : Work ε Unit := do
  let i ← mention name
  if (← get).graph.isExternalAt i then
    modify fun x => { x with graph := x.graph.settle i name d }
    if let some username := d.username then
      modify fun x => { x with usernames := x.usernames.put username i }
    if let some file := d.file then
      modify fun x => { x with files := x.files.update file fun is => is.getD [] ++ [i] }

def connect (caller callee : String) (kind : EdgeKind) : Work EdgeError Unit := do
  match (← get).names.get? caller with
  | none => throw (.unknownCaller caller)
  | some i =>
    if (← get).graph.isExternalAt i then throw (.externalCaller caller)
    else
      let j ← mention callee
      modify fun x => { x with graph := x.graph.join i j kind }

def addLabel (name label : String) : Work ε Unit :=
  modify fun x => { x with graph := x.graph.addLabel name label }

def applyNodeArgs (args : Entry.NodeArgs) : Work LineError Unit :=
  match args.external, args.names with
  | true, [name] => do
    let _ ← mention name
    return
  | true, _ => throw (.entry .externalShape)
  | false, [name] => define name ⟨args.username, none, args.line⟩
  | false, [name, file] => define name ⟨args.username, some file, args.line⟩
  | false, _ => throw (.entry .nodeShape)

def applyNode (args : List String) : Work LineError Unit := do
  applyNodeArgs (← ofExcept ((Entry.nodeArgs args).mapError .entry))

def applyLabel : List String → Work LineError Unit
  | [label, name] => addLabel name label
  | _ => throw (.entry .labelShape)

def applyEdge : List String → Work LineError Unit
  | [caller, callee, kind] =>
    match EdgeKind.ofText? kind with
    | none => throw (.entry (.badKind kind))
    | some kind => (connect caller callee kind).adaptExcept .edge
  | _ => throw (.entry .edgeShape)

def applyLine (line : String) : Work LineError Unit := do
  match ← ofExcept ((Token.split line).mapError .split) with
  | [] => return
  | word :: args =>
    if word = "node" then applyNode args
    else if word = "label" then applyLabel args
    else if word = "edge" then applyEdge args
    else throw (.entry (.unknown word))

theorem run_ofExcept (o : Except ε α) : (ofExcept o).run x =
    match o with
    | .ok a => .ok a x
    | .error e => .error e x := by
  cases o <;> rfl

theorem run_mention (name : String) :
    (mention name : Work ε Nat).run x = .ok (x.mention name).1 (x.mention name).2 := by
  rw [mention, EStateM.run_bind, EStateM.run_get, Indexed.mention]
  dsimp only
  cases x.names.get? name <;> rfl

theorem run_define (name : String) (d : Definition) :
    (define name d : Work ε Unit).run x = .ok () (x.define name d).2 := by
  obtain ⟨username, file, line⟩ := d
  rw [define, EStateM.run_bind, run_mention, Indexed.define]
  dsimp only
  rw [EStateM.run_bind, EStateM.run_get]
  dsimp only
  cases (x.mention name).2.graph.isExternalAt (x.mention name).1 with
  | false => rfl
  | true => cases username <;> cases file <;> rfl

theorem run_connect (caller callee : String) (kind : EdgeKind) :
    (connect caller callee kind).run x = whole x (x.connect caller callee kind) := by
  rw [connect, EStateM.run_bind, EStateM.run_get, Indexed.connect]
  dsimp only
  cases x.names.get? caller with
  | none => rfl
  | some i =>
    dsimp only
    rw [EStateM.run_bind, EStateM.run_get]
    dsimp only
    cases x.graph.isExternalAt i with
    | true => rfl
    | false =>
      rw [if_neg Bool.false_ne_true, if_neg Bool.false_ne_true, EStateM.run_bind, run_mention]
      rfl

theorem run_applyNodeArgs (args : Entry.NodeArgs) : (applyNodeArgs args).run x =
    whole x ((Entry.ofNodeArgs args).mapError .entry >>= fun e => x.addSaid (some e)) := by
  obtain ⟨external, username, line, names⟩ := args
  match external, names with
  | true, [name] =>
    rw [applyNodeArgs, EStateM.run_bind, run_mention]
    rfl
  | true, [] | true, _ :: _ :: _ => rfl
  | false, [name] => exact run_define name _
  | false, [name, file] => exact run_define name _
  | false, [] | false, _ :: _ :: _ :: _ => rfl

theorem run_applyNode (args : List String) : (applyNode args).run x =
    whole x ((Entry.nodeArgs args >>= Entry.ofNodeArgs).mapError .entry >>=
      fun e => x.addSaid (some e)) := by
  rw [applyNode, EStateM.run_bind, run_ofExcept]
  cases Entry.nodeArgs args with
  | error e => rfl
  | ok args => exact run_applyNodeArgs args

theorem run_applyLabel (args : List String) : (applyLabel args).run x =
    whole x ((Entry.ofLabelArgs args).mapError .entry >>= fun e => x.addSaid (some e)) := by
  match args with
  | [label, name] => rfl
  | [] | [_] | _ :: _ :: _ :: _ => rfl

theorem run_applyEdge (args : List String) : (applyEdge args).run x =
    whole x ((Entry.ofEdgeArgs args).mapError .entry >>= fun e => x.addSaid (some e)) := by
  match args with
  | [caller, callee, kind] =>
    rw [applyEdge, Entry.ofEdgeArgs]
    cases EdgeKind.ofText? kind with
    | none => rfl
    | some kind =>
      dsimp only
      rw [EStateM.run_adaptExcept, run_connect]
      show _ = whole x ((x.connect caller callee kind).mapError LineError.edge)
      cases x.connect caller callee kind <;> rfl
  | [] | [_] | [_, _] | _ :: _ :: _ :: _ :: _ => rfl

/-- The work for a line adds what the line says; if it says nothing that can be added, everything is as
it was. -/
theorem run_applyLine (line : String) :
    (applyLine line).run x = whole x (Entry.ofLine line >>= x.addSaid) := by
  have wrapped (said : Except EntryError Entry) :
      (said.map some).mapError LineError.entry >>= x.addSaid =
        said.mapError .entry >>= fun e => x.addSaid (some e) := by
    cases said <;> rfl
  rw [applyLine, EStateM.run_bind, run_ofExcept, Entry.ofLine]
  cases Token.split line with
  | error e => rfl
  | ok tokens =>
    cases tokens with
    | nil => rfl
    | cons word args =>
      show EStateM.run (if word = "node" then applyNode args
        else if word = "label" then applyLabel args
        else if word = "edge" then applyEdge args
        else throw (.entry (.unknown word))) x =
          whole x ((Entry.ofTokens (word :: args)).mapError .entry >>= x.addSaid)
      rw [Entry.ofTokens]
      split
      · rw [run_applyNode, wrapped]
      · split
        · rw [run_applyLabel, wrapped]
        · split
          · rw [run_applyEdge, wrapped]
          · rfl

end Work

theorem graph_addSaid (f : x.Faithful) (h : x.graph.Consistent) (line : String) :
    (Entry.ofLine line >>= x.addSaid).map Indexed.graph = x.graph.addLine line := by
  rw [Graph.addLine_eq]
  cases Entry.ofLine line with
  | error e => rfl
  | ok said =>
    cases said with
    | none => rfl
    | some entry =>
      dsimp only
      rw [← (add_spec f h entry).1]
      show ((x.add entry).mapError LineError.edge).map Indexed.graph = _
      cases x.add entry <;> rfl

theorem connect_eq_error_iff (f : x.Faithful) {caller callee : String} {kind : EdgeKind} :
    (∃ e, x.connect caller callee kind = .error e) ↔
      ∀ node, x.graph.named? caller = some node → node.isExternal = true := by
  rw [connect, f.names, named?]
  cases found : x.graph.find? caller with
  | none => simp
  | some i =>
    obtain ⟨node, here, -⟩ := getElem?_of_find? found
    dsimp only [Option.bind_some]
    rw [here, isExternalAt_eq here]
    cases external : node.isExternal <;> simp [external]

/-- A line that is worked on in place fails and leaves the graph and all its tables as they were, or does
what its entry says and nothing else, or nothing at all if it is blank; it comes out as it does without
tables. An edge is refused exactly if its caller is unknown or external, and then nothing has changed
either: its callee is not entered. -/
theorem applyLine_all_or_nothing (history : List Change) (line : String) :
    ((∃ e, (Work.applyLine line).run (ofHistory history) = .error e (ofHistory history) ∧
        (Graph.ofHistory history).addLine line = .error e) ∨
      ∃ x, (Work.applyLine line).run (ofHistory history) = .ok () x ∧
        (Graph.ofHistory history).addLine line = .ok x.graph ∧
        (Entry.ofLine line = .ok none ∧ x = ofHistory history ∨
          ∃ entry, Entry.ofLine line = .ok (some entry) ∧ (ofHistory history).add entry = .ok x)) ∧
    ∀ caller callee kind,
      ((∃ e, (Work.connect caller callee kind).run (ofHistory history) = .error e (ofHistory history)) ↔
        ∀ node, (Graph.ofHistory history).named? caller = some node → node.isExternal = true) := by
  obtain ⟨graph, faithful⟩ := ofHistory_spec history
  have consistent : (ofHistory history).graph.Consistent := by
    rw [graph]
    exact Built.consistent ⟨history, rfl⟩
  rw [← graph]
  constructor
  · rw [Work.run_applyLine, ← graph_addSaid faithful consistent]
    cases Entry.ofLine line with
    | error e => exact .inl ⟨e, rfl, rfl⟩
    | ok said =>
      show (∃ e, whole _ (addSaid _ said) = _ ∧ (addSaid _ said).map _ = _) ∨
        ∃ x, whole _ (addSaid _ said) = _ ∧ (addSaid _ said).map _ = _ ∧ _
      cases said with
      | none => exact .inr ⟨_, rfl, rfl, .inl ⟨rfl, rfl⟩⟩
      | some entry =>
        rw [addSaid]
        cases added : (ofHistory history).add entry with
        | error e => exact .inl ⟨.edge e, rfl, rfl⟩
        | ok x => exact .inr ⟨x, rfl, rfl, .inr ⟨entry, rfl, added⟩⟩
  · intro caller callee kind
    rw [← connect_eq_error_iff faithful, Work.run_connect]
    cases (ofHistory history).connect caller callee kind <;> simp [whole]

end Indexed

end CallAtlas
