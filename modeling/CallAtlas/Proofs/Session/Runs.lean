import CallAtlas.Proofs.Graph.History
import CallAtlas.Proofs.Session.Execution
/-!
What sessions do to their graphs. Main statement: `develops_runScript`, whatever a script does to the
graph is a sequence of changes, so what every change preserves holds of the graphs of all sessions.
-/
namespace CallAtlas

namespace Graph

def Develops (g g' : Graph) : Prop := ∃ history : List Change, g' = history.foldl apply g

namespace Develops

theorem refl (g : Graph) : g.Develops g := ⟨[], rfl⟩

theorem change (g : Graph) (c : Change) : g.Develops (g.apply c) := ⟨[c], rfl⟩

theorem trans {g g' g'' : Graph} (h : g.Develops g') (h' : g'.Develops g'') : g.Develops g'' := by
  obtain ⟨history, rfl⟩ := h
  obtain ⟨more, rfl⟩ := h'
  exact ⟨history ++ more, List.foldl_append.symm⟩

theorem foldl {α : Type} {f : Graph → α → Graph} (step : ∀ (g : Graph) a, g.Develops (f g a))
    (g : Graph) (as : List α) : g.Develops (as.foldl f g) := by
  induction as generalizing g with
  | nil => exact refl g
  | cons a as ih => exact (step g a).trans (ih (f g a))

theorem built {g g' : Graph} (h : g.Develops g') (hg : g.Built) : g'.Built := by
  obtain ⟨history, rfl⟩ := h
  obtain ⟨before, rfl⟩ := hg
  refine ⟨before ++ history, ?_⟩
  rw [ofHistory, ofHistory, List.foldl_append]

end Develops

theorem develops_add {g g' : Graph} {entry : Entry} (h : g.add entry = .ok g') : g.Develops g' := by
  have applied : g.apply (.add entry) = g' := by
    unfold apply
    dsimp only
    rw [h]
  exact applied ▸ .change g (.add entry)

theorem develops_hideReach (reach : Reach) (g : Graph) (name : String) :
    g.Develops (hideReach reach g name) := by
  unfold hideReach
  split
  · have callers : g.Develops ((g.reachedCallers reach name).foldl cutCallers g) :=
      .foldl (fun g name => .change g (.cutCallers name)) g _
    exact callers.trans (.foldl (fun g name => .change g (.cutCallees name)) _ _)
  · exact .change g (.hide name)

theorem develops_keepReach (reach : Reach) (g : Graph) (name : String) :
    g.Develops (keepReach reach g name) :=
  .foldl (fun g name => .change g (.keep name)) g _

end Graph

namespace Session

variable {run : FileRunner} {s : Session}

theorem develops_attempt {α : Type} (x : Except Cause α) {f : α → Graph}
    (h : ∀ a, s.graph.Develops (f a)) :
    s.graph.Develops (s.attempt (do return s.withGraph (f (← x)))).2.graph := by
  cases x with
  | error => exact .refl _
  | ok a => exact h a

theorem develops_of_eq {s' : Session} (h : s'.graph = s.graph) : s.graph.Develops s'.graph :=
  h ▸ .refl _

theorem develops_addNode (external : Bool) (name : String) (d : Definition) :
    s.graph.Develops (s.attempt (s.addNode external name d)).2.graph := by
  unfold addNode
  split
  · split
    · exact .change s.graph (.add (.mention name))
    · exact .refl _
  · exact .change s.graph (.add (.define name d))

theorem develops_addEdge (caller callee : String) (kind : EdgeKind) :
    s.graph.Develops (s.attempt (s.addEdge caller callee kind)).2.graph := by
  unfold addEdge
  cases joined : s.graph.connect caller callee kind with
  | error => exact .refl _
  | ok g =>
    have added : s.graph.add (.edge caller callee kind) = .ok g := joined
    exact Graph.develops_add added

theorem develops_reset (filters labels : Bool) :
    s.graph.Develops (s.reset filters labels).graph := by
  have hidden (g : Graph) (b : Bool) : g.Develops (if b then g.resetVisibility else g) := by
    split
    · exact .change g .resetVisibility
    · exact .refl g
  have unlabeled (g : Graph) (b : Bool) : g.Develops (if b then g.resetLabels else g) := by
    split
    · exact .change g .resetLabels
    · exact .refl g
  exact (hidden s.graph _).trans (unlabeled _ _)

theorem develops_keep (reach : Reach) (words : List String) :
    s.graph.Develops (s.attempt (s.keep reach words)).2.graph :=
  develops_attempt _ fun names => .foldl (Graph.develops_keepReach reach) s.graph names

theorem develops_executeWith (files : ∀ path (s : Session), s.graph.Develops (run path s).2.graph)
    (command : Command) : s.graph.Develops (s.executeWith run command).2.graph := by
  cases command with
  | node external username line name file => exact develops_addNode _ _ _
  | edge caller callee kind => exact develops_addEdge _ _ _
  | label l words =>
    cases words with
    | nil => exact .refl _
    | cons word words =>
      exact develops_attempt _ fun names =>
        .foldl (fun g name => .change g (.add (.label l name))) s.graph names
  | source path =>
    have ran := files path s
    show s.graph.Develops (included (run path s)).2.graph
    revert ran
    cases run path s with
    | mk result s' => cases result <;> exact id
  | hide reach words =>
    exact develops_attempt _ fun names => .foldl (Graph.develops_hideReach reach) s.graph names
  | keep reach words => exact develops_keep reach words
  | only reach words =>
    exact (Graph.Develops.change s.graph (.setDefault false)).trans
      (develops_keep (s := s.withGraph (s.graph.setDefault false)) reach words)
  | reset filters labels => exact develops_reset filters labels
  | callers refs words => exact develops_of_eq (graph_attempt _ _)
  | callees scope words => exact develops_of_eq (graph_attempt _ _)
  | labels words => exact develops_of_eq (graph_attempt _ _)
  | paths scope limit words => exact develops_of_eq (graph_attempt _ _)
  | stats json =>
    show s.graph.Develops (s.reportCensus json).graph
    unfold reportCensus
    split <;> exact .refl _
  | save path => exact develops_of_eq (graph_deliver _ _)
  | output drawing path => exact develops_of_eq (graph_deliver _ _)

theorem develops_executeLineWith
    (files : ∀ path (s : Session), s.graph.Develops (run path s).2.graph) (line : String) :
    s.graph.Develops (s.executeLineWith run line).2.graph := by
  rcases executeLineWith_cases run s line with ⟨command, -, same⟩ | ⟨-, alone | ⟨lines, help⟩⟩
  · rw [same]
    exact develops_executeWith files command
  · exact develops_of_eq (congrArg Session.graph alone)
  · rw [help]
    exact .refl _

theorem lasting_develops : Lasting fun s s' => s.graph.Develops s'.graph where
  refl _ := .refl _
  trans := .trans
  line files line _ := develops_executeLineWith files line
  deeper := id

theorem develops_executeLine (s : Session) (line : String) :
    s.graph.Develops (s.executeLine line).2.graph :=
  develops_executeLineWith (lasting_develops.sourceWithin _) line

theorem develops_runScript (s : Session) (lines : List Line) :
    s.graph.Develops (s.runScript lines).2.graph :=
  lasting_develops.runWith (lasting_develops.sourceWithin _) 0 0 (.lines lines) s

/-- The graphs of sessions are made by histories, so they are well-formed. -/
theorem built_runScript {s : Session} (h : s.graph.Built) (lines : List Line) :
    (s.runScript lines).2.graph.Built :=
  (s.develops_runScript lines).built h

end Session

end CallAtlas
