import CallAtlas.Proofs.Graph.History
import CallAtlas.Proofs.Selector.Parser
import CallAtlas.Session.Script
/-!
What a command that fails leaves behind. Main statements: `executeWith_of_error`, a command that fails is
undone, but for the default that is set before the nodes of an `only` command are selected, and
`out_or_graph`, no command both prints and changes the graph.
-/
namespace CallAtlas

def Command.ofLine? (line : String) : Option Command :=
  match Token.split line with
  | .ok tokens => (ofTokens tokens).toOption
  | .error _ => none

namespace Session

variable {run : FileRunner} {s : Session} {command : Command} {e : Failure}

theorem attempt_of_error {r : Except Cause Session} (h : (s.attempt r).1 = .error e) :
    (s.attempt r).2 = s := by
  cases r with
  | ok => cases h
  | error => rfl

/-- What is done of a command before anything in it can fail. -/
def begun (s : Session) : Command → Session
  | .only _ _ => s.withGraph (s.graph.setDefault false)
  | _ => s

theorem executeWith_of_error (h : ∀ path, command ≠ .source path)
    (failed : (s.executeWith run command).1 = .error e) :
    (s.executeWith run command).2 = s.begun command := by
  cases command with
  | source path => exact absurd rfl (h path)
  | reset => cases failed
  | stats => cases failed
  | only reach words => exact attempt_of_error (s := s.withGraph (s.graph.setDefault false)) failed
  | node => exact attempt_of_error failed
  | edge => exact attempt_of_error failed
  | label => exact attempt_of_error failed
  | hide => exact attempt_of_error failed
  | keep => exact attempt_of_error failed
  | callers => exact attempt_of_error failed
  | callees => exact attempt_of_error failed
  | labels => exact attempt_of_error failed
  | paths => exact attempt_of_error failed
  | save => exact attempt_of_error failed
  | output => exact attempt_of_error failed

theorem executeLineWith_cases (run : FileRunner) (s : Session) (line : String) :
    (∃ command, Command.ofLine? line = some command ∧
      s.executeLineWith run line = s.executeWith run command) ∨
    (Command.ofLine? line = none ∧ ((s.executeLineWith run line).2 = s ∨
      ∃ lines, s.executeLineWith run line = (.ok (), s.printLines lines))) := by
  unfold Command.ofLine? executeLineWith
  cases Token.split line with
  | error => exact .inr ⟨rfl, .inl rfl⟩
  | ok tokens =>
    cases tokens with
    | nil => exact .inr ⟨rfl, .inl rfl⟩
    | cons token tokens =>
      dsimp only
      cases Command.ofTokens (token :: tokens) with
      | ok command => exact .inl ⟨command, rfl, rfl⟩
      | error fault =>
        cases fault with
        | help summary => exact .inr ⟨rfl, .inr ⟨summary, rfl⟩⟩
        | _ => exact .inr ⟨rfl, .inl rfl⟩

theorem executeLineWith_of_error {line : String}
    (h : ∀ path, Command.ofLine? line ≠ some (.source path))
    (failed : (s.executeLineWith run line).1 = .error e) :
    (s.executeLineWith run line).2 = (Command.ofLine? line).elim s s.begun := by
  rcases executeLineWith_cases run s line with ⟨command, parsed, same⟩ | ⟨parsed, alone | ⟨lines, help⟩⟩
  · rw [same] at failed ⊢
    rw [parsed] at h ⊢
    exact executeWith_of_error (fun path eq => h path (congrArg some eq)) failed
  · rw [alone, parsed]
    rfl
  · rw [help] at failed
    cases failed

theorem out_attempt {α : Type} (x : Except Cause α) (f : α → Graph) :
    (s.attempt (do return s.withGraph (f (← x)))).2.out = s.out := by
  cases x <;> rfl

theorem graph_attempt {α : Type} (x : Except Cause α) (f : α → List String) :
    (s.attempt (do return s.printLines (f (← x)))).2.graph = s.graph := by
  cases x <;> rfl

theorem graph_deliver (path : Option String) (text : String) :
    (s.attempt (s.deliver path text)).2.graph = s.graph := by
  unfold deliver
  cases path with
  | none => rfl
  | some path =>
    dsimp only
    split <;> rfl

/-- A command changes the graph or prints, not both, so output that is lost never leaves half of a change
behind. -/
theorem out_or_graph (h : ∀ path, command ≠ .source path) :
    (s.executeWith run command).2.out = s.out ∨ (s.executeWith run command).2.graph = s.graph := by
  cases command with
  | source path => exact absurd rfl (h path)
  | node external username line name file =>
    left
    show (s.attempt (s.addNode external name ⟨username, file, line⟩)).2.out = s.out
    unfold addNode
    split
    · split <;> rfl
    · rfl
  | edge caller callee kind =>
    left
    show (s.attempt (s.addEdge caller callee kind)).2.out = s.out
    unfold addEdge
    cases s.graph.connect caller callee kind <;> rfl
  | label l words =>
    cases words with
    | nil => exact .inr rfl
    | cons word words => exact .inl (out_attempt _ _)
  | hide reach words => exact .inl (out_attempt _ _)
  | keep reach words => exact .inl (out_attempt _ _)
  | only reach words =>
    exact .inl (out_attempt (s := s.withGraph (s.graph.setDefault false)) _ _)
  | reset => exact .inl rfl
  | callers refs words => exact .inr (graph_attempt _ _)
  | callees scope words => exact .inr (graph_attempt _ _)
  | labels words => exact .inr (graph_attempt _ _)
  | paths scope limit words => exact .inr (graph_attempt _ _)
  | stats json =>
    right
    show (s.reportCensus json).graph = s.graph
    unfold reportCensus
    split <;> rfl
  | save path => exact .inr (graph_deliver _ _)
  | output drawing path => exact .inr (graph_deliver _ _)

theorem setDefault_eq_self {g : Graph} {shown : Bool} :
    g.setDefault shown = g ↔ g.visibility.shownByDefault = shown := by
  constructor
  · intro h
    rw [← h]
    rfl
  · rintro rfl
    rfl

/-- A line that fails leaves the graph as it was, unless it is an `only` command and nodes were shown by
default; then they no longer are, and nothing else is different. -/
theorem graph_of_failed_line {line : String}
    (h : ∀ path, Command.ofLine? line ≠ some (.source path))
    (failed : (s.executeLine line).1 = .error e) :
    ((s.executeLine line).2.graph = s.graph ↔
        ∀ reach words, Command.ofLine? line = some (.only reach words) →
          s.graph.visibility.shownByDefault = false) ∧
      ((s.executeLine line).2.graph = s.graph ∨
        (s.executeLine line).2.graph = s.graph.setDefault false) := by
  have after : (s.executeLine line).2 = (Command.ofLine? line).elim s s.begun :=
    executeLineWith_of_error h failed
  rw [after]
  cases parsed : Command.ofLine? line with
  | none => simp
  | some command =>
    cases command with
    | only reach words =>
      refine ⟨?_, .inr rfl⟩
      show s.graph.setDefault false = s.graph ↔ _
      rw [setDefault_eq_self]
      simp
    | _ => exact ⟨by simp [begun], .inl rfl⟩

theorem executeLineWith_of_command {line : String} (h : Command.ofLine? line = some command) :
    s.executeLineWith run line = s.executeWith run command := by
  rcases executeLineWith_cases run s line with ⟨other, parsed, same⟩ | ⟨parsed, -⟩
  · cases h.symm.trans parsed
    exact same
  · cases h.symm.trans parsed

theorem executeWith_only_of_error {words : List String} {q : QueryError} (reach : Reach)
    (h : Selector.ofWords s.graph words = .error q) : s.executeWith run (.only reach words) =
      (.error (.bare (.query q)), s.withGraph (s.graph.setDefault false)) := by
  have refused : (s.withGraph (s.graph.setDefault false)).keep reach words =
      .error (.query q) := by
    have same : Selector.ofWords (s.graph.setDefault false) words = .error q := h
    unfold keep select Selector.select
    rw [withGraph, same]
    rfl
  show Session.attempt _ _ = _
  rw [refused]
  rfl

def single : Session := { graph := Graph.ofHistory [.add (.define "a" {})] }

theorem ofLine?_only_bang : Command.ofLine? "only !" = some (.only {} ["!"]) := by
  with_unfolding_all decide

theorem ofWords_bang : ∃ q, Selector.ofWords single.graph ["!"] = .error q := by
  have unnamed : ["!"].all single.graph.contains = false := by with_unfolding_all decide
  have nothing : Selector.base false [] = .expected .selector (.all []) := by
    rw [Selector.base]
    · rfl
    all_goals simp
  rw [Selector.ofWords, unnamed]
  exact Selector.ofText_of_base_error nothing

theorem executeLine_only_bang : ∃ q, single.executeLine "only !" =
    (.error (.bare (.query q)), single.withGraph (single.graph.setDefault false)) := by
  obtain ⟨q, refused⟩ := ofWords_bang
  refine ⟨q, ?_⟩
  exact (executeLineWith_of_command ofLine?_only_bang).trans (executeWith_only_of_error {} refused)

theorem graph_of_only_bang : (∀ path, Command.ofLine? "only !" ≠ some (.source path)) ∧
    ∃ e, (single.executeLine "only !").1 = .error e ∧
      (single.executeLine "only !").2.graph ≠ single.graph ∧
      (single.executeLine "only !").2.graph = single.graph.setDefault false := by
  have sources : ∀ path, Command.ofLine? "only !" ≠ some (.source path) := by
    intro path h
    cases ofLine?_only_bang.symm.trans h
  obtain ⟨q, line⟩ := executeLine_only_bang
  have failed : (single.executeLine "only !").1 = .error (.bare (.query q)) := by rw [line]
  obtain ⟨kept, either⟩ := graph_of_failed_line sources failed
  have changed : (single.executeLine "only !").2.graph ≠ single.graph := by
    intro same
    have hidden := kept.mp same {} ["!"] ofLine?_only_bang
    have shown : single.graph.visibility.shownByDefault = true := by decide +kernel
    exact Bool.false_ne_true (hidden.symm.trans shown)
  exact ⟨sources, _, failed, changed, either.resolve_left changed⟩

/-- Nodes disappear although the line fails. -/
theorem only_bang_hides : (∃ e, (single.executeLine "only !").1 = .error e) ∧
    single.graph.visibleNodes true = ["a"] ∧
    (single.executeLine "only !").2.graph.visibleNodes true = [] := by
  obtain ⟨q, line⟩ := executeLine_only_bang
  rw [line]
  refine ⟨⟨_, rfl⟩, by decide +kernel, ?_⟩
  show (single.graph.setDefault false).visibleNodes true = []
  decide +kernel

end Session

end CallAtlas
