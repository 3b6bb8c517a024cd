import CallAtlas.Proofs.Session.Execution
/-!
Lines and what they execute. A line sources nothing, or a file that is refused, or a file whose lines are
executed one level deeper. Main statements: `run_induction`, the induction that follows these cases;
`lasting_depth`, every run ends as deep as it began; `mem_executions_of_mem_inside`, what a line that is
executed executes is executed; and `run_of_keeps`, files that no command writes are run as the lines that
were in them at the start.
-/
namespace CallAtlas.Session

variable {run : FileRunner} {s : Session} {r : Reader} {script rest : Script}
variable {line path : String} {room : Nat}

def turnsOf (s : Session) (path : String) : List Turn := turnsWithin (maxDepth - s.depth) path s

def executionsOf (s : Session) (path : String) : List Execution :=
  executionsWithin (maxDepth - s.depth) path s

namespace Execution

def fails (x : Execution) : Bool := !(x.session.executeLine x.line).1.isOk

/-- The line sources a file from which a line is read that is not text. -/
def BreaksOff (x : Execution) : Prop :=
  ∃ path, sourced? x.line = some path ∧ none ∈ (x.session.turnsOf path).map Turn.line

def inside (x : Execution) : List Execution := (sourced? x.line).elim [] x.session.executionsOf

def Keeps (x : Execution) : Prop :=
  sourced? x.line = none → (x.session.executeLine x.line).2.files = x.session.files

end Execution

theorem sourceWithin_of_missing (missing : s.files.open? path = none) (h : room ≠ 0) :
    sourceWithin room path s = (.error (.bare (.unreadable path)), s) := by
  obtain ⟨room, rfl⟩ := Nat.exists_eq_succ_of_ne_zero h
  rw [sourceWithin, missing]

theorem executionsWithin_of_turns (nothing : turnsWithin room path s = []) :
    executionsWithin room path s = [] := by
  cases room with
  | zero => rfl
  | succ room => rw [executionsWithin, nothing, List.flatMap_nil]

theorem turnsWithin_of_missing (missing : s.files.open? path = none) : turnsWithin room path s = [] := by
  cases room with
  | zero => rfl
  | succ room => rw [turnsWithin, missing]

theorem turnsWithin_of_open (opened : s.files.open? path = some r) : turnsWithin (room + 1) path s =
    turnsWith (sourceWithin room) (.file r) { s with depth := s.depth + 1 } := by
  rw [turnsWithin, opened]

theorem executionsWithin_of_open (opened : s.files.open? path = some r) :
    executionsWithin (room + 1) path s = executionsWith (sourceWithin room) (executionsWithin room)
      (.file r) { s with depth := s.depth + 1 } := by
  rw [executionsWithin, turnsWithin_of_open opened]
  rfl

theorem line_cases (room : Nat) (s : Session) (line : String) :
    sourced? line = none ∨
    (∃ path cause, sourced? line = some path ∧ sourceWithin room path s = (.error (.bare cause), s) ∧
      turnsWithin room path s = []) ∨
    ∃ below path r, room = below + 1 ∧ sourced? line = some path ∧ s.files.open? path = some r := by
  cases sourced : sourced? line with
  | none => exact .inl rfl
  | some path =>
    cases room with
    | zero => exact .inr (.inl ⟨path, _, rfl, rfl, rfl⟩)
    | succ room =>
      cases opened : s.files.open? path with
      | none =>
        exact .inr (.inl ⟨path, _, rfl, sourceWithin_of_missing opened (Nat.succ_ne_zero room),
          turnsWithin_of_missing opened⟩)
      | some r => exact .inr (.inr ⟨room, path, r, rfl, rfl, opened⟩)

/-- A file has less room than the line that sources it, and a script becomes shorter. -/
theorem run_induction {motive : Nat → Script → Session → Prop}
    (ended : ∀ room script s, script.next? s.files = none → motive room script s)
    (broken : ∀ room script rest s, script.next? s.files = some (none, rest) → motive room script s)
    (line : ∀ room script line rest s, script.next? s.files = some (some line, rest) →
      (∀ below path r, room = below + 1 → sourced? line = some path → s.files.open? path = some r →
        motive below (.file r) { s with depth := s.depth + 1 }) →
      motive room rest (lineOutcome (sourceWithin room) line s).2 → motive room script s)
    (room : Nat) (script : Script) (s : Session) : motive room script s := by
  induction room using Nat.strongRecOn generalizing script s with
  | ind room inner =>
    induction script, s using script_induction (sourceWithin room) with
    | ended script s next => exact ended room script s next
    | broken script rest s next => exact broken room script rest s next
    | line script first rest s next ih =>
      refine line room script first rest s next (fun below _ r size _ _ => ?_) ih
      exact inner below (by omega) (.file r) { s with depth := s.depth + 1 }

theorem depth_executeLineWith (files : ∀ path (s : Session), (run path s).2.depth = s.depth)
    (line : String) : (s.executeLineWith run line).2.depth = s.depth := by
  cases sourced : sourced? line with
  | none => exact (placed_executeLineWith run s sourced).1
  | some path =>
    have ran := files path s
    rw [executeLineWith_of_sourced sourced]
    revert ran
    cases run path s with
    | mk result s' => cases result <;> exact id

theorem lasting_depth : Lasting fun s s' => s'.depth = s.depth where
  refl _ := rfl
  trans first later := later.trans first
  line files line _ := depth_executeLineWith files line
  deeper back := congrArg (· - 1) back

theorem depth_lineOutcome (room : Nat) (line : String) (s : Session) :
    (lineOutcome (sourceWithin room) line s).2.depth = s.depth := by
  rw [lineOutcome, settle_snd]
  exact depth_executeLineWith (lasting_depth.sourceWithin room) line

theorem unreported_lineOutcome (run : FileRunner) (line : String) (s : Session) :
    (lineOutcome run line s).2.unreported = 0 := by
  rw [lineOutcome, settle_snd]

theorem sourceWithin_of_open (room : Nat) (opened : s.files.open? path = some r) :
    (sourceWithin (room + 1) path s).1.mapError Failure.cause =
        (outcome (sourceWithin room) (.file r) { s with depth := s.depth + 1 }).1 ∧
      (sourceWithin (room + 1) path s).2 =
        (outcome (sourceWithin room) (.file r) { s with depth := s.depth + 1 }).2.placed s.depth
          (outcome (sourceWithin room) (.file r) { s with depth := s.depth + 1 }).2.unreported := by
  have deeper := lasting_depth.runWith (lasting_depth.sourceWithin room) 0 0 (.file r)
    { s with depth := s.depth + 1 }
  rw [sourceWithin, opened]
  unfold outcome
  dsimp only
  revert deeper
  cases runWith (sourceWithin room) 0 0 (.file r) { s with depth := s.depth + 1 } with
  | mk result s' =>
    intro deeper
    have back : s'.depth - 1 = s.depth := congrArg (· - 1) deeper
    constructor
    · cases result with
      | ok => rfl
      | error e => exact congrArg Except.error (cause_ofFile path e)
    · dsimp only
      rw [back]
      rfl

theorem outcome_of_ok {n : Nat} (next : script.next? s.files = some (some line, rest))
    (first : (lineOutcome run line s).1 = .ok n) :
    outcome run script s = ((outcome run rest (lineOutcome run line s).2).1.map (n + ·),
      (outcome run rest (lineOutcome run line s).2).2) := by
  rw [outcome_of_line next]
  revert first
  obtain ⟨cause | m, s'⟩ := lineOutcome run line s
  · nofun
  · rintro ⟨⟩
    rfl

theorem map_eq_ok_iff {ε : Type} {x : Except ε Nat} {n m : Nat} :
    x.map (n + ·) = .ok m ↔ ∃ k, x = .ok k ∧ m = n + k := by
  cases x <;> simp [Except.map, eq_comm]

theorem executeLine_eq (top : maxDepth - s.depth = room) (line : String) :
    s.executeLine line = s.executeLineWith (sourceWithin room) line := by
  rw [← top]
  rfl

theorem Execution.inside_eq (top : maxDepth - s.depth = room) (line : String) :
    Execution.inside ⟨s, line⟩ = (sourced? line).elim [] (executionsWithin room · s) := by
  rw [← top]
  rfl

theorem breaksOff_iff (top : maxDepth - s.depth = room + 1) (sourced : sourced? line = some path)
    (opened : s.files.open? path = some r) : Execution.BreaksOff ⟨s, line⟩ ↔
      none ∈ (turnsWith (sourceWithin room) (.file r) { s with depth := s.depth + 1 }).map Turn.line := by
  simp only [Execution.BreaksOff, sourced, Option.some.injEq, exists_eq_left', turnsOf, top,
    turnsWithin_of_open opened]

theorem Execution.BreaksOff.fails {x : Execution} (h : x.BreaksOff) : x.fails = true := by
  obtain ⟨s, line⟩ := x
  obtain ⟨path, sourced, broken⟩ := h
  rw [Execution.fails, executeLine, executeLineWith_of_sourced sourced]
  change none ∈ (turnsWithin (maxDepth - s.depth) path s).map Turn.line at broken
  cases top : maxDepth - s.depth with
  | zero => rfl
  | succ room =>
    rw [top] at broken
    cases opened : s.files.open? path with
    | none =>
      rw [sourceWithin_of_missing opened (Nat.succ_ne_zero room)]
      rfl
    | some r =>
      rw [turnsWithin_of_open opened] at broken
      have text := (sourceWithin_of_open room opened).1
      revert text
      obtain ⟨e | n, s'⟩ := sourceWithin (room + 1) path s
      · exact fun _ => rfl
      · exact fun text => absurd broken (text_of_outcome text.symm)

theorem unreported_outcome (run : FileRunner) (inner : String → Session → List Execution)
    (script : Script) (s : Session) : (outcome run script s).2.unreported =
      if executionsWith run inner script s = [] then s.unreported else 0 := by
  induction script, s using script_induction run with
  | ended script s next =>
    rw [outcome_of_end next, executionsWith_of_end next]
    rfl
  | broken script rest s next =>
    rw [outcome_of_broken next, executionsWith_of_broken next]
    rfl
  | line script line rest s next ih =>
    have taken := unreported_lineOutcome run line s
    rw [executionsWith_of_line next, if_neg (List.cons_ne_nil _ _), outcome_of_line next]
    revert taken ih
    obtain ⟨cause | n, s'⟩ := lineOutcome run line s
    · exact fun _ taken => taken
    · intro ih taken
      have taken : s'.unreported = 0 := taken
      show (outcome run rest s').2.unreported = 0
      rw [ih, taken, ite_self]

theorem unreported_outcome_eq_zero (run : FileRunner) (script : Script) (none_left : s.unreported = 0) :
    (outcome run script s).2.unreported = 0 := by
  rw [unreported_outcome run (fun _ _ => []), none_left, ite_self]

theorem inner_cases (room : Nat) (s : Session) (line : String) :
    (sourced? line).elim [] (executionsWithin room · s) = [] ∨
    ∃ below path r, room = below + 1 ∧ sourced? line = some path ∧ s.files.open? path = some r ∧
      (sourced? line).elim [] (executionsWithin room · s) =
        executionsWith (sourceWithin below) (executionsWithin below) (.file r)
          { s with depth := s.depth + 1 } := by
  rcases line_cases room s line with alone | ⟨path, cause, sourced, -, nothing⟩ |
    ⟨below, path, r, rfl, sourced, opened⟩
  · exact .inl (by rw [alone]; rfl)
  · refine .inl ?_
    rw [sourced]
    exact executionsWithin_of_turns nothing
  · refine .inr ⟨below, path, r, rfl, sourced, opened, ?_⟩
    rw [sourced]
    exact executionsWithin_of_open opened

theorem mem_executions_of_mem_inside (top : maxDepth - s.depth = room) {x y : Execution}
    (hx : x ∈ executionsWith (sourceWithin room) (executionsWithin room) script s)
    (hy : y ∈ x.inside) : y ∈ executionsWith (sourceWithin room) (executionsWithin room) script s := by
  induction room, script, s using run_induction with
  | ended room script s next =>
    rw [executionsWith_of_end next] at hx
    cases hx
  | broken room script rest s next =>
    rw [executionsWith_of_broken next] at hx
    cases hx
  | line room script line rest s next inner ih =>
    rw [executionsWith_of_line next] at hx ⊢
    rcases List.mem_cons.mp hx with rfl | hx
    · rw [Execution.inside_eq top] at hy
      exact List.mem_cons_of_mem _ (List.mem_append_left _ hy)
    · refine List.mem_cons_of_mem _ ?_
      rcases List.mem_append.mp hx with hx | hx
      · refine List.mem_append_left _ ?_
        rcases inner_cases room s line with nothing | ⟨below, path, r, rfl, sourced, opened, same⟩
        · rw [nothing] at hx
          cases hx
        · rw [same] at hx ⊢
          have deeper : maxDepth - (s.depth + 1) = below := by omega
          exact inner below path r rfl sourced opened deeper hx
      · refine List.mem_append_right _ ?_
        split at hx
        · rw [if_pos ‹_›]
          exact ih (by rw [depth_lineOutcome]; exact top) hx
        · cases hx

theorem files_outcome (top : maxDepth - s.depth = room)
    (keeps : ∀ x ∈ executionsWith (sourceWithin room) (executionsWithin room) script s, x.Keeps) :
    (outcome (sourceWithin room) script s).2.files = s.files := by
  induction room, script, s using run_induction with
  | ended room script s next => rw [outcome_of_end next]
  | broken room script rest s next => rw [outcome_of_broken next]
  | line room script line rest s next inner ih =>
    rw [executionsWith_of_line next, List.forall_mem_cons, List.forall_mem_append] at keeps
    obtain ⟨here, within, later⟩ := keeps
    have first : (lineOutcome (sourceWithin room) line s).2.files = s.files := by
      rw [lineOutcome, settle_snd]
      show (s.executeLineWith (sourceWithin room) line).2.files = s.files
      rcases line_cases room s line with alone | ⟨path, cause, sourced, ran, -⟩ |
        ⟨below, path, r, rfl, sourced, opened⟩
      · rw [← executeLine_eq top]
        exact here alone
      · rw [executeLineWith_of_sourced sourced, ran]
        rfl
      · rw [sourced] at within
        change ∀ x ∈ executionsWithin (below + 1) path s, x.Keeps at within
        rw [executionsWithin_of_open opened] at within
        have deeper : maxDepth - (s.depth + 1) = below := by omega
        have kept := inner below path r rfl sourced opened deeper within
        have session := congrArg Session.files (sourceWithin_of_open below opened).2
        rw [executeLineWith_of_sourced sourced]
        revert session
        obtain ⟨_ | _, s'⟩ := sourceWithin (below + 1) path s
        · exact fun session => session.trans kept
        · exact fun session => session.trans kept
    have level := depth_lineOutcome room line s
    rw [outcome_of_line next]
    revert first level later ih
    obtain ⟨cause | n, s'⟩ := lineOutcome (sourceWithin room) line s
    · exact fun _ _ first _ => first
    · exact fun ih later first level =>
        (ih ((congrArg (maxDepth - ·) level).trans top) later).trans first

theorem files_lineOutcome (top : maxDepth - s.depth = room) (here : Execution.Keeps ⟨s, line⟩)
    (within : ∀ x ∈ (sourced? line).elim [] (executionsWithin room · s), x.Keeps) :
    (lineOutcome (sourceWithin room) line s).2.files = s.files := by
  rw [← outcome_singleton]
  refine files_outcome top ?_
  rw [executionsWith_singleton, List.forall_mem_cons]
  exact ⟨here, within⟩

theorem prefix_turnsWith (run : FileRunner) (lines : List Line) (s : Session) :
    (turnsWith run (.lines lines) s).map Turn.line <+: lines := by
  induction lines generalizing s with
  | nil =>
    rw [turnsWith_of_end (Script.next?_nil s.files)]
    exact List.nil_prefix
  | cons line rest ih =>
    cases line with
    | none =>
      rw [turnsWith_of_broken (Script.next?_cons s.files none rest)]
      exact ⟨rest, rfl⟩
    | some line =>
      rw [turnsWith_of_line (Script.next?_cons s.files (some line) rest), List.map_cons]
      refine List.prefix_cons_inj _ |>.mpr ?_
      split
      · exact ih _
      · exact List.nil_prefix

/-- A script is run as it was at the start if no command that is executed writes a file. -/
theorem run_of_keeps (top : maxDepth - s.depth = room)
    (keeps : ∀ x ∈ executionsWith (sourceWithin room) (executionsWithin room) script s, x.Keeps) :
    (∀ n failures, runWith (sourceWithin room) n failures script s =
        runWith (sourceWithin room) n failures (.lines (script.left s.files)) s) ∧
      turnsWith (sourceWithin room) script s =
        turnsWith (sourceWithin room) (.lines (script.left s.files)) s := by
  induction script, s using script_induction (sourceWithin room) with
  | ended script s next =>
    have given := Script.next?_nil s.files
    rw [Script.left_of_next?_eq_none next, turnsWith_of_end next, turnsWith_of_end given]
    exact ⟨fun n failures => by rw [runWith_of_end next, runWith_of_end given], rfl⟩
  | broken script rest s next =>
    have given := Script.next?_cons s.files none (rest.left s.files)
    rw [Script.left_of_next? next, turnsWith_of_broken next, turnsWith_of_broken given]
    exact ⟨fun n failures => by rw [runWith_of_broken next, runWith_of_broken given], rfl⟩
  | line script line rest s next ih =>
    rw [executionsWith_of_line next, List.forall_mem_cons, List.forall_mem_append] at keeps
    obtain ⟨here, within, later⟩ := keeps
    have files := files_lineOutcome top here within
    have given := Script.next?_cons s.files (some line) (rest.left s.files)
    have later (ok : (lineOutcome (sourceWithin room) line s).1.isOk = true) := by
      rw [if_pos ok] at later
      have same := ih (by rw [depth_lineOutcome]; exact top) later
      rwa [files] at same
    rw [Script.left_of_next? next, turnsWith_of_line next, turnsWith_of_line given]
    refine ⟨runWith_congr next given fun ok => (later ok).1, congrArg _ ?_⟩
    split
    · exact (later ‹_›).2
    · rfl

theorem outcome_of_keeps (top : maxDepth - s.depth = room)
    (keeps : ∀ x ∈ executionsWith (sourceWithin room) (executionsWithin room) script s, x.Keeps) :
    outcome (sourceWithin room) script s = outcome (sourceWithin room) (.lines (script.left s.files)) s := by
  rw [outcome, outcome, (run_of_keeps top keeps).1]

end CallAtlas.Session
