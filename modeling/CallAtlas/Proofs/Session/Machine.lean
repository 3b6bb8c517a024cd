import CallAtlas.Proofs.Session.Nesting
import Mathlib.Logic.Relation
/-!
Scripts run by a machine that goes on line by line. A script that sources a file waits on a stack until the
file has been run, and the only bound is the depth that the session counts. Main statements:
`Machine.runs`, the machine comes to what the recursive definitions say, whatever waits on the stack;
`Machine.InBounds.step` and `Machine.InBounds.reaches`, the session counts the files on the stack; and
`endsWithin_maxDepth`, every script and every file comes to an end.
-/
namespace CallAtlas.Session

structure Progress where
  /-- where the script came from, if it was sourced -/
  file : Option String
  /-- what is left of it -/
  script : Script
  ran : Nat
  failures : Nat

inductive Control where
  /-- run the next line of a script -/
  | run (p : Progress)
  /-- open a file -/
  | call (path : String)
  /-- tell the script that waits -/
  | done (result : Except Failure Nat)

def Control.progress : Control → List Progress
  | run p => [p]
  | call _ => []
  | done _ => []

/-- A session, its next step, and the scripts that wait for what comes of it. -/
structure Machine where
  session : Session
  control : Control
  below : List Progress

def leave (file : Option String) (r : Except Failure Nat × Session) : Except Failure Nat × Session :=
  match file with
  | none => r
  | some path => (r.1.mapError (.ofFile path), { r.2 with depth := r.2.depth - 1 })

namespace Machine

def finish (below : List Progress) (r : Except Failure Nat × Session) : Machine :=
  ⟨r.2, .done r.1, below⟩

/-- Go on after a line, or end the script with its failure if the settings say so. -/
def proceed (p : Progress) (below : List Progress) : Except Failure Unit × Session → Machine
  | (result, s) =>
    let failures := p.failures + s.unreported
    let s := { s with unreported := 0 }
    match result with
    | .ok () => ⟨s, .run { p with ran := p.ran + 1, failures }, below⟩
    | .error e =>
      if s.settings.stopOnError then finish below (leave p.file (.error (e.onLine (p.ran + 1)), s))
      else ⟨s, .run { p with ran := p.ran + 1, failures := failures + 1 }, below⟩

def step : Machine → Option Machine
  | ⟨s, .run p, below⟩ =>
    match p.script.next? s.files with
    | none => some (finish below (leave p.file (.ok p.failures, s)))
    | some (none, _) => some (finish below (leave p.file (.error (.bare .notText), s)))
    | some (some line, rest) =>
      match sourced? line with
      | some path => some ⟨s, .call path, { p with script := rest } :: below⟩
      | none => some (proceed { p with script := rest } below (s.executeLineWith (sourceWithin 0) line))
  | ⟨s, .call path, below⟩ =>
    if maxDepth ≤ s.depth then some (finish below (.error (.bare (.tooDeep path)), s))
    else
      match s.files.open? path with
      | none => some (finish below (.error (.bare (.unreadable path)), s))
      | some r => some ⟨{ s with depth := s.depth + 1 }, .run ⟨some path, .file r, 0, 0⟩, below⟩
  | ⟨s, .done result, p :: below⟩ => some (proceed p below (included (result, s)))
  | ⟨_, .done _, []⟩ => none

abbrev Reaches : Machine → Machine → Prop := Relation.ReflTransGen fun m m' => m.step = some m'

def nesting (m : Machine) : Nat := (m.control.progress ++ m.below).countP (·.file.isSome)

/-- The session counts the files on the stack besides those that were being sourced at the start, and there
are no more than it allows. -/
structure InBounds (base : Nat) (m : Machine) : Prop where
  depth_eq : m.session.depth = base + m.nesting
  nesting_le : m.nesting ≤ maxDepth - base

/-- The machine comes to one end, and on the way nests so many files at most. -/
structure EndsWithin (bound : Nat) (start : Machine) (r : Except Failure Nat × Session) : Prop where
  terminates : Acc (fun m' m => m.step = some m') start
  ends : ∀ m, start.Reaches m → m.step = none → m = finish [] r
  nesting_le : ∀ m, start.Reaches m → m.nesting ≤ bound
  depth_eq : ∀ m, start.Reaches m → m.session.depth = start.session.depth + m.nesting
  restored : r.2.depth = start.session.depth

variable {s : Session} {m m' : Machine} {p : Progress} {below : List Progress}
variable {line path : String} {base room : Nat} {script rest : Script}

/-- The machine runs this as the definitions do, for any script it is of and whatever waits. -/
def Runs (room : Nat) (script : Script) (s : Session) : Prop :=
  maxDepth - s.depth = room → ∀ file n failures below,
    Reaches ⟨s, .run ⟨file, script, n, failures⟩, below⟩
      (finish below (leave file (runWith (sourceWithin room) n failures script s)))

theorem sourceWithin_eq_leave {r : Reader} (opened : s.files.open? path = some r) :
    sourceWithin (room + 1) path s = leave (some path)
      (runWith (sourceWithin room) 0 0 (.file r) { s with depth := s.depth + 1 }) := by
  rw [sourceWithin, opened]
  rfl

theorem reaches_of_call (top : maxDepth - s.depth = room)
    (inner : ∀ smaller r, room = smaller + 1 → s.files.open? path = some r →
      Runs smaller (.file r) { s with depth := s.depth + 1 }) :
    Reaches ⟨s, .call path, below⟩ (finish below (sourceWithin room path s)) := by
  cases room with
  | zero =>
    have deep : maxDepth ≤ s.depth := by omega
    exact .single (if_pos deep)
  | succ room =>
    have shallow : ¬ maxDepth ≤ s.depth := by omega
    cases opened : s.files.open? path with
    | none =>
      rw [sourceWithin_of_missing opened (Nat.succ_ne_zero room)]
      refine .single ?_
      rw [step, if_neg shallow, opened]
    | some r =>
      have begun : step ⟨s, .call path, below⟩ = some ⟨{ s with depth := s.depth + 1 },
          .run ⟨some path, .file r, 0, 0⟩, below⟩ := by
        rw [step, if_neg shallow, opened]
      rw [sourceWithin_eq_leave opened]
      refine .head begun (inner room r rfl opened ?_ (some path) 0 0 below)
      show maxDepth - (s.depth + 1) = room
      omega

theorem reaches_of_proceed (next : script.next? s.files = some (some line, rest))
    (top : maxDepth - s.depth = room) (later : Runs room rest (lineOutcome (sourceWithin room) line s).2)
    (file : Option String) (n failures : Nat) (below : List Progress) :
    Reaches (proceed ⟨file, rest, n, failures⟩ below (s.executeLineWith (sourceWithin room) line))
      (finish below (leave file (runWith (sourceWithin room) n failures script s))) := by
  have goesOn := later (by rw [depth_lineOutcome]; exact top) file
  rw [lineOutcome, settle_snd] at goesOn
  rw [runWith_of_line next]
  revert goesOn
  obtain ⟨e | ⟨⟩, s'⟩ := s.executeLineWith (sourceWithin room) line
  · intro goesOn
    unfold proceed
    dsimp only
    split
    · exact .refl
    · exact goesOn _ _ below
  · exact fun goesOn => goesOn _ _ below

theorem executeLineWith_of_alone (alone : sourced? line = none) (run run' : FileRunner) (s : Session) :
    s.executeLineWith run line = s.executeLineWith run' line := by
  have placed (other : FileRunner) : (s.placed s.depth s.unreported).executeLineWith other line =
      ((s.executeLineWith run line).1, (s.executeLineWith run line).2.placed s.depth s.unreported) :=
    executeLineWith_placed alone
  exact (placed run).trans (placed run').symm

/-- A file is run like a script, with the script that sources it on top of the stack. -/
theorem runs (room : Nat) (script : Script) (s : Session) : Runs room script s := by
  induction room, script, s using run_induction with
  | ended room script s next =>
    intro _ file n failures below
    rw [runWith_of_end next]
    refine .single ?_
    simp only [step, next]
  | broken room script rest s next =>
    intro _ file n failures below
    rw [runWith_of_broken next]
    refine .single ?_
    simp only [step, next]
  | line room script line rest s next inner later =>
    intro top file n failures below
    have goesOn := reaches_of_proceed next top later file n failures below
    cases sourced : sourced? line with
    | none =>
      rw [executeLineWith_of_alone sourced _ (sourceWithin 0)] at goesOn
      refine .head ?_ goesOn
      simp only [step, next, sourced]
    | some path =>
      -- the line takes three stretches: open the file, run it, hand its result to the script that waits
      rw [executeLineWith_of_sourced sourced] at goesOn
      have called : step ⟨s, .run ⟨file, script, n, failures⟩, below⟩ =
          some ⟨s, .call path, ⟨file, rest, n, failures⟩ :: below⟩ := by
        simp only [step, next, sourced]
      have ran : Reaches ⟨s, .call path, ⟨file, rest, n, failures⟩ :: below⟩ _ :=
        reaches_of_call top fun smaller r size opened => inner smaller path r size sourced opened
      refine .head called (ran.trans (.head ?_ goesOn))
      rfl

theorem nesting_run (s : Session) (p : Progress) (below : List Progress) :
    nesting ⟨s, .run p, below⟩ = below.countP (·.file.isSome) + if p.file.isSome then 1 else 0 :=
  List.countP_cons

theorem InBounds.leave (h : InBounds base ⟨s, .run p, below⟩) (result : Except Failure Nat) :
    InBounds base (finish below (Session.leave p.file (result, s))) := by
  have depth : s.depth = base + nesting ⟨s, .run p, below⟩ := h.depth_eq
  have bound := h.nesting_le
  rw [nesting_run] at depth bound
  cases file : p.file with
  | none =>
    rw [file] at depth bound
    exact ⟨depth, bound⟩
  | some path =>
    rw [file] at depth bound
    have depth : s.depth = base + (below.countP (·.file.isSome) + 1) := depth
    have bound : below.countP (·.file.isSome) + 1 ≤ maxDepth - base := bound
    exact ⟨show s.depth - 1 = base + below.countP _ by omega, Nat.le_of_succ_le bound⟩

theorem InBounds.proceed {result : Except Failure Unit} (h : InBounds base ⟨s, .run p, below⟩) :
    InBounds base (proceed p below (result, s)) := by
  have counted : InBounds base ⟨{ s with unreported := 0 }, .run p, below⟩ := ⟨h.depth_eq, h.nesting_le⟩
  unfold Machine.proceed
  dsimp only
  split
  · exact ⟨counted.depth_eq, counted.nesting_le⟩
  · split
    · exact counted.leave _
    · exact ⟨counted.depth_eq, counted.nesting_le⟩

theorem InBounds.step (h : InBounds base m) (next : m.step = some m') : InBounds base m' := by
  obtain ⟨s, control, below⟩ := m
  cases control with
  | run p =>
    obtain ⟨file, script, ran, failures⟩ := p
    cases taken : script.next? s.files with
    | none =>
      simp only [Machine.step, taken, Option.some.injEq] at next
      subst next
      exact h.leave _
    | some head =>
      obtain ⟨_ | line, rest⟩ := head
      · simp only [Machine.step, taken, Option.some.injEq] at next
        subst next
        exact h.leave _
      · cases sourced : sourced? line with
        | some path =>
          simp only [Machine.step, taken, sourced, Option.some.injEq] at next
          subst next
          exact ⟨h.depth_eq, h.nesting_le⟩
        | none =>
          simp only [Machine.step, taken, sourced, Option.some.injEq] at next
          subst next
          have same := (placed_executeLineWith (sourceWithin 0) s sourced).1
          have still : InBounds base ⟨(s.executeLineWith (sourceWithin 0) line).2,
              .run ⟨file, rest, ran, failures⟩, below⟩ := ⟨same.trans h.depth_eq, h.nesting_le⟩
          exact still.proceed
  | call path =>
    rw [Machine.step] at next
    split at next
    · cases next
      exact ⟨h.depth_eq, h.nesting_le⟩
    · next shallow =>
      split at next
      · cases next
        exact ⟨h.depth_eq, h.nesting_le⟩
      · cases next
        have depth : s.depth = base + below.countP (·.file.isSome) := h.depth_eq
        refine ⟨?_, ?_⟩
        · rw [nesting_run]
          exact congrArg (· + 1) depth
        · rw [nesting_run]
          show below.countP _ + 1 ≤ maxDepth - base
          omega
  | done result =>
    cases below with
    | nil => cases next
    | cons p below =>
      cases next
      have waited : InBounds base ⟨(included (result, s)).2, .run p, below⟩ := by
        cases result <;> exact ⟨h.depth_eq, h.nesting_le⟩
      exact waited.proceed

theorem InBounds.reaches (h : InBounds base m) (reached : m.Reaches m') : InBounds base m' := by
  induction reached with
  | refl => exact h
  | tail _ next ih => exact ih.step next

theorem eq_of_reaches (stopped : m.step = none) (reached : m.Reaches m') : m' = m := by
  cases reached.cases_head with
  | inl same => exact same.symm
  | inr moved =>
    obtain ⟨m'', next, -⟩ := moved
    rw [stopped] at next
    cases next

theorem acc_of_reaches (stopped : m'.step = none) (reached : m.Reaches m') :
    Acc (fun m' m : Machine => m.step = some m') m := by
  induction reached using Relation.ReflTransGen.head_induction_on with
  | refl =>
    refine ⟨_, fun m next => ?_⟩
    rw [stopped] at next
    cases next
  | head next _ ih =>
    refine ⟨_, fun m other => ?_⟩
    cases next.symm.trans other
    exact ih

theorem endsWithin_of_reaches {r : Except Failure Nat × Session} (flat : m.nesting = 0)
    (reached : m.Reaches (finish [] r)) : EndsWithin (maxDepth - m.session.depth) m r := by
  have bounds : InBounds m.session.depth m :=
    ⟨by rw [flat]; rfl, by rw [flat]; exact Nat.zero_le _⟩
  constructor
  case terminates => exact acc_of_reaches rfl reached
  case ends =>
    intro m' there stopped
    have unique : Relator.RightUnique fun m m' : Machine => m.step = some m' :=
      fun _ _ _ first second => Option.some.inj (first.symm.trans second)
    rcases Relation.ReflTransGen.total_of_right_unique unique there reached with later | later
    · exact (eq_of_reaches stopped later).symm
    · exact eq_of_reaches rfl later
  case nesting_le => exact fun m' there => (bounds.reaches there).nesting_le
  case depth_eq => exact fun m' there => (bounds.reaches there).depth_eq
  case restored => exact (bounds.reaches reached).depth_eq

end Machine

/-- Whatever files source, themselves included, and whatever is written to them meanwhile, a script and a file
come to an end, with failures or without. On the way no more files are nested than the depth at the start
leaves room for, and the depth at the end is the one at the start. -/
theorem endsWithin_maxDepth (s : Session) :
    (∀ lines, Machine.EndsWithin (maxDepth - s.depth) ⟨s, .run ⟨none, .lines lines, 0, 0⟩, []⟩
      (s.runScript lines)) ∧
    ∀ path, Machine.EndsWithin (maxDepth - s.depth) ⟨s, .call path, []⟩ (s.source path) := by
  constructor
  · intro lines
    exact Machine.endsWithin_of_reaches rfl (Machine.runs _ (.lines lines) s rfl none 0 0 [])
  · intro path
    refine Machine.endsWithin_of_reaches rfl (Machine.reaches_of_call rfl fun _ _ _ _ => ?_)
    exact Machine.runs _ _ _

end CallAtlas.Session
