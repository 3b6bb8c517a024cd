import CallAtlas.Proofs.Session.Inclusion
/-!
Where a script stops. Main statement: `stopsAt_first_failure`. If a failure ends a script, it is the last line
that was executed which failed; the failure tells where that line stands, and the session is what the lines
before it and that line have made of it.
-/
namespace CallAtlas.Session

/-- Where a line stands: in a file, or else in the script itself. -/
structure Place where
  file : Option String
  line : Nat
deriving DecidableEq, Repr

def Place.failure (p : Place) (cause : Cause) : Failure :=
  match p.file with
  | none => .atLine p.line cause
  | some path => .inFile path p.line cause

structure Step where
  place : Place
  execution : Execution

def Turn.steps (inner : String → Session → List Step) (place : Place) (turn : Turn) : List Step :=
  match turn.line with
  | none => []
  | some line => ⟨place, ⟨turn.session, line⟩⟩ :: (sourced? line).elim [] (inner · turn.session)

/-- What lines execute that are read one after the other; `n` lines were read before. -/
def stepsOf (inner : String → Session → List Step) (file : Option String) : Nat → List Turn → List Step
  | _, [] => []
  | n, turn :: turns => turn.steps inner ⟨file, n + 1⟩ ++ stepsOf inner file (n + 1) turns

def stepsWith (run : FileRunner) (inner : String → Session → List Step) (file : Option String) (n : Nat)
    (script : Script) (s : Session) : List Step :=
  stepsOf inner file n (turnsWith run script s)

def stepsWithin : (room : Nat) → String → Session → List Step
  | 0, _, _ => []
  | room + 1, path, s => stepsOf (stepsWithin room) (some path) 0 (turnsWithin (room + 1) path s)

def steps (s : Session) (lines : List Line) : List Step :=
  stepsWith (sourceWithin (maxDepth - s.depth)) (stepsWithin (maxDepth - s.depth)) none 0 (.lines lines) s

/-- The line is executed once more, unless it sources a file: that does nothing but what its lines do. -/
def redo (s : Session) (x : Execution) : Session :=
  if (sourced? x.line).isSome then s else (s.executeLine x.line).2

def redoAll (s : Session) (xs : List Execution) : Session := xs.foldl redo s

/-- A run ends with the failure of its last step. Whatever failed before did so because this step is in the
file that it sources. -/
structure StopsAt (s : Session) (before : List Step) (last : Step) (e : Failure) (s' : Session) : Prop where
  failed : ∃ cause, (last.execution.session.executeLine last.execution.line).1 = .error (.bare cause) ∧
    e = last.place.failure cause
  first : ∀ x ∈ before, x.execution.fails = true → last.execution ∈ x.execution.inside
  begun : last.execution.session.atTop = redoAll s.atTop (before.map Step.execution)
  ended : s'.atTop = (last.execution.session.executeLine last.execution.line).2.atTop

/-- A run goes on to its end if nothing fails, and otherwise ends with the first failure. -/
def HaltsAtFailure (s : Session) (steps : List Step) (r : Except Failure Nat × Session) : Prop :=
  match r with
  | (.ok _, _) => ∀ x ∈ steps, x.execution.fails = false
  | (.error e, s') => ∃ before last, steps = before ++ [last] ∧ StopsAt s before last e s'

/-- The step executes one of these lines of the file; `n` lines stand before them. -/
structure Step.Among (x : Step) (file : Option String) (n : Nat) (lines : List Line) (depth : Nat) :
    Prop where
  file : x.place.file = file
  line : ∃ k, lines[k]? = some (some x.execution.line) ∧ x.place.line = n + k + 1
  depth : x.execution.session.depth = depth

/-- The step executes a line of the file that the other line sources, not of one nested deeper. It is one of
those that are read from the file, and these are the first ones of its contents if no file is written. -/
def Step.SourcedBy (x : Step) (y : Execution) : Prop :=
  x.execution ∈ y.inside ∧ ∃ path contents, sourced? y.line = some path ∧
    y.session.files.read? path = some contents ∧
    x.Among (some path) 0 ((y.session.turnsOf path).map Turn.line) (y.session.depth + 1) ∧
    ((∀ z ∈ y.inside, z.Keeps) → (y.session.turnsOf path).map Turn.line <+: Lines.ofBytes contents)

def locate (file : Option String) (r : Except Failure Nat × Session) : Except Failure Nat × Session :=
  (r.1.mapError (file.elim id Failure.ofFile), r.2)

variable {s : Session} {r : Reader} {script rest : Script} {line path : String} {room n : Nat}

theorem stepsWith_of_end {run : FileRunner} (ended : script.next? s.files = none)
    (inner : String → Session → List Step) (file : Option String) (n : Nat) :
    stepsWith run inner file n script s = [] := by
  rw [stepsWith, turnsWith_of_end ended]
  rfl

theorem stepsWith_of_broken {run : FileRunner} (next : script.next? s.files = some (none, rest))
    (inner : String → Session → List Step) (file : Option String) (n : Nat) :
    stepsWith run inner file n script s = [] := by
  rw [stepsWith, turnsWith_of_broken next]
  rfl

theorem stepsWith_of_line {run : FileRunner} (next : script.next? s.files = some (some line, rest))
    (inner : String → Session → List Step) (file : Option String) (n : Nat) :
    stepsWith run inner file n script s =
      ⟨⟨file, n + 1⟩, ⟨s, line⟩⟩ :: ((sourced? line).elim [] (inner · s) ++
        if (lineOutcome run line s).1.isOk then
          stepsWith run inner file (n + 1) rest (lineOutcome run line s).2
        else []) := by
  rw [stepsWith, turnsWith_of_line next]
  split <;> rfl

theorem stepsWithin_of_open (opened : s.files.open? path = some r) :
    stepsWithin (room + 1) path s = stepsWith (sourceWithin room) (stepsWithin room) (some path) 0
      (.file r) { s with depth := s.depth + 1 } := by
  rw [stepsWithin, turnsWithin_of_open opened]
  rfl

theorem map_stepsOf {inner : String → Session → List Step} {inner' : String → Session → List Execution}
    (files : ∀ path s, (inner path s).map Step.execution = inner' path s) (file : Option String) (n : Nat)
    (turns : List Turn) :
    (stepsOf inner file n turns).map Step.execution = turns.flatMap (Turn.executions inner') := by
  induction turns generalizing n with
  | nil => rfl
  | cons turn turns ih =>
    rw [stepsOf, List.map_append, List.flatMap_cons, ih]
    refine congrArg (· ++ _) ?_
    unfold Turn.steps Turn.executions
    cases turn.line with
    | none => rfl
    | some line =>
      refine congrArg (List.cons _) ?_
      cases sourced? line with
      | none => rfl
      | some path => exact files path turn.session

theorem map_stepsWithin (room : Nat) (path : String) (s : Session) :
    (stepsWithin room path s).map Step.execution = executionsWithin room path s := by
  induction room generalizing path s with
  | zero => rfl
  | succ room ih => exact map_stepsOf ih (some path) 0 (turnsWithin (room + 1) path s)

theorem map_inner (room : Nat) (s : Session) (line : String) :
    ((sourced? line).elim [] (stepsWithin room · s)).map Step.execution =
      (sourced? line).elim [] (executionsWithin room · s) := by
  cases sourced? line with
  | none => rfl
  | some path => exact map_stepsWithin room path s

theorem stepsWithin_eq_nil (nothing : turnsWithin room path s = []) : stepsWithin room path s = [] :=
  List.map_eq_nil_iff.mp ((map_stepsWithin room path s).trans (executionsWithin_of_turns nothing))

theorem map_steps (s : Session) (lines : List Line) :
    (s.steps lines).map Step.execution = s.executions lines :=
  map_stepsOf (map_stepsWithin _) none 0 _

theorem Step.Among.tail {x : Step} {file : Option String} {lines : List Line} {depth : Nat}
    (h : x.Among file (n + 1) lines depth) (first : Line) : x.Among file n (first :: lines) depth := by
  obtain ⟨k, found, place⟩ := h.line
  exact ⟨h.file, ⟨k + 1, found, by omega⟩, h.depth⟩

theorem Step.Among.longer {x : Step} {file : Option String} {lines all : List Line} {depth : Nat}
    (h : x.Among file n lines depth) (first : lines <+: all) : x.Among file n all depth := by
  obtain ⟨k, found, place⟩ := h.line
  obtain ⟨more, rfl⟩ := first
  exact ⟨h.file, ⟨k, List.getElem?_append_left (List.getElem?_eq_some_iff.mp found).1 ▸ found, place⟩, h.depth⟩

theorem mem_stepsWithin {x : Step} (hx : x ∈ (sourced? line).elim [] (stepsWithin room · s)) :
    ∃ below path r, room = below + 1 ∧ sourced? line = some path ∧ s.files.open? path = some r ∧
      x ∈ stepsWith (sourceWithin below) (stepsWithin below) (some path) 0 (.file r)
        { s with depth := s.depth + 1 } := by
  rcases line_cases room s line with alone | ⟨path, cause, sourced, -, nothing⟩ |
    ⟨below, path, r, rfl, sourced, opened⟩
  · rw [alone] at hx
    cases hx
  · rw [sourced] at hx
    change x ∈ stepsWithin room path s at hx
    rw [stepsWithin_eq_nil nothing] at hx
    cases hx
  · rw [sourced] at hx
    change x ∈ stepsWithin (below + 1) path s at hx
    rw [stepsWithin_of_open opened] at hx
    exact ⟨below, path, r, rfl, sourced, opened, hx⟩

/-- The lines that are read from a file are the first ones of its contents if no file is written. -/
theorem prefix_turnsOf {contents : ByteArray} (read : s.files.read? path = some contents)
    (keeps : ∀ z ∈ s.executionsOf path, z.Keeps) :
    (s.turnsOf path).map Turn.line <+: Lines.ofBytes contents := by
  obtain ⟨r, opened, left⟩ := FileTree.open?_of_read? read
  unfold turnsOf
  unfold executionsOf at keeps
  cases top : maxDepth - s.depth with
  | zero => exact List.nil_prefix
  | succ room =>
    rw [top, executionsWithin_of_open opened] at keeps
    have below : maxDepth - (s.depth + 1) = room := by omega
    have same := (run_of_keeps (s := { s with depth := s.depth + 1 }) below keeps).2
    rw [turnsWithin_of_open opened, same, ← left]
    exact prefix_turnsWith _ _ _

theorem whole_of_steady (top : maxDepth - s.depth = room)
    (steady : ∀ x ∈ executionsWith (sourceWithin room) (executionsWithin room) script s, x.Steady) :
    ∀ x ∈ executionsWith (sourceWithin room) (executionsWithin room) script s, ¬ x.BreaksOff := by
  rintro x hx ⟨path, sourced, broken⟩
  cases read : x.session.files.read? path with
  | none =>
    rw [turnsOf, turnsWithin_of_missing (FileTree.open?_eq_none_iff.mpr read)] at broken
    cases broken
  | some contents =>
    have keeps : ∀ z ∈ x.session.executionsOf path, z.Keeps := by
      intro z hz
      refine (steady z (mem_executions_of_mem_inside top hx ?_)).files
      rw [Execution.inside, sourced]
      exact hz
    have found : included? x.session.files x.line = some (Lines.ofBytes contents) := by
      rw [included?, sourced, Option.bind_some, read]
      rfl
    exact Bool.false_ne_true ((steady x hx).text _ found none ((prefix_turnsOf read keeps).subset broken))

theorem sourcedBy_line (top : maxDepth - s.depth = room + 1) (sourced : sourced? line = some path)
    (opened : s.files.open? path = some r) {x : Step} (within : x.execution ∈ Execution.inside ⟨s, line⟩)
    (among : x.Among (some path) 0
      ((turnsWith (sourceWithin room) (.file r) { s with depth := s.depth + 1 }).map Turn.line)
      (s.depth + 1)) : x.SourcedBy ⟨s, line⟩ := by
  obtain ⟨contents, read, -⟩ := FileTree.read?_of_open? opened
  have turns : s.turnsOf path =
      turnsWith (sourceWithin room) (.file r) { s with depth := s.depth + 1 } := by
    rw [turnsOf, top, turnsWithin_of_open opened]
  refine ⟨within, path, contents, sourced, read, ?_, fun keeps => ?_⟩
  · rw [turns]
    exact among
  · refine prefix_turnsOf read ?_
    unfold Execution.inside at keeps
    rw [sourced] at keeps
    exact keeps

theorem among_or_sourcedBy (top : maxDepth - s.depth = room) (file : Option String) (n : Nat) {x : Step}
    (hx : x ∈ stepsWith (sourceWithin room) (stepsWithin room) file n script s) :
    x.Among file n ((turnsWith (sourceWithin room) script s).map Turn.line) s.depth ∨
      ∃ y ∈ executionsWith (sourceWithin room) (executionsWithin room) script s, x.SourcedBy y := by
  induction room, script, s using run_induction generalizing file n with
  | ended room script s next =>
    rw [stepsWith_of_end next] at hx
    cases hx
  | broken room script rest s next =>
    rw [stepsWith_of_broken next] at hx
    cases hx
  | line room script line rest s next inner ih =>
    rw [stepsWith_of_line next] at hx
    rw [executionsWith_of_line next, turnsWith_of_line next]
    rcases List.mem_cons.mp hx with rfl | hx
    · exact .inl ⟨rfl, ⟨0, rfl, rfl⟩, rfl⟩
    rcases List.mem_append.mp hx with hx | hx
    · refine .inr ?_
      have within : x.execution ∈ Execution.inside ⟨s, line⟩ := by
        rw [Execution.inside_eq top, ← map_inner]
        exact List.mem_map_of_mem hx
      obtain ⟨below, path, r, rfl, sourced, opened, hx⟩ := mem_stepsWithin hx
      have deeper : maxDepth - (s.depth + 1) = below := by omega
      rcases inner below path r rfl sourced opened deeper (some path) 0 hx with among | ⟨y, hy, by_y⟩
      · exact ⟨_, List.mem_cons_self, sourcedBy_line top sourced opened within among⟩
      · refine ⟨y, List.mem_cons_of_mem _ (List.mem_append_left _ ?_), by_y⟩
        rw [sourced]
        show y ∈ executionsWithin (below + 1) path s
        rw [executionsWithin_of_open opened]
        exact hy
    · split at hx
      · rw [if_pos ‹_›, if_pos ‹_›]
        rcases ih (by rw [depth_lineOutcome]; exact top) file (n + 1) hx with among | ⟨y, hy, by_y⟩
        · rw [depth_lineOutcome] at among
          exact .inl (among.tail _)
        · exact .inr ⟨y, List.mem_cons_of_mem _ (List.mem_append_right _ hy), by_y⟩
      · cases hx

theorem atTop_lineOutcome (run : FileRunner) (line : String) (s : Session) :
    (lineOutcome run line s).2.atTop = (s.executeLineWith run line).2.atTop := by
  rw [lineOutcome, settle_snd]
  rfl

theorem atTop_included (r : Except Failure Nat × Session) : (included r).2.atTop = r.2.atTop := by
  obtain ⟨_ | _, s⟩ := r <;> rfl

theorem redoAll_append (s : Session) (xs ys : List Execution) :
    redoAll s (xs ++ ys) = redoAll (redoAll s xs) ys :=
  List.foldl_append

theorem redo_of_alone (alone : sourced? line = none) : redo s.atTop ⟨s, line⟩ =
    (s.executeLineWith (sourceWithin room) line).2.atTop := by
  rw [redo, alone]
  exact congrArg Prod.snd (executeLineWith_placed (s := s) alone)

theorem redo_of_sourced (sourced : sourced? line = some path) (x : Session) :
    redo x ⟨s, line⟩ = x := by
  rw [redo, sourced]
  rfl

theorem atTop_outcome (room : Nat) (script : Script) (s : Session) :
    (outcome (sourceWithin room) script s).2.atTop =
      redoAll s.atTop (executionsWith (sourceWithin room) (executionsWithin room) script s) := by
  induction room, script, s using run_induction with
  | ended room script s next =>
    rw [outcome_of_end next, executionsWith_of_end next]
    rfl
  | broken room script rest s next =>
    rw [outcome_of_broken next, executionsWith_of_broken next]
    rfl
  | line room script line rest s next inner ih =>
    have first : (lineOutcome (sourceWithin room) line s).2.atTop = redoAll s.atTop
        (⟨s, line⟩ :: (sourced? line).elim [] (executionsWithin room · s)) := by
      rw [atTop_lineOutcome]
      rcases line_cases room s line with alone | ⟨path, cause, sourced, ran, nothing⟩ |
        ⟨room, path, r, rfl, sourced, opened⟩
      · rw [alone]
        exact (redo_of_alone alone).symm
      · rw [executeLineWith_of_sourced sourced, ran, sourced]
        show _ = redoAll (redo s.atTop ⟨s, line⟩) (executionsWithin room path s)
        rw [executionsWithin_of_turns nothing, redo_of_sourced sourced]
        rfl
      · rw [executeLineWith_of_sourced sourced, atTop_included, (sourceWithin_of_open room opened).2,
          sourced]
        show _ = redoAll (redo s.atTop ⟨s, line⟩) (executionsWithin (room + 1) path s)
        rw [redo_of_sourced sourced, executionsWithin_of_open opened]
        exact inner room path r rfl sourced opened
    rw [executionsWith_of_line next, ← List.cons_append, redoAll_append, ← first, outcome_of_line next]
    revert ih
    obtain ⟨cause | m, s'⟩ := lineOutcome (sourceWithin room) line s
    · exact fun _ => rfl
    · exact id

theorem bare_attempt {r : Except Cause Session} {e : Failure} (failed : (s.attempt r).1 = .error e) :
    ∃ cause, e = .bare cause := by
  cases r with
  | ok => cases failed
  | error cause =>
    cases failed
    exact ⟨cause, rfl⟩

theorem bare_executeWith {run : FileRunner} {command : Command} {e : Failure}
    (h : ∀ path, command ≠ .source path) (failed : (s.executeWith run command).1 = .error e) :
    ∃ cause, e = .bare cause := by
  cases command with
  | source path => exact absurd rfl (h path)
  | reset => cases failed
  | stats => cases failed
  | only => exact bare_attempt failed
  | node => exact bare_attempt failed
  | edge => exact bare_attempt failed
  | label => exact bare_attempt failed
  | hide => exact bare_attempt failed
  | keep => exact bare_attempt failed
  | callers => exact bare_attempt failed
  | callees => exact bare_attempt failed
  | labels => exact bare_attempt failed
  | paths => exact bare_attempt failed
  | save => exact bare_attempt failed
  | output => exact bare_attempt failed

theorem bare_of_alone {run : FileRunner} {e : Failure} (alone : sourced? line = none)
    (failed : (s.executeLineWith run line).1 = .error e) : ∃ cause, e = .bare cause := by
  unfold sourced? Command.ofLine? at alone
  unfold executeLineWith at failed
  cases split : Token.split line with
  | error =>
    rw [split] at failed
    cases failed
    exact ⟨_, rfl⟩
  | ok tokens =>
    rw [split] at alone failed
    cases tokens with
    | nil => cases failed
    | cons token tokens =>
      dsimp only at alone failed
      cases parsed : Command.ofTokens (token :: tokens) with
      | ok command =>
        rw [parsed] at alone failed
        refine bare_executeWith (fun path same => ?_) failed
        rw [same] at alone
        cases alone
      | error fault =>
        rw [parsed] at failed
        cases fault with
        | help => cases failed
        | _ =>
          cases failed
          exact ⟨_, rfl⟩

theorem Place.failure_eq_inFile {p : Place} {cause cause' : Cause} :
    p.failure cause = .inFile path n cause' ↔ p = ⟨some path, n⟩ ∧ cause = cause' := by
  obtain ⟨_ | _, _⟩ := p <;> simp [Place.failure, and_assoc]

theorem failure_of_bare (file : Option String) (n : Nat) (cause : Cause) :
    file.elim id Failure.ofFile ((Failure.bare cause).onLine n) = Place.failure ⟨file, n⟩ cause := by
  cases file <;> rfl

theorem failure_inFile (file : Option String) (n : Nat) {path : String} {line : Nat} {cause : Cause} :
    file.elim id Failure.ofFile ((Failure.inFile path line cause).onLine n) = .inFile path line cause := by
  cases file <;> rfl

theorem error_sourceWithin {e : Failure} (failed : (sourceWithin room path s).1 = .error e) :
    (∃ cause, e = .bare cause) ∨ ∃ file n cause, e = .inFile file n cause := by
  cases room with
  | zero =>
    cases failed
    exact .inl ⟨_, rfl⟩
  | succ room =>
    rw [sourceWithin] at failed
    split at failed
    · cases failed
      exact .inl ⟨_, rfl⟩
    · revert failed
      obtain ⟨inner | n, s'⟩ := runWith (sourceWithin room) 0 0 _ { s with depth := s.depth + 1 }
      · rintro ⟨⟩
        cases inner with
        | bare cause => exact .inl ⟨cause, rfl⟩
        | atLine n cause => exact .inr ⟨path, n, cause, rfl⟩
        | inFile file n cause => exact .inr ⟨file, n, cause, rfl⟩
      · rintro ⟨⟩

theorem HaltsAtFailure.ofFile (opened : s.files.open? path = some r)
    (h : HaltsAtFailure { s with depth := s.depth + 1 }
      (stepsWith (sourceWithin room) (stepsWithin room) (some path) 0 (.file r)
        { s with depth := s.depth + 1 })
      (locate (some path) (runWith (sourceWithin room) 0 0 (.file r) { s with depth := s.depth + 1 }))) :
    HaltsAtFailure s (stepsWithin (room + 1) path s) (sourceWithin (room + 1) path s) := by
  rw [stepsWithin_of_open opened, sourceWithin, opened]
  dsimp only
  revert h
  obtain ⟨e | n, s'⟩ := runWith (sourceWithin room) 0 0 (.file r) { s with depth := s.depth + 1 }
  · rintro ⟨before, last, same, stops⟩
    exact ⟨before, last, same, stops.failed, stops.first, stops.begun, stops.ended⟩
  · exact id

/-- What a line comes to: nothing fails, or the line fails by itself and executes nothing else, or its file
stops at a failure. -/
inductive LineHalts (room : Nat) (s : Session) (line : String) : Prop
  | succeeds (ended : (s.executeLineWith (sourceWithin room) line).1 = .ok ())
      (inner : ∀ x ∈ (sourced? line).elim [] (executionsWithin room · s), x.fails = false)
  | fails (cause : Cause) (failed : (s.executeLineWith (sourceWithin room) line).1 = .error (.bare cause))
      (nothing : (sourced? line).elim [] (stepsWithin room · s) = [])
  | stops (before : List Step) (last : Step) (path file : String) (n : Nat) (cause : Cause)
      (sourced : sourced? line = some path)
      (failed : (s.executeLineWith (sourceWithin room) line).1 = .error (.inFile file n cause))
      (inner : (sourced? line).elim [] (stepsWithin room · s) = before ++ [last])
      (stops : StopsAt s before last (.inFile file n cause)
        (s.executeLineWith (sourceWithin room) line).2)

theorem lineHalts (top : maxDepth - s.depth = room)
    (inner : ∀ below path r, room = below + 1 → sourced? line = some path →
      s.files.open? path = some r → HaltsAtFailure { s with depth := s.depth + 1 }
        (stepsWith (sourceWithin below) (stepsWithin below) (some path) 0 (.file r)
          { s with depth := s.depth + 1 })
        (locate (some path) (runWith (sourceWithin below) 0 0 (.file r)
          { s with depth := s.depth + 1 }))) : LineHalts room s line := by
  rcases line_cases room s line with alone | ⟨path, cause, sourced, ran, nothing⟩ |
    ⟨room, path, r, rfl, sourced, opened⟩
  · cases ended : (s.executeLineWith (sourceWithin room) line).1 with
    | ok => exact .succeeds ended (by rw [alone]; exact List.forall_mem_nil _)
    | error e =>
      obtain ⟨cause, rfl⟩ := bare_of_alone alone ended
      exact .fails cause ended (by rw [alone]; rfl)
  · refine .fails cause ?_ ?_
    · rw [executeLineWith_of_sourced sourced, ran]
      rfl
    · rw [sourced]
      exact stepsWithin_eq_nil nothing
  · have halts := HaltsAtFailure.ofFile opened (inner room path r rfl sourced opened)
    have located (e : Failure) : (sourceWithin (room + 1) path s).1 = .error e → _ := error_sourceWithin
    have line_eq : s.executeLineWith (sourceWithin (room + 1)) line =
      included (sourceWithin (room + 1) path s) := executeLineWith_of_sourced sourced
    revert halts located line_eq
    obtain ⟨e | n, s'⟩ := sourceWithin (room + 1) path s
    · rintro ⟨before, last, same, stops⟩ located line_eq
      obtain ⟨cause, -, failure⟩ := stops.failed
      rcases located e rfl with ⟨cause, rfl⟩ | ⟨file, n, cause, rfl⟩
      · obtain ⟨⟨_ | _, _⟩, _⟩ := last <;> cases failure
      · refine .stops before last path file n cause sourced (by rw [line_eq]; rfl) ?_ ?_
        · rw [sourced]
          exact same
        · rw [line_eq]
          exact stops
    · intro none_fails located line_eq
      refine .succeeds (by rw [line_eq]; rfl) ?_
      rw [sourced]
      show ∀ x ∈ executionsWithin (room + 1) path s, x.fails = false
      rw [← map_stepsWithin, List.forall_mem_map]
      exact none_fails

theorem HaltsAtFailure.append {s' : Session} {first later : List Step} {r : Except Failure Nat × Session}
    (h : HaltsAtFailure s' later r) (none_fails : ∀ x ∈ first, x.execution.fails = false)
    (begun : s'.atTop = redoAll s.atTop (first.map Step.execution)) :
    HaltsAtFailure s (first ++ later) r := by
  obtain ⟨e | n, s''⟩ := r
  · obtain ⟨before, last, rfl, stops⟩ := h
    refine ⟨first ++ before, last, (List.append_assoc ..).symm, stops.failed, ?_, ?_, stops.ended⟩
    · intro x hx fails
      rcases List.mem_append.mp hx with hx | hx
      · exact absurd fails (by rw [none_fails x hx]; exact Bool.false_ne_true)
      · exact stops.first x hx fails
    · rw [List.map_append, redoAll_append, ← begun]
      exact stops.begun
  · exact List.forall_mem_append.mpr ⟨none_fails, h⟩

theorem run_of_succeeded (next : script.next? s.files = some (some line, rest))
    (ended : (s.executeLineWith (sourceWithin room) line).1 = .ok ()) (file : Option String)
    (n failures : Nat) :
    (∃ more, runWith (sourceWithin room) n failures script s =
        runWith (sourceWithin room) (n + 1) more rest (lineOutcome (sourceWithin room) line s).2) ∧
      (lineOutcome (sourceWithin room) line s).1.isOk = true ∧
      stepsWith (sourceWithin room) (stepsWithin room) file n script s =
        ⟨⟨file, n + 1⟩, ⟨s, line⟩⟩ :: (sourced? line).elim [] (stepsWithin room · s) ++
          stepsWith (sourceWithin room) (stepsWithin room) file (n + 1) rest
            (lineOutcome (sourceWithin room) line s).2 := by
  rw [stepsWith_of_line next, runWith_of_line next, lineOutcome]
  revert ended
  obtain ⟨_ | ⟨⟩, s'⟩ := s.executeLineWith (sourceWithin room) line
  · rintro ⟨⟩
  · exact fun _ => ⟨⟨_, rfl⟩, rfl, rfl⟩

theorem runWith_of_failed (next : script.next? s.files = some (some line, rest))
    (stop : s.settings.stopOnError = true) {e : Failure}
    (failed : (s.executeLineWith (sourceWithin room) line).1 = .error e) (n failures : Nat) :
    (lineOutcome (sourceWithin room) line s).1.isOk = false ∧
      runWith (sourceWithin room) n failures script s =
        (.error (e.onLine (n + 1)), (lineOutcome (sourceWithin room) line s).2) := by
  have kept := settings_executeLineWith (s := s) (settings_sourceWithin room) line
  rw [runWith_of_line next, lineOutcome]
  revert failed kept
  obtain ⟨_ | ⟨⟩, s'⟩ := s.executeLineWith (sourceWithin room) line
  · rintro ⟨⟩ kept
    have stop : s'.settings.stopOnError = true := (congrArg Settings.stopOnError kept).trans stop
    simp [settle, stop]
  · rintro ⟨⟩

theorem run_of_failed (next : script.next? s.files = some (some line, rest))
    (stop : s.settings.stopOnError = true) {e : Failure}
    (failed : (s.executeLineWith (sourceWithin room) line).1 = .error e)
    (file : Option String) (n failures : Nat) :
    locate file (runWith (sourceWithin room) n failures script s) =
        (.error (file.elim id Failure.ofFile (e.onLine (n + 1))),
          (lineOutcome (sourceWithin room) line s).2) ∧
      stepsWith (sourceWithin room) (stepsWithin room) file n script s =
        ⟨⟨file, n + 1⟩, ⟨s, line⟩⟩ :: (sourced? line).elim [] (stepsWithin room · s) := by
  obtain ⟨ended, run⟩ := runWith_of_failed next stop failed n failures
  rw [run, stepsWith_of_line next, ended]
  exact ⟨rfl, congrArg _ (List.append_nil _)⟩

theorem runWith_of_sourced {e : Failure} {s' : Session}
    (next : script.next? s.files = some (some line, rest)) (stop : s.settings.stopOnError = true)
    (sourced : sourced? line = some path) (failed : sourceWithin room path s = (.error e, s'))
    (n failures : Nat) :
    runWith (sourceWithin room) n failures script s =
      (.error (e.onLine (n + 1)), { s' with unreported := 0 }) := by
  have line_eq : s.executeLineWith (sourceWithin room) line = (.error e, s') := by
    rw [executeLineWith_of_sourced sourced, failed]
    rfl
  rw [(runWith_of_failed next stop (congrArg Prod.fst line_eq) n failures).2, lineOutcome, settle_snd,
    line_eq]

theorem halts_of_succeeded (top : maxDepth - s.depth = room)
    (next : script.next? s.files = some (some line, rest))
    (ended : (s.executeLineWith (sourceWithin room) line).1 = .ok ())
    (none_fails : ∀ x ∈ (sourced? line).elim [] (executionsWithin room · s), x.fails = false)
    {file : Option String} {n : Nat}
    (later : ∀ failures, HaltsAtFailure (lineOutcome (sourceWithin room) line s).2
      (stepsWith (sourceWithin room) (stepsWithin room) file (n + 1) rest
        (lineOutcome (sourceWithin room) line s).2)
      (locate file (runWith (sourceWithin room) (n + 1) failures rest
        (lineOutcome (sourceWithin room) line s).2))) (failures : Nat) :
    HaltsAtFailure s (stepsWith (sourceWithin room) (stepsWithin room) file n script s)
      (locate file (runWith (sourceWithin room) n failures script s)) := by
  have begun := atTop_outcome room (.lines [some line]) s
  rw [executionsWith_singleton, ← map_inner, outcome_singleton] at begun
  obtain ⟨⟨more, run⟩, -, steps⟩ := run_of_succeeded next ended file n failures
  rw [run, steps]
  refine (later more).append ?_ begun
  rw [← map_inner, List.forall_mem_map] at none_fails
  refine List.forall_mem_cons.mpr ⟨?_, none_fails⟩
  show Execution.fails ⟨s, line⟩ = false
  rw [Execution.fails, executeLine_eq top line, ended]
  rfl

theorem halts_of_failed (stop : s.settings.stopOnError = true) (top : maxDepth - s.depth = room)
    (next : script.next? s.files = some (some line, rest)) {cause : Cause}
    (failed : (s.executeLineWith (sourceWithin room) line).1 = .error (.bare cause))
    (nothing : (sourced? line).elim [] (stepsWithin room · s) = []) (file : Option String)
    (n failures : Nat) :
    HaltsAtFailure s (stepsWith (sourceWithin room) (stepsWithin room) file n script s)
      (locate file (runWith (sourceWithin room) n failures script s)) := by
  obtain ⟨run, steps⟩ := run_of_failed next stop failed file n failures
  have executed := executeLine_eq top line
  rw [run, steps, nothing, failure_of_bare]
  rw [← executed] at failed
  refine ⟨[], _, rfl, ⟨cause, failed, rfl⟩, List.forall_mem_nil _, rfl, ?_⟩
  rw [atTop_lineOutcome, ← executed]

theorem halts_of_stopped (stop : s.settings.stopOnError = true) (top : maxDepth - s.depth = room)
    (next : script.next? s.files = some (some line, rest)) {before : List Step} {last : Step}
    {path' : String} {m : Nat} {cause : Cause} (sourced : sourced? line = some path)
    (failed : (s.executeLineWith (sourceWithin room) line).1 = .error (.inFile path' m cause))
    (nested : (sourced? line).elim [] (stepsWithin room · s) = before ++ [last])
    (stops : StopsAt s before last (.inFile path' m cause)
      (s.executeLineWith (sourceWithin room) line).2) (file : Option String) (n failures : Nat) :
    HaltsAtFailure s (stepsWith (sourceWithin room) (stepsWithin room) file n script s)
      (locate file (runWith (sourceWithin room) n failures script s)) := by
  obtain ⟨run, steps⟩ := run_of_failed next stop failed file n failures
  rw [run, steps, nested, failure_inFile]
  refine ⟨_ :: before, last, rfl, stops.failed, ?_, ?_, ?_⟩
  · refine List.forall_mem_cons.mpr ⟨fun _ => ?_, stops.first⟩
    show last.execution ∈ Execution.inside ⟨s, line⟩
    rw [Execution.inside_eq top, ← map_inner, nested]
    exact List.mem_map_of_mem (List.mem_append_right _ List.mem_cons_self)
  · rw [List.map_cons]
    show _ = redoAll (redo s.atTop ⟨s, line⟩) _
    rw [redo_of_sourced sourced]
    exact stops.begun
  · rw [atTop_lineOutcome]
    exact stops.ended

/-- A run of text, with all its files, halts at the first failure if the settings say so. -/
theorem haltsAtFailure (stop : s.settings.stopOnError = true) (top : maxDepth - s.depth = room)
    (text : none ∉ (turnsWith (sourceWithin room) script s).map Turn.line)
    (whole : ∀ x ∈ executionsWith (sourceWithin room) (executionsWithin room) script s, ¬ x.BreaksOff)
    (file : Option String) (n failures : Nat) :
    HaltsAtFailure s (stepsWith (sourceWithin room) (stepsWithin room) file n script s)
      (locate file (runWith (sourceWithin room) n failures script s)) := by
  induction room, script, s using run_induction generalizing file n failures with
  | ended room script s next =>
    rw [stepsWith_of_end next, runWith_of_end next]
    exact List.forall_mem_nil _
  | broken room script rest s next =>
    rw [turnsWith_of_broken next] at text
    exact absurd List.mem_cons_self text
  | line room script line rest s next inner ih =>
    rw [executionsWith_of_line next, List.forall_mem_cons, List.forall_mem_append] at whole
    obtain ⟨here, within, later⟩ := whole
    have halts : LineHalts room s line := by
      refine lineHalts top fun below path r size sourced opened => ?_
      subst size
      rw [sourced] at within
      change ∀ x ∈ executionsWithin (below + 1) path s, ¬ x.BreaksOff at within
      rw [executionsWithin_of_open opened] at within
      have deeper : maxDepth - (s.depth + 1) = below := by omega
      exact inner below path r rfl sourced opened stop deeper
        (mt (breaksOff_iff top sourced opened).mpr here) within (some path) 0 0
    cases halts with
    | succeeds ended none_fails =>
      have first := (run_of_succeeded next ended file n failures).2.1
      rw [if_pos first] at later
      rw [turnsWith_of_line next, if_pos first] at text
      refine halts_of_succeeded top next ended none_fails (ih ?_ ?_ ?_ later file (n + 1)) failures
      · rw [settings_lineOutcome]
        exact stop
      · rw [depth_lineOutcome]
        exact top
      · exact fun mem => text (List.mem_cons_of_mem _ mem)
    | fails cause failed nothing => exact halts_of_failed stop top next failed nothing file n failures
    | stops before last path path' m cause sourced failed nested stops =>
      exact halts_of_stopped stop top next sourced failed nested stops file n failures

/-- The first failure ends a script. It tells the line where it arose and names the innermost file that the
line is in; nothing is executed after this line, and the session is what the lines before it have made of it
and the line itself. -/
theorem stopsAt_first_failure {lines : List Line} (stop : s.settings.stopOnError = true)
    (text : none ∉ lines) (whole : ∀ x ∈ s.executions lines, ¬ x.BreaksOff)
    (failed : ∃ x ∈ s.executions lines, x.fails = true) :
    ∃ before last e, s.steps lines = before ++ [last] ∧ (s.runScript lines).1 = .error e ∧
      StopsAt s before last e (s.runScript lines).2 ∧
      (last.Among none 0 lines s.depth ∨ ∃ y ∈ before, last.SourcedBy y.execution) := by
  have read := prefix_turnsWith (sourceWithin (maxDepth - s.depth)) lines s
  have halts : HaltsAtFailure s (s.steps lines) (locate none (s.runScript lines)) :=
    haltsAtFailure stop rfl (fun broken => text (read.subset broken)) whole none 0 0
  have unplaced : locate none (s.runScript lines) = s.runScript lines := by
    obtain ⟨_ | _, s'⟩ := s.runScript lines <;> rfl
  rw [unplaced] at halts
  revert halts
  obtain ⟨e | n, s'⟩ := s.runScript lines
  · rintro ⟨before, last, same, stops⟩
    refine ⟨before, last, e, same, rfl, stops, ?_⟩
    have mem : last ∈ s.steps lines := by simp [same]
    refine (among_or_sourcedBy rfl none 0 mem).imp (·.longer read) ?_
    rintro ⟨y, hy, by_y⟩
    obtain ⟨step, hstep, rfl⟩ : ∃ step ∈ s.steps lines, step.execution = y := by
      change y ∈ s.executions lines at hy
      rwa [← map_steps, List.mem_map] at hy
    rw [same, List.mem_append, List.mem_singleton] at hstep
    rcases hstep with hstep | rfl
    · exact ⟨step, hstep, by_y⟩
    · obtain ⟨-, path, contents, -, -, among, -⟩ := by_y
      exact absurd among.depth.symm (Nat.succ_ne_self _)
  · intro none_fails
    obtain ⟨x, hx, fails⟩ := failed
    rw [← map_steps, List.mem_map] at hx
    obtain ⟨step, hstep, rfl⟩ := hx
    exact absurd fails (by rw [none_fails step hstep]; exact Bool.false_ne_true)

def strict : Session := { files := nestedFiles }

theorem sourceWithin_inner : ∃ s : Session,
    sourceWithin 31 "inner" { strict with depth := 1 } =
      (.error (.inFile "inner" 2 (.usage (.unknownCommand "frob"))), s) ∧
      s.graph.visibleNodes true = ["x"] := by
  obtain ⟨r, opened, left⟩ := FileTree.open?_of_read? read?_inner
  rw [ofBytes_innerFile] at left
  have opened : ({ strict with depth := 1 } : Session).files.open? "inner" = some r := opened
  have top : maxDepth - ({ strict with depth := 2 } : Session).depth = 30 := rfl
  have lines : (Script.file r).left strict.files = ["node x", "frob"].map some := left
  have steady := steady_of_tame (fun line mem => tame_commands line (List.mem_append_left ["node y"] mem))
    top lines
  have ran := (run_of_keeps top fun x hx => (steady x hx).files).1 0 0
  rw [lines] at ran
  rw [sourceWithin, opened]
  dsimp only
  rw [ran]
  exact ⟨_, by with_unfolding_all rfl, by with_unfolding_all decide⟩

theorem sourceWithin_outer : ∃ s : Session,
    sourceWithin 32 "outer" strict =
      (.error (.inFile "inner" 2 (.usage (.unknownCommand "frob"))), s) ∧
      s.graph.visibleNodes true = ["x"] := by
  obtain ⟨s, inner, visible⟩ := sourceWithin_inner
  obtain ⟨r, opened, left⟩ := FileTree.open?_of_read? read?_outer
  rw [ofBytes_outerFile] at left
  have opened : strict.files.open? "outer" = some r := opened
  have left : (Script.file r).left ({ strict with depth := 1 } : Session).files =
    [some "source inner", some "node y"] := left
  obtain ⟨rest, next, -⟩ := Script.next?_of_left left
  have ran : runWith (sourceWithin 31) 0 0 (.file r) { strict with depth := strict.depth + 1 } = _ :=
    runWith_of_sourced next rfl sourced?_inner inner 0 0
  rw [sourceWithin, opened]
  dsimp only
  rw [ran]
  exact ⟨_, rfl, visible⟩

/-- The failure is in the inner file; the rest of the outer one is not executed. -/
theorem stopsAt_inner : strict.settings.stopOnError = true ∧ none ∉ [some "source outer"] ∧
    (∀ x ∈ strict.executions [some "source outer"], ¬ x.BreaksOff) ∧
    (∃ x ∈ strict.executions [some "source outer"], x.fails = true) ∧
    (∃ before last, strict.steps [some "source outer"] = before ++ [last] ∧
      last.place = ⟨some "inner", 2⟩ ∧
      StopsAt strict before last (.inFile "inner" 2 (.usage (.unknownCommand "frob")))
        (strict.runScript [some "source outer"]).2) ∧
    (strict.runScript [some "source outer"]).2.graph.visibleNodes true = ["x"] := by
  obtain ⟨s, outer, visible⟩ := sourceWithin_outer
  have ran := runWith_of_sourced (Script.next?_cons strict.files (some "source outer") []) rfl
    sourced?_outer outer 0 0
  have whole : ∀ x ∈ strict.executions [some "source outer"], ¬ x.BreaksOff :=
    whole_of_steady rfl (steady_outer _)
  have failed : ∃ x ∈ strict.executions [some "source outer"], x.fails = true := by
    refine ⟨⟨strict, "source outer"⟩, ?_, ?_⟩
    · rw [executions, executionsWith_singleton]
      exact List.mem_cons_self
    rw [Execution.fails, executeLine, executeLineWith_of_sourced sourced?_outer]
    show (!(included (sourceWithin 32 "outer" strict)).1.isOk) = true
    rw [outer]
    rfl
  have text : none ∉ [some "source outer"] := by decide
  obtain ⟨before, last, e, steps, ended, stops, -⟩ := stopsAt_first_failure rfl text whole failed
  have same : e = .inFile "inner" 2 (.usage (.unknownCommand "frob")) :=
    Except.error.inj (ended.symm.trans (congrArg Prod.fst ran))
  subst same
  refine ⟨rfl, text, whole, failed, ⟨before, last, steps, ?_, stops⟩, ?_⟩
  · obtain ⟨cause, -, named⟩ := stops.failed
    exact (Place.failure_eq_inFile.mp named.symm).1
  · rw [runScript]
    exact (congrArg (·.2.graph.visibleNodes true) ran).trans visible

end CallAtlas.Session

