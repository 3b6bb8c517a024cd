import CallAtlas.Proofs.Session.Refusal
/-!
What a script executes: its lines one after the other, and after a line that sources a file the lines of
that file. Main statements: `executeLineWith_placed`, a line that sources no file does the same wherever it
stands, `outcome_append` and `executionsWith_append`, scripts are run one after the other, and
`Lasting.runLinesWith`, a run keeps to what every line keeps to.
-/
namespace CallAtlas.Session

/-- The same session at another place: so many files are being sourced, and so many failures in them are
not counted yet. -/
def placed (s : Session) (depth unreported : Nat) : Session := { s with depth, unreported }

def sourced? (line : String) : Option String :=
  match Command.ofLine? line with
  | some (.source path) => some path
  | _ => none

/-- What a script comes to, wherever it is run: the number of failures, or why the run ended. -/
def outcome (run : FileRunner) (script : Script) (s : Session) : Except Cause Nat × Session :=
  ((runWith run 0 0 script s).1.mapError Failure.cause, (runWith run 0 0 script s).2)

def settle : Except Failure Unit × Session → Except Cause Nat × Session
  | (.ok (), s) => (.ok s.unreported, { s with unreported := 0 })
  | (.error e, s) =>
    (if s.settings.stopOnError then .error e.cause else .ok (s.unreported + 1), { s with unreported := 0 })

def lineOutcome (run : FileRunner) (line : String) (s : Session) : Except Cause Nat × Session :=
  settle (s.executeLineWith run line)

structure Turn where
  session : Session
  line : Line

/-- The lines that running a script reads, up to one that ends the run. -/
def turnsWith (run : FileRunner) (script : Script) (s : Session) : List Turn :=
  match _next : script.next? s.files with
  | none => []
  | some (none, _) => [⟨s, none⟩]
  | some (some line, rest) =>
    ⟨s, some line⟩ ::
      match lineOutcome run line s with
      | (.ok _, s') => turnsWith run rest s'
      | (.error _, _) => []
termination_by script.size
decreasing_by exact Script.size_lt_of_next? _next

structure Execution where
  session : Session
  line : String

def Turn.executions (inside : String → Session → List Execution) (turn : Turn) : List Execution :=
  match turn.line with
  | none => []
  | some line => ⟨turn.session, line⟩ :: (sourced? line).elim [] (inside · turn.session)

/-- What running a script executes, with what running a file executes. -/
def executionsWith (run : FileRunner) (inside : String → Session → List Execution) (script : Script)
    (s : Session) : List Execution :=
  (turnsWith run script s).flatMap (Turn.executions inside)

def turnsWithin : (room : Nat) → String → Session → List Turn
  | 0, _, _ => []
  | room + 1, path, s =>
    match s.files.open? path with
    | none => []
    | some r => turnsWith (sourceWithin room) (.file r) { s with depth := s.depth + 1 }

def executionsWithin : (room : Nat) → String → Session → List Execution
  | 0, _, _ => []
  | room + 1, path, s => (turnsWithin (room + 1) path s).flatMap (Turn.executions (executionsWithin room))

/-- What a script executes, in the files that are sourced as well. -/
def executions (s : Session) (lines : List Line) : List Execution :=
  executionsWith (sourceWithin (maxDepth - s.depth)) (executionsWithin (maxDepth - s.depth)) (.lines lines) s

variable {run run' : FileRunner} {inside : String → Session → List Execution} {s : Session}
variable {line path : String} {depth unreported : Nat} {script rest : Script}

theorem attempt_placed (r : Except Cause Session) :
    (s.placed depth unreported).attempt (r.map (·.placed depth unreported)) =
      ((s.attempt r).1, (s.attempt r).2.placed depth unreported) := by
  cases r <;> rfl

theorem attempt_bind_placed {α : Type} (x : Except Cause α) {f f' : α → Session}
    (h : ∀ a, f' a = (f a).placed depth unreported) :
    (s.placed depth unreported).attempt (do return f' (← x)) =
      ((s.attempt (do return f (← x))).1, (s.attempt (do return f (← x))).2.placed depth unreported) := by
  cases x with
  | error => rfl
  | ok a => exact congrArg (Prod.mk _) (h a)

theorem deliver_placed (path : Option String) (text : String) :
    (s.placed depth unreported).deliver path text =
      (s.deliver path text).map (·.placed depth unreported) := by
  unfold deliver
  cases path with
  | none => rfl
  | some path =>
    dsimp only [placed]
    cases s.files.write? path text.toUTF8 <;> rfl

theorem executeWith_placed {command : Command} (h : ∀ path, command ≠ .source path) :
    (s.placed depth unreported).executeWith run' command =
      ((s.executeWith run command).1, (s.executeWith run command).2.placed depth unreported) := by
  cases command with
  | source path => exact absurd rfl (h path)
  | node external username line name file =>
    refine .trans (congrArg (Session.attempt _) ?_) (attempt_placed _)
    unfold addNode
    split
    · split <;> rfl
    · rfl
  | edge caller callee kind =>
    refine .trans (congrArg (Session.attempt _) ?_) (attempt_placed _)
    show ((s.graph.connect caller callee kind).mapError Cause.edge).map _ = _
    unfold addEdge
    cases s.graph.connect caller callee kind <;> rfl
  | label l words =>
    cases words with
    | nil => rfl
    | cons word words =>
      exact attempt_bind_placed ((Selector.labelTargets s.graph (word :: words)).mapError Cause.query)
        fun _ => rfl
  | hide reach words => exact attempt_bind_placed (s.select words) fun _ => rfl
  | keep reach words => exact attempt_bind_placed (s.select words) fun _ => rfl
  | only reach words =>
    exact attempt_bind_placed (s := s.withGraph (s.graph.setDefault false))
      ((s.withGraph (s.graph.setDefault false)).select words) fun _ => rfl
  | reset filters labels => rfl
  | callers refs words => exact attempt_bind_placed (s.select words) fun _ => rfl
  | callees scope words => exact attempt_bind_placed (s.select words) fun _ => rfl
  | labels words =>
    exact attempt_bind_placed ((Selector.ofWords s.graph words).mapError Cause.query) fun _ => rfl
  | paths scope limit words =>
    exact attempt_bind_placed ((PathExpr.ofText (" ".intercalate words)).mapError Cause.query)
      fun _ => rfl
  | stats json =>
    cases json <;> rfl
  | save path => exact .trans (congrArg (Session.attempt _) (deliver_placed _ _)) (attempt_placed _)
  | output drawing path =>
    exact .trans (congrArg (Session.attempt _) (deliver_placed _ _)) (attempt_placed _)

theorem executeLineWith_placed (h : sourced? line = none) :
    (s.placed depth unreported).executeLineWith run' line =
      ((s.executeLineWith run line).1, (s.executeLineWith run line).2.placed depth unreported) := by
  unfold sourced? Command.ofLine? at h
  unfold executeLineWith
  cases split : Token.split line with
  | error e => rfl
  | ok tokens =>
    cases tokens with
    | nil => rfl
    | cons token tokens =>
      rw [split] at h
      dsimp only at h ⊢
      cases parsed : Command.ofTokens (token :: tokens) with
      | ok command =>
        refine executeWith_placed fun path => ?_
        rintro rfl
        rw [parsed] at h
        cases h
      | error fault => cases fault <;> rfl

theorem executeLineWith_of_sourced (h : sourced? line = some path) :
    s.executeLineWith run line = included (run path s) := by
  unfold sourced? at h
  split at h
  · next parsed =>
    cases h
    exact executeLineWith_of_command parsed
  · cases h

theorem placed_executeLineWith (run : FileRunner) (s : Session) (h : sourced? line = none) :
    (s.executeLineWith run line).2.depth = s.depth ∧
      (s.executeLineWith run line).2.unreported = s.unreported := by
  have same : (s.executeLineWith run line).2 =
      (s.executeLineWith run line).2.placed s.depth s.unreported :=
    congrArg Prod.snd (executeLineWith_placed (s := s) h)
  exact ⟨(congrArg Session.depth same).trans rfl, (congrArg Session.unreported same).trans rfl⟩

theorem cause_onLine (n : Nat) (e : Failure) : (e.onLine n).cause = e.cause := by
  cases e <;> rfl

theorem cause_ofFile (path : String) (e : Failure) : (e.ofFile path).cause = e.cause := by
  cases e <;> rfl

theorem runWith_of_end (ended : script.next? s.files = none) (n failures : Nat) :
    runWith run n failures script s = (.ok failures, s) := by
  rw [runWith]
  split <;> simp_all

theorem runWith_of_broken (next : script.next? s.files = some (none, rest)) (n failures : Nat) :
    runWith run n failures script s = (.error (.bare .notText), s) := by
  rw [runWith]
  split <;> simp_all

theorem runWith_of_line (next : script.next? s.files = some (some line, rest)) (n failures : Nat) :
    runWith run n failures script s =
      match s.executeLineWith run line with
      | (.ok (), s') => runWith run (n + 1) (failures + s'.unreported) rest { s' with unreported := 0 }
      | (.error e, s') =>
        if s'.settings.stopOnError then (.error (e.onLine (n + 1)), { s' with unreported := 0 })
        else runWith run (n + 1) (failures + s'.unreported + 1) rest { s' with unreported := 0 } := by
  rw [runWith]
  split
  · simp_all
  · simp_all
  · rename_i found
    rw [next] at found
    cases found
    obtain ⟨_ | ⟨⟩, s'⟩ := s.executeLineWith run line <;> rfl

/-- Scripts become shorter, and so a run can be followed line by line. -/
theorem script_induction {motive : Script → Session → Prop} (run : FileRunner)
    (ended : ∀ script s, script.next? s.files = none → motive script s)
    (broken : ∀ script rest s, script.next? s.files = some (none, rest) → motive script s)
    (line : ∀ script line rest s, script.next? s.files = some (some line, rest) →
      motive rest (lineOutcome run line s).2 → motive script s)
    (script : Script) (s : Session) : motive script s := by
  induction size : script.size using Nat.strongRecOn generalizing script s with
  | ind n ih =>
    cases next : script.next? s.files with
    | none => exact ended script s next
    | some taken =>
      obtain ⟨_ | text, rest⟩ := taken
      · exact broken script rest s next
      · exact line script text rest s next (ih _ (size ▸ Script.size_lt_of_next? next) rest _ rfl)

/-- What is counted before is added, and line numbers tell nothing but the place of a failure. -/
theorem runWith_shift (run : FileRunner) (n m failures more : Nat) (script : Script) (s : Session) :
    (runWith run n (failures + more) script s).1.mapError Failure.cause =
        ((runWith run m more script s).1.mapError Failure.cause).map (failures + ·) ∧
      (runWith run n (failures + more) script s).2 = (runWith run m more script s).2 := by
  induction script, s using script_induction run generalizing n m more with
  | ended script s next =>
    rw [runWith_of_end next, runWith_of_end next]
    exact ⟨rfl, rfl⟩
  | broken script rest s next =>
    rw [runWith_of_broken next, runWith_of_broken next]
    exact ⟨rfl, rfl⟩
  | line script line rest s next ih =>
    rw [runWith_of_line next, runWith_of_line next]
    unfold lineOutcome at ih
    revert ih
    obtain ⟨e | ⟨⟩, s'⟩ := s.executeLineWith run line
    · intro ih
      dsimp only
      split
      · exact ⟨congrArg Except.error ((cause_onLine _ e).trans (cause_onLine _ e).symm), rfl⟩
      · rw [Nat.add_assoc, Nat.add_assoc]
        exact ih _ _ _
    · intro ih
      dsimp only
      rw [Nat.add_assoc]
      exact ih _ _ _

theorem settle_snd (r : Except Failure Unit × Session) : (settle r).2 = { r.2 with unreported := 0 } := by
  obtain ⟨_ | ⟨⟩, s⟩ := r <;> rfl

@[simp] theorem isOk_ok {ε α : Type} (a : α) : (Except.ok a : Except ε α).isOk = true := rfl

@[simp] theorem isOk_error {ε α : Type} (e : ε) : (Except.error e : Except ε α).isOk = false := rfl

def andThen (first : Except Cause Nat × Session) (next : Session → Except Cause Nat × Session) :
    Except Cause Nat × Session :=
  match first with
  | (.ok failures, s) => ((next s).1.map (failures + ·), (next s).2)
  | (.error cause, s) => (.error cause, s)

theorem outcome_of_end (ended : script.next? s.files = none) : outcome run script s = (.ok 0, s) := by
  rw [outcome, runWith_of_end ended]
  rfl

theorem outcome_of_broken (next : script.next? s.files = some (none, rest)) :
    outcome run script s = (.error .notText, s) := by
  rw [outcome, runWith_of_broken next]
  rfl

theorem outcome_of_line (next : script.next? s.files = some (some line, rest)) :
    outcome run script s = andThen (lineOutcome run line s) (outcome run rest) := by
  unfold outcome lineOutcome
  rw [runWith_of_line next]
  obtain ⟨e | ⟨⟩, s'⟩ := s.executeLineWith run line
  · have later := runWith_shift run 1 0 (s'.unreported + 1) 0 rest { s' with unreported := 0 }
    unfold settle
    dsimp only
    rw [Nat.zero_add s'.unreported]
    split
    · exact Prod.ext (congrArg Except.error (cause_onLine 1 e)) rfl
    · exact Prod.ext later.1 later.2
  · have later := runWith_shift run 1 0 s'.unreported 0 rest { s' with unreported := 0 }
    dsimp only
    rw [Nat.zero_add s'.unreported]
    exact Prod.ext later.1 later.2

theorem runWith_congr {script' rest' : Script} (next : script.next? s.files = some (some line, rest))
    (next' : script'.next? s.files = some (some line, rest'))
    (later : (lineOutcome run line s).1.isOk = true → ∀ n failures,
      runWith run n failures rest (lineOutcome run line s).2 =
        runWith run n failures rest' (lineOutcome run line s).2) (n failures : Nat) :
    runWith run n failures script s = runWith run n failures script' s := by
  rw [runWith_of_line next, runWith_of_line next']
  unfold lineOutcome at later
  revert later
  obtain ⟨e | ⟨⟩, s'⟩ := s.executeLineWith run line
  · unfold settle
    dsimp only
    split
    · exact fun _ => rfl
    · exact fun later => later rfl _ _
  · exact fun later => later rfl _ _

theorem andThen_assoc (first : Except Cause Nat × Session)
    (next last : Session → Except Cause Nat × Session) :
    andThen (andThen first next) last = andThen first fun s => andThen (next s) last := by
  obtain ⟨_ | failures, s⟩ := first
  · rfl
  · unfold andThen
    dsimp only
    obtain ⟨_ | more, s'⟩ := next s
    · rfl
    · dsimp only [Except.map]
      cases (last s').1 with
      | error => rfl
      | ok rest => exact congrArg (fun n => (Except.ok n, _)) (Nat.add_assoc failures more rest)

theorem andThen_done (first : Except Cause Nat × Session) : andThen first (fun s => (.ok 0, s)) = first := by
  obtain ⟨_ | failures, s⟩ := first <;> rfl

theorem outcome_singleton (line : String) (s : Session) :
    outcome run (.lines [some line]) s = lineOutcome run line s := by
  rw [outcome_of_line (Script.next?_cons s.files (some line) [])]
  exact (congrArg _ (funext fun s => outcome_of_end (Script.next?_nil s.files))).trans (andThen_done _)

theorem outcome_append (lines rest : List Line) (s : Session) :
    outcome run (.lines (lines ++ rest)) s =
      andThen (outcome run (.lines lines) s) (outcome run (.lines rest)) := by
  induction lines generalizing s with
  | nil =>
    rw [outcome_of_end (Script.next?_nil s.files)]
    show outcome run (.lines rest) s = ((outcome run (.lines rest) s).1.map (0 + ·), _)
    cases ran : outcome run (.lines rest) s with
    | mk result s' => cases result <;> simp [Except.map]
  | cons line lines ih =>
    cases line with
    | none => rw [outcome_of_broken rfl, outcome_of_broken rfl]; rfl
    | some line =>
      rw [List.cons_append, outcome_of_line (Script.next?_cons s.files (some line) (lines ++ rest)),
        outcome_of_line (Script.next?_cons s.files (some line) lines), andThen_assoc]
      exact congrArg _ (funext ih)

theorem turnsWith_of_end (ended : script.next? s.files = none) : turnsWith run script s = [] := by
  rw [turnsWith]
  split <;> simp_all

theorem turnsWith_of_broken (next : script.next? s.files = some (none, rest)) :
    turnsWith run script s = [⟨s, none⟩] := by
  rw [turnsWith]
  split <;> simp_all

theorem turnsWith_of_line (next : script.next? s.files = some (some line, rest)) :
    turnsWith run script s = ⟨s, some line⟩ ::
      if (lineOutcome run line s).1.isOk then turnsWith run rest (lineOutcome run line s).2 else [] := by
  rw [turnsWith]
  split
  · simp_all
  · simp_all
  · rename_i found
    rw [next] at found
    cases found
    obtain ⟨_ | _, s'⟩ := lineOutcome run line s <;> rfl

theorem executionsWith_of_end (ended : script.next? s.files = none) :
    executionsWith run inside script s = [] := by
  rw [executionsWith, turnsWith_of_end ended, List.flatMap_nil]

theorem executionsWith_of_broken (next : script.next? s.files = some (none, rest)) :
    executionsWith run inside script s = [] := by
  rw [executionsWith, turnsWith_of_broken next]
  rfl

theorem executionsWith_of_line (next : script.next? s.files = some (some line, rest)) :
    executionsWith run inside script s = ⟨s, line⟩ :: ((sourced? line).elim [] (inside · s) ++
      if (lineOutcome run line s).1.isOk then executionsWith run inside rest (lineOutcome run line s).2
      else []) := by
  rw [executionsWith, turnsWith_of_line next, List.flatMap_cons]
  split <;> rfl

theorem executionsWith_singleton (line : String) (s : Session) :
    executionsWith run inside (.lines [some line]) s =
      ⟨s, line⟩ :: (sourced? line).elim [] (inside · s) := by
  rw [executionsWith_of_line (Script.next?_cons s.files (some line) []),
    executionsWith_of_end (Script.next?_nil _), ite_self, List.append_nil]

theorem executionsWith_append (run : FileRunner) (inside : String → Session → List Execution)
    (lines rest : List Line) (s : Session) :
    executionsWith run inside (.lines (lines ++ rest)) s = executionsWith run inside (.lines lines) s ++
      if (outcome run (.lines lines) s).1.isOk then
        executionsWith run inside (.lines rest) (outcome run (.lines lines) s).2
      else [] := by
  induction lines generalizing s with
  | nil =>
    rw [executionsWith_of_end (Script.next?_nil s.files), outcome_of_end (Script.next?_nil s.files)]
    rfl
  | cons line lines ih =>
    cases line with
    | none => rw [executionsWith_of_broken rfl, executionsWith_of_broken rfl, outcome_of_broken rfl]; rfl
    | some line =>
      rw [List.cons_append, executionsWith_of_line (Script.next?_cons s.files (some line) (lines ++ rest)),
        executionsWith_of_line (Script.next?_cons s.files (some line) lines),
        outcome_of_line (Script.next?_cons s.files (some line) lines)]
      obtain ⟨_ | failures, s'⟩ := lineOutcome run line s
      · simp [andThen]
      · have later := ih s'
        have same : ∀ r : Except Cause Nat, (r.map (failures + ·)).isOk = r.isOk := by
          rintro (_ | _) <;> rfl
        simp [andThen, later, same]

/-- A relation between a session and what it becomes: every line keeps to it if the files that are run do, and
so does running lines one level deeper. -/
structure Lasting (R : Session → Session → Prop) : Prop where
  refl : ∀ s, R s s
  trans : ∀ {s s' s''}, R s s' → R s' s'' → R s s''
  line : ∀ {run : FileRunner}, (∀ path s, R s (run path s).2) → ∀ line s,
    R s { (s.executeLineWith run line).2 with unreported := 0 }
  deeper : ∀ {s s'}, R { s with depth := s.depth + 1 } s' → R s { s' with depth := s'.depth - 1 }

theorem Lasting.runWith {R : Session → Session → Prop} (h : Lasting R)
    (files : ∀ path s, R s (run path s).2) (n failures : Nat) (script : Script) (s : Session) :
    R s (runWith run n failures script s).2 := by
  induction script, s using script_induction run generalizing n failures with
  | ended script s next =>
    rw [runWith_of_end next]
    exact h.refl s
  | broken script rest s next =>
    rw [runWith_of_broken next]
    exact h.refl s
  | line script line rest s next ih =>
    have first := h.line files line s
    rw [runWith_of_line next]
    rw [lineOutcome, settle_snd] at ih
    revert first ih
    obtain ⟨e | ⟨⟩, s'⟩ := s.executeLineWith run line
    · intro ih first
      dsimp only
      split
      · exact first
      · exact h.trans first (ih _ _)
    · exact fun ih first => h.trans first (ih _ _)

theorem Lasting.sourceWithin {R : Session → Session → Prop} (h : Lasting R) (room : Nat) (path : String)
    (s : Session) : R s (sourceWithin room path s).2 := by
  induction room generalizing path s with
  | zero => exact h.refl s
  | succ room ih =>
    rw [Session.sourceWithin]
    split
    · exact h.refl s
    · exact h.deeper (h.runWith ih 0 0 _ _)

theorem settings_attempt_bind {α : Type} (x : Except Cause α) {f : α → Session}
    (h : ∀ a, (f a).settings = s.settings) :
    (s.attempt (do return f (← x))).2.settings = s.settings := by
  cases x with
  | error => rfl
  | ok a => exact h a

theorem settings_deliver (path : Option String) (text : String) :
    (s.attempt (s.deliver path text)).2.settings = s.settings := by
  unfold deliver
  cases path with
  | none => rfl
  | some path =>
    dsimp only
    cases s.files.write? path text.toUTF8 <;> rfl

theorem settings_executeWith (files : ∀ path (s : Session), (run path s).2.settings = s.settings)
    (command : Command) : (s.executeWith run command).2.settings = s.settings := by
  cases command with
  | node external username line name file =>
    show (s.attempt (s.addNode external name ⟨username, file, line⟩)).2.settings = s.settings
    unfold addNode
    split
    · split <;> rfl
    · rfl
  | edge caller callee kind =>
    show (s.attempt (s.addEdge caller callee kind)).2.settings = s.settings
    unfold addEdge
    cases s.graph.connect caller callee kind <;> rfl
  | label l words =>
    cases words with
    | nil => rfl
    | cons word words => exact settings_attempt_bind _ fun _ => rfl
  | source path =>
    have ran := files path s
    show (included (run path s)).2.settings = s.settings
    revert ran
    cases run path s with
    | mk result s' => cases result <;> exact id
  | hide reach words => exact settings_attempt_bind _ fun _ => rfl
  | keep reach words => exact settings_attempt_bind _ fun _ => rfl
  | only reach words =>
    exact settings_attempt_bind (s := s.withGraph (s.graph.setDefault false)) _ fun _ => rfl
  | reset filters labels => rfl
  | callers refs words => exact settings_attempt_bind _ fun _ => rfl
  | callees scope words => exact settings_attempt_bind _ fun _ => rfl
  | labels words => exact settings_attempt_bind _ fun _ => rfl
  | paths scope limit words => exact settings_attempt_bind _ fun _ => rfl
  | stats json => cases json <;> rfl
  | save path => exact settings_deliver _ _
  | output drawing path => exact settings_deliver _ _

theorem settings_executeLineWith (files : ∀ path (s : Session), (run path s).2.settings = s.settings)
    (line : String) : (s.executeLineWith run line).2.settings = s.settings := by
  rcases executeLineWith_cases run s line with ⟨command, -, same⟩ | ⟨-, alone | ⟨lines, help⟩⟩
  · rw [same]
    exact settings_executeWith files command
  · rw [alone]
  · rw [help]
    rfl

theorem lasting_settings : Lasting fun s s' => s'.settings = s.settings where
  refl _ := rfl
  trans first later := later.trans first
  line files line _ := settings_executeLineWith files line
  deeper := id

theorem settings_sourceWithin (room : Nat) (path : String) (s : Session) :
    (sourceWithin room path s).2.settings = s.settings :=
  lasting_settings.sourceWithin room path s

theorem settings_outcome (room : Nat) (script : Script) (s : Session) :
    (outcome (sourceWithin room) script s).2.settings = s.settings :=
  lasting_settings.runWith (settings_sourceWithin room) 0 0 script s

theorem settings_lineOutcome (room : Nat) (line : String) (s : Session) :
    (lineOutcome (sourceWithin room) line s).2.settings = s.settings := by
  rw [← outcome_singleton]
  exact settings_outcome room _ s

theorem stop_of_lineOutcome {cause : Cause} (failed : (lineOutcome run line s).1 = .error cause) :
    (lineOutcome run line s).2.settings.stopOnError = true := by
  unfold lineOutcome at failed ⊢
  revert failed
  obtain ⟨e | ⟨⟩, s'⟩ := s.executeLineWith run line
  · intro failed
    unfold settle at failed ⊢
    dsimp only at failed ⊢
    split at failed
    · assumption
    · cases failed
  · nofun

theorem stop_of_outcome {cause : Cause} (failed : (outcome run script s).1 = .error cause) :
    none ∈ (turnsWith run script s).map Turn.line ∨
      (outcome run script s).2.settings.stopOnError = true := by
  induction script, s using script_induction run with
  | ended script s next =>
    rw [outcome_of_end next] at failed
    cases failed
  | broken script rest s next =>
    rw [turnsWith_of_broken next]
    exact .inl List.mem_cons_self
  | line script line rest s next ih =>
    rw [outcome_of_line next] at failed ⊢
    rw [turnsWith_of_line next]
    have stop : ∀ {cause}, _ → _ := @stop_of_lineOutcome run s line
    revert failed ih stop
    obtain ⟨first | n, s'⟩ := lineOutcome run line s
    · exact fun _ _ stop => .inr (stop rfl)
    · intro ih failed _
      refine (ih ?_).imp_left fun mem => List.mem_cons_of_mem _ mem
      revert failed
      show (outcome run rest s').1.map (n + ·) = _ → _
      cases (outcome run rest s').1 with
      | ok => nofun
      | error => exact id

theorem text_of_outcome {n : Nat} (ended : (outcome run script s).1 = .ok n) :
    none ∉ (turnsWith run script s).map Turn.line := by
  induction script, s using script_induction run generalizing n with
  | ended script s next =>
    rw [turnsWith_of_end next]
    exact List.not_mem_nil
  | broken script rest s next =>
    rw [outcome_of_broken next] at ended
    cases ended
  | line script line rest s next ih =>
    rw [outcome_of_line next] at ended
    rw [turnsWith_of_line next]
    revert ended ih
    obtain ⟨cause | first, s'⟩ := lineOutcome run line s
    · exact fun _ => nofun
    · intro ih ended
      cases later : (outcome run rest s').1 with
      | error => simp [andThen, later, Except.map] at ended
      | ok =>
        show none ∉ some line :: (turnsWith run rest s').map Turn.line
        rw [List.mem_cons, not_or]
        exact ⟨nofun, ih later⟩

theorem outcome_eq_ok (room : Nat)
    (text : none ∉ (turnsWith (sourceWithin room) script s).map Turn.line)
    (go : s.settings.stopOnError = false) : ∃ n, (outcome (sourceWithin room) script s).1 = .ok n := by
  cases result : (outcome (sourceWithin room) script s).1 with
  | ok n => exact ⟨n, rfl⟩
  | error cause =>
    rcases stop_of_outcome result with broken | stop
    · exact absurd broken text
    · rw [settings_outcome, go] at stop
      cases stop

end CallAtlas.Session
