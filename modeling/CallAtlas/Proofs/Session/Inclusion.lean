import CallAtlas.Proofs.Session.Nesting
/-!
Sourcing a file is including it. A script does the same as the script that has the lines of each file in
the place of the line that sources it. Main statement: `runScript_expand`.
-/
namespace CallAtlas.Session

def included? (files : FileTree) (line : String) : Option (List Line) :=
  ((sourced? line).bind files.read?).map Lines.ofBytes

/-- Put the lines of files in the place of the lines that source them, nested `room` times at most. -/
def expand (files : FileTree) : (room : Nat) → List Line → List Line
  | 0, lines => lines
  | room + 1, lines => lines.flatMap fun line =>
    ((line.bind (included? files)).map (expand files room)).getD [line]

/-- The command in the line writes no file, and a file that it sources is text and is not nested too
deeply. -/
structure Execution.Steady (x : Execution) : Prop where
  files : sourced? x.line = none → (x.session.executeLine x.line).2.files = x.session.files
  nested : ∀ path, sourced? x.line = some path → x.session.depth < maxDepth
  text : ∀ lines, included? x.session.files x.line = some lines → ∀ line ∈ lines, line.isSome

def atTop (s : Session) : Session := s.placed 0 0

def Execution.atTop (x : Execution) : Execution := { x with session := x.session.atTop }

def Execution.remains (x : Execution) : Bool := (included? x.session.files x.line).isNone

/-- The later session is back where the earlier one was, among the same files. -/
structure Returned (s s' : Session) : Prop where
  depth : s'.depth = s.depth
  unreported : s'.unreported = 0
  files : s'.files = s.files

/-- Lines that are run with room for nested files do the same as other lines at the top. -/
structure Includes (room : Nat) (s : Session) (lines flat : List Line) : Prop where
  outcome_eq : outcome (sourceWithin maxDepth) (.lines flat) s.atTop =
    ((outcome (sourceWithin room) (.lines lines) s).1, (outcome (sourceWithin room) (.lines lines) s).2.atTop)
  executions_eq : executionsWith (sourceWithin maxDepth) (executionsWithin maxDepth) (.lines flat) s.atTop =
    ((executionsWith (sourceWithin room) (executionsWithin room) (.lines lines) s).filter
      Execution.remains).map Execution.atTop
  returned : Returned s (outcome (sourceWithin room) (.lines lines) s).2

variable {s : Session} {line path : String} {room deep : Nat} {lines flat rest flat' : List Line}

theorem Includes.append (h : Includes room s lines flat)
    (h' : ∀ failures, (outcome (sourceWithin room) (.lines lines) s).1 = .ok failures →
      Includes room (outcome (sourceWithin room) (.lines lines) s).2 rest flat') :
    Includes room s (lines ++ rest) (flat ++ flat') := by
  obtain ⟨same, executed, returned⟩ := h
  cases ran : outcome (sourceWithin room) (.lines lines) s with
  | mk result s' =>
    rw [ran] at h' same returned
    cases result with
    | error cause =>
      constructor
      · rw [outcome_append, outcome_append, same, ran]
        rfl
      · rw [executionsWith_append, executionsWith_append, same, ran, executed]
        simp
      · rw [outcome_append, ran]
        exact returned
    | ok failures =>
      have next := h' failures rfl
      constructor
      · rw [outcome_append, outcome_append, same, ran]
        unfold andThen
        dsimp only
        rw [next.outcome_eq]
      · rw [executionsWith_append, executionsWith_append, same, ran, executed]
        simp [next.executions_eq]
      · rw [outcome_append, ran]
        exact ⟨next.returned.depth.trans returned.depth, next.returned.unreported,
          next.returned.files.trans returned.files⟩

theorem included?_eq_none {files : FileTree} : included? files line = none ↔
    sourced? line = none ∨ ∃ path, sourced? line = some path ∧ files.read? path = none := by
  unfold included?
  cases sourced? line <;> simp

theorem executeLineWith_of_missing (missing : included? s.files line = none)
    (nested : ∀ path, sourced? line = some path → room ≠ 0)
    (kept : sourced? line = none → (s.executeLineWith (sourceWithin room) line).2.files = s.files) :
    s.atTop.executeLineWith (sourceWithin maxDepth) line =
        ((s.executeLineWith (sourceWithin room) line).1,
          (s.executeLineWith (sourceWithin room) line).2.atTop) ∧
      (s.executeLineWith (sourceWithin room) line).2.depth = s.depth ∧
      (s.executeLineWith (sourceWithin room) line).2.unreported = s.unreported ∧
      (s.executeLineWith (sourceWithin room) line).2.files = s.files := by
  rcases included?_eq_none.mp missing with alone | ⟨path, sourced, unread⟩
  · obtain ⟨depth, unreported⟩ := placed_executeLineWith (sourceWithin room) s alone
    exact ⟨executeLineWith_placed alone, depth, unreported, kept alone⟩
  · have missing : s.files.open? path = none := FileTree.open?_eq_none_iff.mpr unread
    have missing_at_top : s.atTop.files.open? path = none := missing
    rw [executeLineWith_of_sourced sourced, executeLineWith_of_sourced sourced,
      sourceWithin_of_missing missing (nested path sourced),
      sourceWithin_of_missing missing_at_top (by decide)]
    exact ⟨rfl, rfl, rfl, rfl⟩

theorem executionsWithin_of_missing (missing : included? s.files line = none) :
    (sourced? line).elim [] (executionsWithin room · s) = [] := by
  rcases included?_eq_none.mp missing with alone | ⟨path, sourced, unread⟩
  · rw [alone]
    rfl
  · rw [sourced]
    exact executionsWithin_of_turns (turnsWithin_of_missing (FileTree.open?_eq_none_iff.mpr unread))

theorem settle_atTop {r : Except Failure Unit × Session} (counted : r.2.unreported = 0) :
    settle (r.1, r.2.atTop) = ((settle r).1, (settle r).2.atTop) := by
  obtain ⟨e | ⟨⟩, s⟩ := r
  · have counted : s.unreported = 0 := counted
    simp only [settle, counted]
    rfl
  · have counted : s.unreported = 0 := counted
    simp only [settle, counted]
    rfl

theorem Includes.alone (counted : s.unreported = 0) (missing : included? s.files line = none)
    (nested : ∀ path, sourced? line = some path → room ≠ 0)
    (kept : sourced? line = none → (s.executeLineWith (sourceWithin room) line).2.files = s.files) :
    Includes room s [some line] [some line] := by
  obtain ⟨same, depth, unreported, files⟩ := executeLineWith_of_missing missing nested kept
  constructor
  · rw [outcome_singleton, outcome_singleton, lineOutcome, lineOutcome, same]
    exact settle_atTop (unreported.trans counted)
  · have inside : (sourced? line).elim [] (executionsWithin maxDepth · s.atTop) = [] :=
      executionsWithin_of_missing (s := s.atTop) missing
    have remains : Execution.remains ⟨s, line⟩ = true := by
      unfold Execution.remains
      rw [missing]
      rfl
    rw [executionsWith_singleton, executionsWith_singleton, inside,
      executionsWithin_of_missing missing, List.filter_cons_of_pos remains]
    rfl
  · rw [outcome_singleton, lineOutcome, settle_snd]
    exact ⟨depth, rfl, files⟩

theorem outcome_of_sourced {r : Reader} {result : Except Cause Nat} {s' : Session}
    (sourced : sourced? line = some path) (opened : s.files.open? path = some r)
    (text : none ∉ (turnsWith (sourceWithin room) (.file r) { s with depth := s.depth + 1 }).map Turn.line)
    (ran : outcome (sourceWithin room) (.file r) { s with depth := s.depth + 1 } = (result, s'))
    (depth : s'.depth = s.depth + 1) (unreported : s'.unreported = 0) :
    outcome (sourceWithin (room + 1)) (.lines [some line]) s = (result, s'.placed s.depth 0) := by
  -- the settings that ended the file end the script that sources it
  have stop (cause : Cause) (failed : result = .error cause) : s'.settings.stopOnError = true := by
    have ended : (outcome (sourceWithin room) (.file r) { s with depth := s.depth + 1 }).1 = .error cause := by
      rw [ran]
      exact failed
    have settings := (stop_of_outcome ended).resolve_left text
    rwa [ran] at settings
  rw [outcome_singleton, lineOutcome, executeLineWith_of_sourced sourced, sourceWithin, opened]
  unfold outcome at ran
  dsimp only
  revert ran
  cases runWith (sourceWithin room) 0 0 (.file r) { s with depth := s.depth + 1 } with
  | mk first last =>
    rintro ⟨⟩
    have back : s.depth = last.depth - 1 := by rw [depth, Nat.add_sub_cancel]
    cases first with
    | error e =>
      have stop : last.settings.stopOnError = true := stop e.cause rfl
      simp only [included, settle, Except.mapError, stop, if_true, cause_ofFile, back]
      rfl
    | ok failures =>
      have counted : last.unreported = 0 := unreported
      simp only [included, settle, Except.mapError, counted, Nat.zero_add, back]
      rfl

theorem Includes.file {r : Reader} {inner : List Line} (sourced : sourced? line = some path)
    (opened : s.files.open? path = some r) (found : included? s.files line = some inner)
    (text : ∀ line ∈ inner, line.isSome)
    (same_outcome : outcome (sourceWithin room) (.file r) { s with depth := s.depth + 1 } =
      outcome (sourceWithin room) (.lines inner) { s with depth := s.depth + 1 })
    (same_turns : turnsWith (sourceWithin room) (.file r) { s with depth := s.depth + 1 } =
      turnsWith (sourceWithin room) (.lines inner) { s with depth := s.depth + 1 })
    (h : Includes room { s with depth := s.depth + 1 } inner flat) :
    Includes (room + 1) s [some line] flat := by
  obtain ⟨same, executed, returned⟩ := h
  have read := (prefix_turnsWith (sourceWithin room) inner { s with depth := s.depth + 1 }).subset
  have text : none ∉ (turnsWith (sourceWithin room) (.file r) { s with depth := s.depth + 1 }).map
      Turn.line := fun broken => Bool.false_ne_true (text none (read (same_turns ▸ broken)))
  have executed_file : executionsWith (sourceWithin room) (executionsWithin room) (.file r) _ = _ :=
    congrArg (List.flatMap (Turn.executions (executionsWithin room))) same_turns
  cases ran : outcome (sourceWithin room) (.lines inner) { s with depth := s.depth + 1 } with
  | mk result s' =>
    rw [ran] at same returned
    have whole := outcome_of_sourced sourced opened text (same_outcome.trans ran) returned.depth
      returned.unreported
    constructor
    · rw [whole]
      exact same
    · have replaced : Execution.remains ⟨s, line⟩ = false := by
        unfold Execution.remains
        rw [found]
        rfl
      rw [executionsWith_singleton, sourced,
        List.filter_cons_of_neg (Bool.eq_false_iff.mp replaced)]
      show _ = ((executionsWithin (room + 1) path s).filter _).map _
      rw [executionsWithin_of_open opened, executed_file]
      exact executed
    · rw [whole]
      exact ⟨rfl, rfl, returned.files⟩

theorem expand_cons (files : FileTree) (room : Nat) (line : Line) (rest : List Line) :
    expand files room (line :: rest) = expand files room [line] ++ expand files room rest := by
  cases room with
  | zero => rfl
  | succ room => simp [expand]

theorem expand_of_missing {files : FileTree} {line : Line} (missing : line.bind (included? files) = none)
    (room : Nat) : expand files room [line] = [line] := by
  cases room with
  | zero => rfl
  | succ room =>
    rw [expand, List.flatMap_singleton, missing]
    rfl

theorem expand_of_included {files : FileTree} {inner : List Line} (h : included? files line = some inner)
    (room : Nat) : expand files (room + 1) [some line] = expand files room inner := by
  rw [expand, List.flatMap_singleton, Option.bind_some, h]
  rfl

/-- Once no line is left that sources a file which can be read, there is nothing more to put in place. -/
theorem expand_of_whole {files : FileTree} {n : Nat}
    (whole : ∀ line ∈ expand files n lines, line.bind (included? files) = none) (le : n ≤ deep) :
    expand files deep lines = expand files n lines := by
  induction n generalizing deep lines with
  | zero =>
    cases deep with
    | zero => rfl
    | succ deep =>
      have same : ∀ line ∈ lines, ((line.bind (included? files)).map (expand files deep)).getD [line] =
          [line] := fun line mem => by rw [whole line mem]; rfl
      exact (List.flatMap_congr same).trans (List.flatMap_singleton' lines)
  | succ n ih =>
    obtain ⟨deep, rfl⟩ : ∃ m, deep = m + 1 := Nat.exists_eq_succ_of_ne_zero (by omega)
    refine List.flatMap_congr fun line mem => ?_
    cases found : line.bind (included? files) with
    | none => rfl
    | some inner =>
      refine ih (fun other inside => whole other ?_) (by omega)
      rw [expand]
      refine List.mem_flatMap.mpr ⟨line, mem, ?_⟩
      rw [found]
      exact inside

theorem includes_line (top : s.depth + room = maxDepth) (counted : s.unreported = 0)
    (deeper : room ≤ deep) (steady : Execution.Steady ⟨s, line⟩)
    (within : ∀ x ∈ (sourced? line).elim [] (executionsWithin room · s), x.Steady)
    (inside : ∀ {inner below deep'}, room = below + 1 → deep = deep' + 1 →
      (∀ x ∈ executionsWith (sourceWithin below) (executionsWithin below) (.lines inner)
        { s with depth := s.depth + 1 }, x.Steady) →
      Includes below { s with depth := s.depth + 1 } inner (expand s.files deep' inner)) :
    Includes room s [some line] (expand s.files deep [some line]) := by
  have space (path : String) (sourced : sourced? line = some path) : room ≠ 0 := by
    have : s.depth < maxDepth := steady.nested path sourced
    omega
  cases found : included? s.files line with
  | none =>
    have missing : (some line).bind (included? s.files) = none := found
    rw [expand_of_missing missing]
    have kept := steady.files
    have own : maxDepth - s.depth = room := by omega
    rw [executeLine, own] at kept
    exact .alone counted found space kept
  | some inner =>
    obtain ⟨contents, read, whole⟩ := Option.map_eq_some_iff.mp found
    obtain ⟨path, sourced, read⟩ := Option.bind_eq_some_iff.mp read
    obtain ⟨r, opened, left⟩ := FileTree.open?_of_read? read
    obtain ⟨room, rfl⟩ := Nat.exists_eq_succ_of_ne_zero (space path sourced)
    obtain ⟨deep, rfl⟩ : ∃ n, deep = n + 1 := Nat.exists_eq_succ_of_ne_zero (by omega)
    have below : maxDepth - (s.depth + 1) = room := by omega
    rw [sourced] at within
    change ∀ x ∈ executionsWithin (room + 1) path s, x.Steady at within
    rw [executionsWithin_of_open opened] at within
    have keeps := fun x hx => (within x hx).files
    have same_outcome := outcome_of_keeps (s := { s with depth := s.depth + 1 }) below keeps
    have same_turns := (run_of_keeps (s := { s with depth := s.depth + 1 }) below keeps).2
    have lines : (Script.file r).left s.files = inner := left.trans whole
    dsimp only at same_outcome same_turns
    rw [lines] at same_outcome same_turns
    rw [executionsWith, same_turns] at within
    rw [expand_of_included found]
    exact .file sourced opened found (steady.text _ found) same_outcome same_turns
      (inside rfl rfl within)

theorem includes_nil (room : Nat) (counted : s.unreported = 0) : Includes room s [] [] := by
  have nothing (s : Session) := Script.next?_nil s.files
  refine ⟨?_, ?_, ?_⟩
  · rw [outcome_of_end (nothing s), outcome_of_end (nothing s.atTop)]
  · rw [executionsWith_of_end (nothing s), executionsWith_of_end (nothing s.atTop)]
    rfl
  · rw [outcome_of_end (nothing s)]
    exact ⟨rfl, counted, rfl⟩

/-- A line that is not text ends both scripts, whatever follows it. -/
theorem includes_broken (room : Nat) (counted : s.unreported = 0) (rest more : List Line) :
    Includes room s (none :: rest) (none :: more) := by
  have next (s : Session) := Script.next?_cons s.files none []
  have broken : Includes room s [none] [none] := by
    refine ⟨?_, ?_, ?_⟩
    · rw [outcome_of_broken (next s), outcome_of_broken (next s.atTop)]
    · rw [executionsWith_of_broken (next s), executionsWith_of_broken (next s.atTop)]
      rfl
    · rw [outcome_of_broken (next s)]
      exact ⟨rfl, counted, rfl⟩
  have whole : Includes room s ([none] ++ rest) ([none] ++ more) := by
    refine broken.append ?_
    rw [outcome_of_broken (next s)]
    nofun
  exact whole

theorem includes_expand (top : s.depth + room = maxDepth) (counted : s.unreported = 0)
    (deeper : room ≤ deep)
    (steady : ∀ x ∈ executionsWith (sourceWithin room) (executionsWithin room) (.lines lines) s,
      x.Steady) :
    Includes room s lines (expand s.files deep lines) := by
  -- a file has less room than the line that sources it, and lines of one file follow each other
  induction room using Nat.strongRecOn generalizing deep lines s with
  | ind room inside =>
    induction lines generalizing s with
    | nil =>
      have empty : expand s.files deep [] = [] := by cases deep <;> rfl
      rw [empty]
      exact includes_nil room counted
    | cons line rest ih =>
      rw [expand_cons]
      cases line with
      | none =>
        rw [expand_of_missing rfl]
        exact includes_broken room counted rest _
      | some line =>
        have steady : ∀ x ∈ executionsWith (sourceWithin room) (executionsWithin room)
            (.lines ([some line] ++ rest)) s, x.Steady := steady
        rw [executionsWith_append, executionsWith_singleton, List.forall_mem_append,
          List.forall_mem_cons] at steady
        obtain ⟨⟨here, within⟩, later⟩ := steady
        have first : Includes room s [some line] (expand s.files deep [some line]) := by
          refine includes_line top counted deeper here within fun {inner below deep'} => ?_
          rintro rfl rfl steady
          have shallower : s.depth + 1 + below = maxDepth := by omega
          exact inside below (by omega) (s := { s with depth := s.depth + 1 }) shallower counted (by omega)
            steady
        refine first.append fun failures ran => ?_
        rw [← first.returned.files]
        refine ih (first.returned.depth ▸ top) first.returned.unreported ?_
        revert later ran
        cases outcome (sourceWithin room) (.lines [some line]) s with
        | mk result s' =>
          rintro later ⟨⟩
          exact later

structure Fresh (s : Session) : Prop where
  depth : s.depth = 0
  unreported : s.unreported = 0

theorem Fresh.atTop (h : s.Fresh) : s.atTop = s := by
  have same : s = s.placed s.depth s.unreported := rfl
  rw [h.depth, h.unreported] at same
  exact same.symm

theorem mapError_eq_ok {α ε ε' : Type} {f : ε → ε'} {x : Except ε α} {a : α} (h : x.mapError f = .ok a) :
    x = .ok a := by
  cases x with
  | error => cases h
  | ok =>
    cases h
    rfl

theorem runScript_eq_ok (text : ∀ line ∈ lines, line.isSome) (go : s.settings.stopOnError = false) :
    ∃ failures, (s.runScript lines).1 = .ok failures := by
  have read := (prefix_turnsWith (sourceWithin (maxDepth - s.depth)) lines s).subset
  have text : none ∉ (turnsWith (sourceWithin (maxDepth - s.depth)) (.lines lines) s).map Turn.line :=
    fun broken => Bool.false_ne_true (text none (read broken))
  exact (outcome_eq_ok _ text go).imp fun _ => mapError_eq_ok

/-- Sourcing is inclusion: with the lines of the files in the script itself it leaves the same session,
counts the same failures or ends for the same reason, and executes the same lines but for those that
source the files. -/
theorem runScript_expand (fresh : s.Fresh) (steady : ∀ x ∈ s.executions lines, x.Steady)
    (deeper : maxDepth ≤ deep) :
    (s.runScript (expand s.files deep lines)).2 = (s.runScript lines).2 ∧
      (s.runScript (expand s.files deep lines)).1.mapError Failure.cause =
        (s.runScript lines).1.mapError Failure.cause ∧
      s.executions (expand s.files deep lines) =
        ((s.executions lines).filter Execution.remains).map Execution.atTop ∧
      (s.settings.stopOnError = false → (∀ line ∈ lines, line.isSome) → ∃ failures,
        (s.runScript (expand s.files deep lines)).1 = .ok failures ∧
          (s.runScript lines).1 = .ok failures) := by
  have room : maxDepth - s.depth = maxDepth := by rw [fresh.depth, Nat.sub_zero]
  have same : Includes maxDepth s lines (expand s.files deep lines) := by
    refine includes_expand (by rw [fresh.depth, Nat.zero_add]) fresh.unreported deeper ?_
    rw [executions, room] at steady
    exact steady
  have final : Fresh (outcome (sourceWithin maxDepth) (.lines lines) s).2 :=
    ⟨same.returned.depth.trans fresh.depth, same.returned.unreported⟩
  have result := congrArg Prod.fst same.outcome_eq
  have session := congrArg Prod.snd same.outcome_eq
  have executed := same.executions_eq
  rw [fresh.atTop] at result session executed
  rw [final.atTop] at session
  have agree : (s.runScript (expand s.files deep lines)).1.mapError Failure.cause =
      (s.runScript lines).1.mapError Failure.cause := by
    unfold runScript
    rw [room]
    exact result
  refine ⟨?_, agree, ?_, fun go text => ?_⟩
  · unfold runScript
    rw [room]
    exact session
  · unfold executions
    rw [room]
    exact executed
  · obtain ⟨failures, counted⟩ := runScript_eq_ok text go
    rw [counted] at agree
    exact ⟨failures, mapError_eq_ok agree, counted⟩

theorem steady_of_left {script : Script} (top : maxDepth - s.depth = room)
    (left : script.left s.files = some line :: lines) (here : Execution.Steady ⟨s, line⟩)
    (within : ∀ x ∈ (sourced? line).elim [] (executionsWithin room · s), x.Steady)
    (later : ∀ rest s', maxDepth - s'.depth = room → rest.left s'.files = lines →
      ∀ x ∈ executionsWith (sourceWithin room) (executionsWithin room) rest s', x.Steady) :
    ∀ x ∈ executionsWith (sourceWithin room) (executionsWithin room) script s, x.Steady := by
  obtain ⟨rest, next, left⟩ := Script.next?_of_left left
  have files := files_lineOutcome top here.files fun x hx => (within x hx).files
  rw [executionsWith_of_line next, List.forall_mem_cons, List.forall_mem_append]
  refine ⟨here, within, ?_⟩
  split
  · exact later rest _ (by rw [depth_lineOutcome]; exact top) (files ▸ left)
  · exact List.forall_mem_nil _

/-- The line sources no file, and wherever it is executed it writes none. -/
structure Tame (line : String) : Prop where
  alone : sourced? line = none
  kept : ∀ s : Session, (s.executeLine line).2.files = s.files

theorem Tame.node {name : String}
    (node : Command.ofLine? line = some (.node false none none name none)) : Tame line where
  alone := by rw [sourced?, node]
  kept s := by
    rw [executeLine, executeLineWith_of_command node]
    rfl

theorem Tame.ofLine?_eq_none (missing : Command.ofLine? line = none) : Tame line where
  alone := by rw [sourced?, missing]
  kept s := by
    rw [executeLine]
    rcases executeLineWith_cases (sourceWithin (maxDepth - s.depth)) s line with
      ⟨command, parsed, -⟩ | ⟨-, same | ⟨lines, help⟩⟩
    · cases missing.symm.trans parsed
    · rw [same]
    · rw [help]
      rfl

theorem Tame.steady (h : Tame line) (s : Session) : Execution.Steady ⟨s, line⟩ where
  files _ := h.kept s
  nested path sourced := by cases h.alone.symm.trans sourced
  text lines found := by
    rw [included?, h.alone] at found
    cases found

theorem steady_of_tame {script : Script} {texts : List String} (h : ∀ line ∈ texts, Tame line)
    (top : maxDepth - s.depth = room) (left : script.left s.files = texts.map some) :
    ∀ x ∈ executionsWith (sourceWithin room) (executionsWithin room) script s, x.Steady := by
  induction texts generalizing script s with
  | nil =>
    rw [executionsWith_of_end (Script.next?_eq_none_of_left left)]
    exact List.forall_mem_nil _
  | cons line texts ih =>
    obtain ⟨first, others⟩ := List.forall_mem_cons.mp h
    refine steady_of_left top left (first.steady s) ?_ fun rest s' => ih others
    rw [first.alone]
    exact List.forall_mem_nil _

theorem steady_of_sourced (depth : s.depth < maxDepth) (sourced : sourced? line = some path)
    (found : included? s.files line = some lines) (text : ∀ line ∈ lines, line.isSome) :
    Execution.Steady ⟨s, line⟩ where
  files alone := by cases alone.symm.trans sourced
  nested _ _ := depth
  text inner included := by
    cases found.symm.trans included
    exact text

def innerFile : ByteArray := "node x\nfrob\n".toUTF8

def outerFile : ByteArray := "source inner\nnode y\n".toUTF8

def nestedFiles : FileTree := (({} : FileTree).addFile ["inner"] innerFile).addFile ["outer"] outerFile

theorem ofBytes_innerFile : Lines.ofBytes innerFile = ["node x", "frob"].map some := by
  rw [innerFile, Lines.ofBytes_toUTF8]
  with_unfolding_all decide

theorem ofBytes_outerFile : Lines.ofBytes outerFile = [some "source inner", some "node y"] := by
  rw [outerFile, Lines.ofBytes_toUTF8]
  with_unfolding_all decide

theorem follow_root (t : FileTree) {name : String}
    (short : name.utf8ByteSize ≤ 255 ∧ '\x00' ∉ name.toList) (plain : name ∉ ["", ".", ".."]) :
    t.follow [] [name] = some [name] := by
  have named : FileTree.isName name = true := by
    rw [FileTree.isName, String.contains_char_eq]
    simp [short]
  simp only [List.mem_cons, List.not_mem_nil, or_false, not_or] at plain
  simp [FileTree.follow, FileTree.enter, FileTree.isDirectory, named, plain]

theorem read?_inner : nestedFiles.read? "inner" = some innerFile := by
  have located : nestedFiles.locate? "inner" = some ["inner"] :=
    follow_root _ (by with_unfolding_all decide) (by decide)
  rw [FileTree.read?, located]
  with_unfolding_all decide

theorem read?_outer : nestedFiles.read? "outer" = some outerFile := by
  have located : nestedFiles.locate? "outer" = some ["outer"] :=
    follow_root _ (by with_unfolding_all decide) (by decide)
  rw [FileTree.read?, located]
  with_unfolding_all decide

theorem sourced?_inner : sourced? "source inner" = some "inner" := by with_unfolding_all decide

theorem sourced?_outer : sourced? "source outer" = some "outer" := by with_unfolding_all decide

theorem included?_inner : included? nestedFiles "source inner" = some (["node x", "frob"].map some) := by
  rw [included?, sourced?_inner, Option.bind_some, read?_inner, Option.map_some, ofBytes_innerFile]

theorem included?_outer :
    included? nestedFiles "source outer" = some [some "source inner", some "node y"] := by
  rw [included?, sourced?_outer, Option.bind_some, read?_outer, Option.map_some, ofBytes_outerFile]

theorem tame_commands : ∀ line ∈ ["node x", "frob", "node y"], Tame line := by
  have x : Command.ofLine? "node x" = some (.node false none none "x" none) := by
    with_unfolding_all decide
  have y : Command.ofLine? "node y" = some (.node false none none "y" none) := by
    with_unfolding_all decide
  have frob : Command.ofLine? "frob" = none := by with_unfolding_all decide
  simpa using ⟨Tame.node x, Tame.ofLine?_eq_none frob, Tame.node y⟩

theorem expand_outer :
    expand nestedFiles maxDepth [some "source outer"] = ["node x", "frob", "node y"].map some := by
  have remain : ∀ line ∈ ["node x", "frob", "node y"].map some,
      line.bind (included? nestedFiles) = none :=
    List.forall_mem_map.mpr fun line mem => included?_eq_none.mpr (.inl (tame_commands line mem).alone)
  have twice : expand nestedFiles 2 [some "source outer"] = ["node x", "frob", "node y"].map some := by
    rw [expand_of_included included?_outer, expand_cons, expand_of_included included?_inner,
      expand_of_missing (remain _ (by decide))]
    rfl
  rw [← twice] at remain
  exact (expand_of_whole remain (by decide)).trans twice

theorem steady_outer (settings : Settings) :
    ∀ x ∈ executions { files := nestedFiles, settings } [some "source outer"], x.Steady := by
  obtain ⟨outer, opened, left⟩ := FileTree.open?_of_read? read?_outer
  rw [ofBytes_outerFile] at left
  have started := steady_of_sourced (s := { files := nestedFiles, settings }) (Nat.succ_pos 31)
    sourced?_outer included?_outer (by decide)
  have nothing : ∀ line ∈ ([] : List String), Tame line := List.forall_mem_nil _
  have last : ∀ line ∈ ["node y"], Tame line :=
    fun line mem => tame_commands line (List.mem_append_right ["node x", "frob"] mem)
  refine steady_of_left rfl rfl started ?_ fun rest s' => steady_of_tame nothing
  rw [sourced?_outer]
  show ∀ x ∈ executionsWithin (31 + 1) "outer" _, x.Steady
  rw [executionsWithin_of_open opened]
  have nested := steady_of_sourced (s := { files := nestedFiles, settings, depth := 1 })
    (Nat.lt_of_sub_eq_succ rfl) sourced?_inner included?_inner (by decide)
  refine steady_of_left rfl left nested ?_ fun rest s' => steady_of_tame last
  obtain ⟨inner, opened, left⟩ := FileTree.open?_of_read? read?_inner
  rw [ofBytes_innerFile] at left
  rw [sourced?_inner]
  show ∀ x ∈ executionsWithin (30 + 1) "inner" _, x.Steady
  rw [executionsWithin_of_open opened]
  exact steady_of_tame (fun line mem => tame_commands line (List.mem_append_left ["node y"] mem)) rfl left

def sourcing : Session := { files := nestedFiles, settings := { stopOnError := false } }

/-- The failure in the inner file is counted once, and what follows is executed. -/
theorem runScript_outer : sourcing.Fresh ∧
    (∀ x ∈ sourcing.executions [some "source outer"], x.Steady) ∧
    (sourcing.runScript [some "source outer"]).1 = .ok 1 ∧
    (sourcing.runScript [some "source outer"]).2.graph.visibleNodes true = ["x", "y"] := by
  have fresh : sourcing.Fresh := ⟨rfl, rfl⟩
  obtain ⟨session, -, -, counted⟩ := runScript_expand fresh (steady_outer _) (Nat.le_refl maxDepth)
  have flat : expand sourcing.files maxDepth [some "source outer"] =
      ["node x", "frob", "node y"].map some := expand_outer
  rw [flat] at session counted
  obtain ⟨failures, once, nested⟩ := counted rfl (by decide)
  have one : (sourcing.runScript (["node x", "frob", "node y"].map some)).1 = .ok 1 := by
    with_unfolding_all rfl
  refine ⟨fresh, (steady_outer _), nested.trans (once.symm.trans one), ?_⟩
  rw [← session]
  with_unfolding_all decide

end CallAtlas.Session
