import CallAtlas.Proofs.Session.Inclusion
/-!
How the failures of a script that goes on after them are counted. Main statement: `counts_calls`. The count
is that of the lines that failed, in sourced files as well, if nothing was left uncounted before and no line
failed in a file from which a line is read that is not text; such a file has no count.
-/
namespace CallAtlas.Session

/-- What a file executes that is counted: nothing if a line is read from it that is not text. -/
def countedWithin : (room : Nat) → String → Session → List Execution
  | 0, _, _ => []
  | room + 1, path, s =>
    if none ∈ (turnsWithin (room + 1) path s).map Turn.line then []
    else (turnsWithin (room + 1) path s).flatMap (Turn.executions (countedWithin room))

def counted (s : Session) (lines : List Line) : List Execution :=
  executionsWith (sourceWithin (maxDepth - s.depth)) (countedWithin (maxDepth - s.depth)) (.lines lines) s

def countedOf (s : Session) (path : String) : List Execution :=
  countedWithin (maxDepth - s.depth) path s

namespace Execution

/-- What is counted after the line: its own failure, and what was left uncounted before it, unless a line of
the file that it sources has counted that. -/
def tally (x : Execution) : Nat := (if x.inside = [] then x.session.unreported else 0) + x.fails.toNat

end Execution

def total : List Execution → Nat
  | [] => 0
  | x :: xs => x.tally + total xs

/-- What a count comes to, given what was executed and what of that is counted. -/
structure Counts (s : Session) (executed counted : List Execution) (n : Nat) : Prop where
  sublist : counted.Sublist executed
  total : n = Session.total counted
  whole : (∀ x ∈ executed, ¬ x.BreaksOff) →
    n = executed.countP Execution.fails + if executed = [] then 0 else s.unreported
  exact : s.unreported = 0 → (n = executed.countP Execution.fails ↔
    ∀ x ∈ executed, x.BreaksOff → ∀ y ∈ x.inside, y.fails = false)

variable {s : Session} {r : Reader} {script rest : Script} {line path : String} {room : Nat}

theorem sublist_inner {inner inner' : String → Session → List Execution}
    (files : ∀ path s, (inner path s).Sublist (inner' path s)) (line : String) (s : Session) :
    ((sourced? line).elim [] (inner · s)).Sublist ((sourced? line).elim [] (inner' · s)) := by
  cases sourced? line with
  | none => exact List.Sublist.refl _
  | some path => exact files path s

theorem sublist_flatMap_executions {inner inner' : String → Session → List Execution}
    (files : ∀ path s, (inner path s).Sublist (inner' path s)) (turns : List Turn) :
    (turns.flatMap (Turn.executions inner)).Sublist (turns.flatMap (Turn.executions inner')) := by
  induction turns with
  | nil => exact List.Sublist.refl _
  | cons turn turns ih =>
    rw [List.flatMap_cons, List.flatMap_cons]
    refine List.Sublist.append ?_ ih
    unfold Turn.executions
    cases turn.line with
    | none => exact List.Sublist.refl _
    | some line => exact (sublist_inner files line turn.session).cons_cons _

theorem sublist_countedWithin (room : Nat) (path : String) (s : Session) :
    (countedWithin room path s).Sublist (executionsWithin room path s) := by
  induction room generalizing path s with
  | zero => exact List.Sublist.refl _
  | succ room ih =>
    rw [countedWithin, executionsWithin]
    split
    · exact List.nil_sublist _
    · exact sublist_flatMap_executions ih _

theorem sublist_executionsWith_counted (room : Nat) (script : Script) (s : Session) :
    (executionsWith (sourceWithin room) (countedWithin room) script s).Sublist
      (executionsWith (sourceWithin room) (executionsWithin room) script s) :=
  sublist_flatMap_executions (sublist_countedWithin room) _

theorem countedWithin_of_open (opened : s.files.open? path = some r) :
    countedWithin (room + 1) path s =
      if none ∈ (turnsWith (sourceWithin room) (.file r) { s with depth := s.depth + 1 }).map Turn.line
      then []
      else executionsWith (sourceWithin room) (countedWithin room) (.file r)
        { s with depth := s.depth + 1 } := by
  rw [countedWithin, turnsWithin_of_open opened]
  rfl

theorem inner_counted_cases (room : Nat) (s : Session) (line : String) :
    ((sourced? line).elim [] (executionsWithin room · s) = [] ∧
      (sourced? line).elim [] (countedWithin room · s) = []) ∨
    ∃ below path r, room = below + 1 ∧ sourced? line = some path ∧ s.files.open? path = some r ∧
      (sourced? line).elim [] (executionsWithin room · s) =
        executionsWith (sourceWithin below) (executionsWithin below) (.file r)
          { s with depth := s.depth + 1 } ∧
      (sourced? line).elim [] (countedWithin room · s) =
        if none ∈ (turnsWith (sourceWithin below) (.file r) { s with depth := s.depth + 1 }).map Turn.line
        then [] else
          executionsWith (sourceWithin below) (countedWithin below) (.file r)
            { s with depth := s.depth + 1 } := by
  rcases inner_cases room s line with nothing | ⟨below, path, r, rfl, sourced, opened, same⟩
  · refine .inl ⟨nothing, ?_⟩
    have inside := sublist_inner (sublist_countedWithin room) line s
    rw [nothing] at inside
    exact List.eq_nil_of_subset_nil inside.subset
  · refine .inr ⟨below, path, r, rfl, sourced, opened, same, ?_⟩
    rw [sourced]
    exact countedWithin_of_open opened

theorem tally_eq (s : Session) (line : String) : Execution.tally ⟨s, line⟩ =
    (if Execution.inside ⟨s, line⟩ = [] then s.unreported else 0) + (Execution.fails ⟨s, line⟩).toNat :=
  rfl

theorem total_cons (x : Execution) (xs : List Execution) : total (x :: xs) = x.tally + total xs :=
  rfl

theorem total_append (xs ys : List Execution) : total (xs ++ ys) = total xs + total ys := by
  induction xs with
  | nil => exact (Nat.zero_add _).symm
  | cons x xs ih => rw [List.cons_append, total_cons, total_cons, ih, Nat.add_assoc]

theorem lineOutcome_of_going (go : s.settings.stopOnError = false) (top : maxDepth - s.depth = room)
    (line : String) : (lineOutcome (sourceWithin room) line s).1 =
      .ok ((s.executeLineWith (sourceWithin room) line).2.unreported +
        (Execution.fails ⟨s, line⟩).toNat) := by
  have kept := settings_executeLineWith (s := s) (settings_sourceWithin room) line
  rw [lineOutcome, Execution.fails, executeLine_eq top]
  revert kept
  obtain ⟨e | ⟨⟩, s'⟩ := s.executeLineWith (sourceWithin room) line
  · intro kept
    have go : s'.settings.stopOnError = false := (congrArg Settings.stopOnError kept).trans go
    simp [settle, go]
  · intro kept
    rfl

/-- The failures that a line leaves to the script that executes it: those that its file has counted, and those
that were left before if nothing in the file has counted them. -/
theorem unreported_line (go : s.settings.stopOnError = false) (top : maxDepth - s.depth = room)
    (below : ∀ below path r, room = below + 1 → sourced? line = some path →
      s.files.open? path = some r → ∀ n,
      (outcome (sourceWithin below) (.file r) { s with depth := s.depth + 1 }).1 = .ok n →
      n = total (executionsWith (sourceWithin below) (countedWithin below) (.file r)
        { s with depth := s.depth + 1 })) :
    (s.executeLineWith (sourceWithin room) line).2.unreported =
      (if Execution.inside ⟨s, line⟩ = [] then s.unreported else 0) +
        total ((sourced? line).elim [] (countedWithin room · s)) := by
  rw [Execution.inside_eq top]
  rcases line_cases room s line with alone | ⟨path, cause, sourced, ran, nothing⟩ |
    ⟨room, path, r, rfl, sourced, opened⟩
  · rw [(placed_executeLineWith _ s alone).2, alone]
    rfl
  · have nothing := executionsWithin_of_turns nothing
    have uncounted : countedWithin room path s = [] :=
      List.eq_nil_of_subset_nil (nothing ▸ (sublist_countedWithin room path s).subset)
    rw [executeLineWith_of_sourced sourced, ran, sourced]
    show s.unreported = (if executionsWithin room path s = [] then s.unreported else 0) +
      total (countedWithin room path s)
    rw [nothing, uncounted]
    rfl
  · obtain ⟨result, session⟩ := sourceWithin_of_open room opened
    have left := unreported_outcome (sourceWithin room) (executionsWithin room) (.file r)
      { s with depth := s.depth + 1 }
    rw [executeLineWith_of_sourced sourced, sourced]
    show _ = (if executionsWithin (room + 1) path s = [] then s.unreported else 0) +
      total (countedWithin (room + 1) path s)
    rw [executionsWithin_of_open opened, countedWithin_of_open opened, ← left]
    revert result session
    obtain ⟨e | n, s'⟩ := sourceWithin (room + 1) path s
    · rintro result rfl
      have stopped : none ∈ (turnsWith (sourceWithin room) (.file r)
          { s with depth := s.depth + 1 }).map Turn.line := by
        by_contra text
        obtain ⟨n, ended⟩ := outcome_eq_ok room text go
        cases result.trans ended
      rw [if_pos stopped]
      rfl
    · rintro result rfl
      rw [if_neg (text_of_outcome result.symm), ← below room path r rfl sourced opened n result.symm]
      rfl

theorem count_of_outcome (go : s.settings.stopOnError = false) (top : maxDepth - s.depth = room) {n : Nat}
    (ended : (outcome (sourceWithin room) script s).1 = .ok n) :
    n = total (executionsWith (sourceWithin room) (countedWithin room) script s) := by
  induction room, script, s using run_induction generalizing n with
  | ended room script s next =>
    rw [outcome_of_end next] at ended
    cases ended
    rw [executionsWith_of_end next]
    rfl
  | broken room script rest s next =>
    rw [outcome_of_broken next] at ended
    cases ended
  | line room script line rest s next inner ih =>
    have deeper (below path r) (size : room = below + 1) (sourced : sourced? line = some path)
        (opened : s.files.open? path = some r) (n) := by
      refine inner below path r size sourced opened (n := n) go ?_
      show maxDepth - (s.depth + 1) = below
      omega
    have first := lineOutcome_of_going go top line
    rw [outcome_of_ok next first] at ended
    obtain ⟨m, later, rfl⟩ := map_eq_ok_iff.mp ended
    have rest_counted := ih (by rw [settings_lineOutcome]; exact go) (by rw [depth_lineOutcome]; exact top)
      later
    rw [executionsWith_of_line next, if_pos (by rw [first]; rfl), total_cons, total_append, tally_eq,
      unreported_line go top deeper, ← rest_counted]
    omega

theorem countP_fails_cons (x : Execution) (xs : List Execution) :
    (x :: xs).countP Execution.fails = x.fails.toNat + xs.countP Execution.fails := by
  rw [List.countP_cons, Nat.add_comm]
  cases x.fails <;> rfl

theorem total_executionsWith (top : maxDepth - s.depth = room) :
    total (executionsWith (sourceWithin room) (executionsWithin room) script s) =
      (executionsWith (sourceWithin room) (executionsWithin room) script s).countP Execution.fails +
        if executionsWith (sourceWithin room) (executionsWithin room) script s = [] then 0
        else s.unreported := by
  induction room, script, s using run_induction with
  | ended room script s next =>
    rw [executionsWith_of_end next]
    rfl
  | broken room script rest s next =>
    rw [executionsWith_of_broken next]
    rfl
  | line room script line rest s next inner ih =>
    rw [executionsWith_of_line next, if_neg (List.cons_ne_nil _ _), total_cons, total_append,
      countP_fails_cons, List.countP_append, tally_eq, Execution.inside_eq top]
    have nested : total ((sourced? line).elim [] (executionsWithin room · s)) =
        ((sourced? line).elim [] (executionsWithin room · s)).countP Execution.fails +
          if (sourced? line).elim [] (executionsWithin room · s) = [] then 0 else s.unreported := by
      rcases inner_cases room s line with nothing | ⟨below, path, r, rfl, sourced, opened, same⟩
      · rw [nothing]
        rfl
      · rw [same]
        refine inner below path r rfl sourced opened ?_
        show maxDepth - (s.depth + 1) = below
        omega
    rw [nested]
    cases (lineOutcome (sourceWithin room) line s).1.isOk with
    | false =>
      rw [if_neg Bool.false_ne_true]
      split <;> simp [total] <;> omega
    | true =>
      have later := ih (by rw [depth_lineOutcome]; exact top)
      rw [unreported_lineOutcome, ite_self] at later
      rw [if_pos rfl, later]
      split <;> omega

theorem counted_eq_executions (top : maxDepth - s.depth = room)
    (whole : ∀ x ∈ executionsWith (sourceWithin room) (executionsWithin room) script s, ¬ x.BreaksOff) :
    executionsWith (sourceWithin room) (countedWithin room) script s =
      executionsWith (sourceWithin room) (executionsWithin room) script s := by
  induction room, script, s using run_induction with
  | ended room script s next => rw [executionsWith_of_end next, executionsWith_of_end next]
  | broken room script rest s next => rw [executionsWith_of_broken next, executionsWith_of_broken next]
  | line room script line rest s next inner ih =>
    rw [executionsWith_of_line next, List.forall_mem_cons, List.forall_mem_append] at whole
    obtain ⟨here, within, later⟩ := whole
    rw [executionsWith_of_line next, executionsWith_of_line next]
    refine congrArg _ (congrArg₂ _ ?_ ?_)
    · rcases inner_counted_cases room s line with ⟨nothing, uncounted⟩ |
        ⟨below, path, r, rfl, sourced, opened, same, counted⟩
      · rw [nothing, uncounted]
      · have deeper : maxDepth - (s.depth + 1) = below := by omega
        rw [same] at within ⊢
        rw [counted, if_neg (mt (breaksOff_iff top sourced opened).mpr here)]
        exact inner below path r rfl sourced opened deeper within
    · split at later
      · rw [if_pos ‹_›, if_pos ‹_›]
        exact ih (by rw [depth_lineOutcome]; exact top) later
      · rw [if_neg ‹_›, if_neg ‹_›]

theorem unreported_of_mem (none_left : s.unreported = 0) :
    ∀ x ∈ executionsWith (sourceWithin room) (executionsWithin room) script s,
      x.session.unreported = 0 := by
  induction room, script, s using run_induction with
  | ended room script s next =>
    rw [executionsWith_of_end next]
    exact List.forall_mem_nil _
  | broken room script rest s next =>
    rw [executionsWith_of_broken next]
    exact List.forall_mem_nil _
  | line room script line rest s next inner ih =>
    rw [executionsWith_of_line next, List.forall_mem_cons, List.forall_mem_append]
    refine ⟨none_left, ?_, ?_⟩
    · rcases inner_cases room s line with nothing | ⟨below, path, r, rfl, sourced, opened, same⟩
      · rw [nothing]
        exact List.forall_mem_nil _
      · rw [same]
        exact inner below path r rfl sourced opened none_left
    · split
      · exact ih (unreported_lineOutcome _ line s)
      · exact List.forall_mem_nil _

theorem total_eq_countP {xs : List Execution} (none_left : ∀ x ∈ xs, x.session.unreported = 0) :
    total xs = xs.countP Execution.fails := by
  induction xs with
  | nil => rfl
  | cons x xs ih =>
    obtain ⟨first, others⟩ := List.forall_mem_cons.mp none_left
    rw [total_cons, countP_fails_cons, ih others, Execution.tally, first, ite_self, Nat.zero_add]

theorem countP_inner_counted_iff (top : maxDepth - s.depth = room)
    (file : ∀ below path r, room = below + 1 → sourced? line = some path →
      s.files.open? path = some r →
      ((executionsWith (sourceWithin below) (countedWithin below) (.file r)
            { s with depth := s.depth + 1 }).countP Execution.fails =
          (executionsWith (sourceWithin below) (executionsWithin below) (.file r)
            { s with depth := s.depth + 1 }).countP Execution.fails ↔
        ∀ x ∈ executionsWith (sourceWithin below) (executionsWithin below) (.file r)
            { s with depth := s.depth + 1 }, x.BreaksOff → ∀ y ∈ x.inside, y.fails = false)) :
    ((sourced? line).elim [] (countedWithin room · s)).countP Execution.fails =
        ((sourced? line).elim [] (executionsWithin room · s)).countP Execution.fails ↔
      (Execution.BreaksOff ⟨s, line⟩ →
        ∀ y ∈ (sourced? line).elim [] (executionsWithin room · s), y.fails = false) ∧
      ∀ x ∈ (sourced? line).elim [] (executionsWithin room · s),
        x.BreaksOff → ∀ y ∈ x.inside, y.fails = false := by
  rcases inner_counted_cases room s line with ⟨nothing, uncounted⟩ |
    ⟨below, path, r, rfl, sourced, opened, same, counted⟩
  · simp [nothing, uncounted]
  · have deeper : maxDepth - (s.depth + 1) = below := by omega
    rw [same, counted, breaksOff_iff top sourced opened]
    split
    · rename_i stopped
      rw [List.countP_nil, eq_comm, List.countP_eq_zero]
      simp only [Bool.not_eq_true]
      exact ⟨fun none_fails => ⟨fun _ => none_fails, fun x hx _ y hy =>
        none_fails y (mem_executions_of_mem_inside deeper hx hy)⟩, fun h => h.1 stopped⟩
    · rename_i text
      rw [file below path r rfl sourced opened]
      exact (and_iff_right fun stopped => absurd stopped text).symm

/-- Failures are missing from what is counted exactly if lines fail in files that break off. -/
theorem countP_counted_iff (top : maxDepth - s.depth = room) :
    (executionsWith (sourceWithin room) (countedWithin room) script s).countP Execution.fails =
        (executionsWith (sourceWithin room) (executionsWithin room) script s).countP Execution.fails ↔
      ∀ x ∈ executionsWith (sourceWithin room) (executionsWithin room) script s,
        x.BreaksOff → ∀ y ∈ x.inside, y.fails = false := by
  induction room, script, s using run_induction with
  | ended room script s next => simp [executionsWith_of_end next]
  | broken room script rest s next => simp [executionsWith_of_broken next]
  | line room script line rest s next inner ih =>
    have nested := countP_inner_counted_iff top fun below path r size sourced opened =>
      have deeper : maxDepth - (s.depth + 1) = below := by omega
      inner below path r size sourced opened deeper
    have fewer : ((sourced? line).elim [] (countedWithin room · s)).countP Execution.fails ≤
        ((sourced? line).elim [] (executionsWithin room · s)).countP Execution.fails :=
      (sublist_inner (sublist_countedWithin room) line s).countP_le
    rw [executionsWith_of_line next, executionsWith_of_line next, countP_fails_cons, countP_fails_cons,
      List.countP_append, List.countP_append, List.forall_mem_cons, List.forall_mem_append,
      Execution.inside_eq top, ← and_assoc, ← nested]
    cases (lineOutcome (sourceWithin room) line s).1.isOk with
    | false =>
      rw [if_neg Bool.false_ne_true, if_neg Bool.false_ne_true]
      simp
    | true =>
      have fewer_later := (sublist_executionsWith_counted room rest
        (lineOutcome (sourceWithin room) line s).2).countP_le (p := Execution.fails)
      rw [if_pos rfl, if_pos rfl, ← ih (by rw [depth_lineOutcome]; exact top)]
      omega

theorem counts_outcome (go : s.settings.stopOnError = false) (top : maxDepth - s.depth = room) {n : Nat}
    (ended : (outcome (sourceWithin room) script s).1 = .ok n) :
    Counts s (executionsWith (sourceWithin room) (executionsWithin room) script s)
      (executionsWith (sourceWithin room) (countedWithin room) script s) n where
  sublist := sublist_executionsWith_counted room script s
  total := count_of_outcome go top ended
  whole none_breaks := by
    rw [count_of_outcome go top ended, counted_eq_executions top none_breaks, total_executionsWith top]
  exact none_left := by
    have counted_in := (sublist_executionsWith_counted room script s).subset
    rw [count_of_outcome go top ended,
      total_eq_countP fun x hx => unreported_of_mem none_left x (counted_in hx), countP_counted_iff top]

/-- What a script or a file counts when it goes on after failures: the lines that failed, and what was left
uncounted before the call, but for the lines in files that break off. -/
theorem counts_calls (go : s.settings.stopOnError = false) :
    (∀ lines n, (s.runScript lines).1 = .ok n → Counts s (s.executions lines) (s.counted lines) n) ∧
      ∀ path n, (s.source path).1 = .ok n → Counts s (s.executionsOf path) (s.countedOf path) n := by
  constructor
  · intro lines n ran
    exact counts_outcome go rfl (congrArg (Except.mapError Failure.cause) ran)
  · intro path n ran
    rw [source] at ran
    rw [executionsOf, countedOf]
    cases top : maxDepth - s.depth with
    | zero =>
      rw [top] at ran
      cases ran
    | succ room =>
      rw [top] at ran
      cases opened : s.files.open? path with
      | none =>
        rw [sourceWithin_of_missing opened (Nat.succ_ne_zero room)] at ran
        cases ran
      | some r =>
        have deeper : maxDepth - (s.depth + 1) = room := by omega
        have text := (sourceWithin_of_open room opened).1
        rw [ran] at text
        have counts := counts_outcome (s := { s with depth := s.depth + 1 }) go deeper text.symm
        rw [executionsWithin_of_open opened, countedWithin_of_open opened,
          if_neg (text_of_outcome text.symm)]
        exact ⟨counts.sublist, counts.total, counts.whole, counts.exact⟩

/-- A session that has sourced a file with a failure by a line of its own. -/
def leftover : Session := (sourcing.executeLine "source inner").2

theorem outcome_innerFile (opened : sourcing.files.open? "inner" = some r) : ∃ s' : Session,
    outcome (sourceWithin 31) (.file r) { sourcing with depth := sourcing.depth + 1 } = (.ok 1, s') ∧
      s'.unreported = 0 := by
  obtain ⟨contents, read, left⟩ := FileTree.read?_of_open? opened
  cases read.symm.trans read?_inner
  rw [ofBytes_innerFile] at left
  have top : maxDepth - ({ sourcing with depth := sourcing.depth + 1 } : Session).depth = 31 := rfl
  have lines : (Script.file r).left sourcing.files = ["node x", "frob"].map some := left
  have steady := steady_of_tame (fun line mem => tame_commands line (List.mem_append_left ["node y"] mem))
    top lines
  rw [outcome_of_keeps top fun x hx => (steady x hx).files, lines]
  exact ⟨_, by with_unfolding_all rfl, by with_unfolding_all rfl⟩

theorem unreported_leftover : leftover.unreported = 1 := by
  obtain ⟨r, opened, -⟩ := FileTree.open?_of_read? read?_inner
  obtain ⟨s', inner, counted⟩ := outcome_innerFile opened
  obtain ⟨result, session⟩ := sourceWithin_of_open (s := sourcing) 31 opened
  rw [inner] at result session
  have ran : sourceWithin 32 "inner" sourcing = (.ok 1, s'.placed 0 s'.unreported) :=
    Prod.ext (mapError_eq_ok result) session
  have line : sourcing.executeLine "source inner" = included (sourceWithin 32 "inner" sourcing) :=
    executeLineWith_of_sourced sourced?_inner
  rw [leftover, line, ran]
  show s'.unreported + 1 = 1
  rw [counted]

theorem settings_leftover : leftover.settings.stopOnError = false :=
  congrArg Settings.stopOnError
    (settings_executeLineWith (s := sourcing) (settings_sourceWithin maxDepth) "source inner")

theorem ofLine?_node_y : Command.ofLine? "node y" = some (.node false none none "y" none) := by
  with_unfolding_all decide

theorem fails_node_y (s : Session) : Execution.fails ⟨s, "node y"⟩ = false := by
  rw [Execution.fails, executeLine, executeLineWith_of_command ofLine?_node_y]
  rfl

/-- A count that is one too high: the failure was another call's. -/
theorem counts_leftover : leftover.settings.stopOnError = false ∧
    (leftover.runScript [some "node y"]).1 = .ok 1 ∧
    Counts leftover (leftover.executions [some "node y"]) (leftover.counted [some "node y"]) 1 ∧
    (leftover.executions [some "node y"]).countP Execution.fails = 0 := by
  have alone : sourced? "node y" = none := by
    rw [sourced?, ofLine?_node_y]
  have ran : (leftover.runScript [some "node y"]).1 = .ok 1 := by
    refine mapError_eq_ok (f := Failure.cause) ?_
    have line := lineOutcome_of_going settings_leftover rfl "node y"
    rw [(placed_executeLineWith _ leftover alone).2, unreported_leftover, fails_node_y,
      ← outcome_singleton] at line
    exact line
  have executed : leftover.executions [some "node y"] = [⟨leftover, "node y"⟩] := by
    rw [executions, executionsWith_singleton, alone]
    rfl
  refine ⟨settings_leftover, ran, (counts_calls settings_leftover).1 _ _ ran, ?_⟩
  rw [executed, countP_fails_cons, fails_node_y]
  rfl

def spoiledFile : ByteArray := ⟨"frob\n".toUTF8.data ++ #[0xff, 10]⟩

theorem ofBytes_spoiledFile : Lines.ofBytes spoiledFile = [some "frob", none] := by
  with_unfolding_all decide

/-- A session whose scripts go on after failures, and a file that is not text to its end. -/
def spoiling : Session where
  files := ({} : FileTree).addFile ["spoiled"] spoiledFile
  settings := { stopOnError := false }

theorem read?_spoiled : spoiling.files.read? "spoiled" = some spoiledFile := by
  have located : spoiling.files.locate? "spoiled" = some ["spoiled"] :=
    follow_root _ (by with_unfolding_all decide) (by decide)
  rw [FileTree.read?, located]
  with_unfolding_all decide

theorem sourced?_spoiled : sourced? "source spoiled" = some "spoiled" := by with_unfolding_all decide

theorem fails_frob (s : Session) : Execution.fails ⟨s, "frob"⟩ = true := by
  have split : Token.split "frob" = .ok ["frob"] := by with_unfolding_all rfl
  have parsed : Command.ofTokens ["frob"] = .error (.unknownCommand "frob") := by
    with_unfolding_all rfl
  rw [Execution.fails, executeLine, executeLineWith, split]
  dsimp only
  rw [parsed]
  rfl

def inSpoiled : Session := { spoiling with depth := spoiling.depth + 1 }

theorem turnsOf_spoiled : ∃ s : Session,
    spoiling.turnsOf "spoiled" = [⟨inSpoiled, some "frob"⟩, ⟨s, none⟩] := by
  have frob : Tame "frob" := tame_commands "frob" (by decide)
  have top : maxDepth - inSpoiled.depth = 31 := rfl
  obtain ⟨r, opened, left⟩ := FileTree.open?_of_read? read?_spoiled
  rw [ofBytes_spoiledFile] at left
  have left : (Script.file r).left inSpoiled.files = [some "frob", none] := left
  obtain ⟨rest, next, left⟩ := Script.next?_of_left left
  have ran := lineOutcome_of_going (s := inSpoiled) rfl top "frob"
  have kept : (lineOutcome (sourceWithin 31) "frob" inSpoiled).2.files = inSpoiled.files := by
    refine files_lineOutcome top (frob.steady inSpoiled).files ?_
    rw [frob.alone]
    exact List.forall_mem_nil _
  rw [← kept] at left
  obtain ⟨_, last, _⟩ := Script.next?_of_left left
  refine ⟨(lineOutcome (sourceWithin 31) "frob" inSpoiled).2, ?_⟩
  show turnsWithin (31 + 1) "spoiled" spoiling = _
  rw [turnsWithin_of_open opened]
  show turnsWith (sourceWithin 31) (.file r) inSpoiled = _
  rw [turnsWith_of_line next, ran, isOk_ok, if_pos rfl, turnsWith_of_broken last]

theorem breaksOff_spoiled : Execution.BreaksOff ⟨spoiling, "source spoiled"⟩ := by
  obtain ⟨s, read⟩ := turnsOf_spoiled
  refine ⟨"spoiled", sourced?_spoiled, ?_⟩
  rw [read]
  exact List.mem_cons_of_mem _ List.mem_cons_self

theorem countedOf_spoiled : spoiling.countedOf "spoiled" = [] := by
  obtain ⟨s, read⟩ := turnsOf_spoiled
  change turnsWithin (31 + 1) "spoiled" spoiling = _ at read
  show countedWithin (31 + 1) "spoiled" spoiling = []
  rw [countedWithin, read]
  rfl

theorem executionsOf_spoiled : spoiling.executionsOf "spoiled" = [⟨inSpoiled, "frob"⟩] := by
  have alone : sourced? "frob" = none := by with_unfolding_all decide
  obtain ⟨s, read⟩ := turnsOf_spoiled
  change turnsWithin (31 + 1) "spoiled" spoiling = _ at read
  show executionsWithin (31 + 1) "spoiled" spoiling = _
  rw [executionsWithin, read]
  show (⟨inSpoiled, "frob"⟩ : Execution) :: ((sourced? "frob").elim [] _ ++ []) = _
  rw [alone]
  rfl

/-- Two lines fail, the first one of the file and the line that sources it; the count is one. -/
theorem spoiled_failure_uncounted : (spoiling.runScript [some "source spoiled"]).1 = .ok 1 ∧
    (spoiling.executions [some "source spoiled"]).countP Execution.fails = 2 := by
  constructor
  · have text : ∀ line ∈ [some "source spoiled"], line.isSome := by decide
    obtain ⟨n, ended⟩ := runScript_eq_ok text (s := spoiling) rfl
    have one : n = 1 := by
      have ended := congrArg (Except.mapError Failure.cause) ended
      rw [count_of_outcome (s := spoiling) rfl rfl ended, executionsWith_singleton, sourced?_spoiled]
      show total (_ :: spoiling.countedOf "spoiled") = 1
      rw [countedOf_spoiled, total_cons, Execution.tally, breaksOff_spoiled.fails]
      exact congrArg (· + 1) (ite_self 0)
    rw [ended, one]
  · rw [executions, executionsWith_singleton, sourced?_spoiled]
    show (_ :: spoiling.executionsOf "spoiled").countP _ = 2
    rw [executionsOf_spoiled, countP_fails_cons, countP_fails_cons, breaksOff_spoiled.fails, fails_frob]
    rfl

end CallAtlas.Session
