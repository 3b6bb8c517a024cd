import CallAtlas.Invocation
import CallAtlas.Proofs.Session.Inclusion
/-!
The status with which the program ends. Main statement: `status_eq_zero_iff`. No failure is lost on the way
to it, whether the first one ends the run or not: the status is 0 exactly if all scripts are there, what is
read of them is text, and no line that was executed failed.
-/
namespace CallAtlas

namespace Session

variable {s : Session} {script rest : Script} {line path : String} {room : Nat} {lines : List Line}

/-- The file can be opened, and all lines that are read from it are text. It is read to its end unless a line
fails before. -/
def ReadsText (s : Session) (path : String) : Prop :=
  (s.files.open? path).isSome ∧ none ∉ (s.turnsOf path).map Turn.line

theorem settle_eq_ok_zero_iff {r : Except Failure Unit × Session} :
    (settle r).1 = .ok 0 ↔ r.1.isOk = true ∧ r.2.unreported = 0 := by
  obtain ⟨e | ⟨⟩, s⟩ := r
  · unfold settle
    dsimp only
    split <;> simp
  · simp [settle]

theorem unreported_line_eq_zero_iff (none_left : s.unreported = 0)
    (succeeds : (s.executeLineWith (sourceWithin room) line).1.isOk = true)
    (below : ∀ below path r, room = below + 1 → sourced? line = some path →
      s.files.open? path = some r →
      ((outcome (sourceWithin below) (.file r) { s with depth := s.depth + 1 }).1 = .ok 0 ↔
        none ∉ (turnsWith (sourceWithin below) (.file r) { s with depth := s.depth + 1 }).map Turn.line ∧
          ∀ x ∈ executionsWith (sourceWithin below) (executionsWithin below) (.file r)
            { s with depth := s.depth + 1 }, x.fails = false)) :
    (s.executeLineWith (sourceWithin room) line).2.unreported = 0 ↔
      ∀ x ∈ (sourced? line).elim [] (executionsWithin room · s), x.fails = false := by
  rcases line_cases room s line with alone | ⟨path, cause, sourced, ran, nothing⟩ |
    ⟨room, path, r, rfl, sourced, opened⟩
  · rw [(placed_executeLineWith _ s alone).2, alone, none_left]
    simp
  · rw [executeLineWith_of_sourced sourced, ran] at succeeds
    cases succeeds
  · obtain ⟨result, session⟩ := sourceWithin_of_open room opened
    have left := unreported_outcome_eq_zero (s := { s with depth := s.depth + 1 }) (sourceWithin room)
      (.file r) none_left
    rw [executeLineWith_of_sourced sourced] at succeeds ⊢
    rw [sourced]
    show _ ↔ ∀ x ∈ executionsWithin (room + 1) path s, x.fails = false
    rw [executionsWithin_of_open opened]
    revert succeeds result session
    obtain ⟨e | n, s'⟩ := sourceWithin (room + 1) path s
    · nofun
    · rintro - result rfl
      have clean := below room path r rfl sourced opened
      rw [← result, and_iff_right (text_of_outcome result.symm)] at clean
      rw [← clean]
      show (outcome _ _ _).2.unreported + n = 0 ↔ _
      rw [left, Nat.zero_add]
      simp [Except.mapError]

/-- A run comes to its end without a failure exactly if it reads text only and nothing that is executed
fails. -/
theorem outcome_eq_ok_zero_iff (top : maxDepth - s.depth = room) (none_left : s.unreported = 0) :
    (outcome (sourceWithin room) script s).1 = .ok 0 ↔
      none ∉ (turnsWith (sourceWithin room) script s).map Turn.line ∧
        ∀ x ∈ executionsWith (sourceWithin room) (executionsWithin room) script s, x.fails = false := by
  induction room, script, s using run_induction with
  | ended room script s next =>
    simp [outcome_of_end next, turnsWith_of_end next, executionsWith_of_end next]
  | broken room script rest s next => simp [outcome_of_broken next, turnsWith_of_broken next]
  | line room script line rest s next inner ih =>
    have first : (lineOutcome (sourceWithin room) line s).1 = .ok 0 ↔
        Execution.fails ⟨s, line⟩ = false ∧
          ∀ x ∈ (sourced? line).elim [] (executionsWithin room · s), x.fails = false := by
      rw [lineOutcome, settle_eq_ok_zero_iff, Execution.fails, executeLine_eq top, Bool.not_eq_false']
      refine and_congr_right fun succeeds => unreported_line_eq_zero_iff none_left succeeds ?_
      intro below path r size sourced opened
      have deeper : maxDepth - (s.depth + 1) = below := by omega
      exact inner below path r size sourced opened deeper none_left
    have later := ih (by rw [depth_lineOutcome]; exact top) (unreported_lineOutcome _ line s)
    rw [turnsWith_of_line next, executionsWith_of_line next, List.map_cons, List.mem_cons, not_or,
      and_iff_right (Option.some_ne_none line).symm, List.forall_mem_cons, List.forall_mem_append]
    by_cases clean : (lineOutcome (sourceWithin room) line s).1 = .ok 0
    · obtain ⟨succeeds, within⟩ := first.mp clean
      rw [outcome_of_ok next clean, map_eq_ok_iff, clean, isOk_ok, if_pos rfl, if_pos rfl]
      simp only [Nat.zero_add, exists_eq_right']
      rw [later]
      constructor
      · rintro ⟨text, ended⟩
        exact ⟨text, succeeds, within, ended⟩
      · rintro ⟨text, -, -, ended⟩
        exact ⟨text, ended⟩
    · refine iff_of_false (fun ended => clean ?_) fun h => clean (first.mpr ⟨h.2.1, h.2.2.1⟩)
      rw [outcome_of_line next] at ended
      revert ended
      obtain ⟨cause | n, s'⟩ := lineOutcome (sourceWithin room) line s
      · rintro ⟨⟩
      · intro ended
        obtain ⟨m, -, sum⟩ := map_eq_ok_iff.mp ended
        exact congrArg Except.ok (Nat.eq_zero_of_add_eq_zero_right sum.symm)

theorem turnsWith_of_ended {run : FileRunner} {n : Nat}
    (ended : (outcome run (.lines lines) s).1 = .ok n) :
    (turnsWith run (.lines lines) s).map Turn.line = lines := by
  induction lines generalizing s n with
  | nil =>
    rw [turnsWith_of_end (Script.next?_nil s.files)]
    rfl
  | cons line rest ih =>
    have next := Script.next?_cons s.files line rest
    cases line with
    | none =>
      rw [outcome_of_broken next] at ended
      cases ended
    | some line =>
      rw [outcome_of_line next] at ended
      rw [turnsWith_of_line next]
      revert ended
      obtain ⟨cause | first, s'⟩ := lineOutcome run line s
      · nofun
      · intro ended
        obtain ⟨m, later, -⟩ := map_eq_ok_iff.mp ended
        rw [isOk_ok, if_pos rfl, List.map_cons, ih later]

theorem Fresh.runScript_eq_ok_zero_iff (fresh : s.Fresh) : (s.runScript lines).1 = .ok 0 ↔
    none ∉ lines ∧ ∀ x ∈ s.executions lines, x.fails = false := by
  have clean : (s.runScript lines).1 = .ok 0 ↔
      (outcome (sourceWithin (maxDepth - s.depth)) (.lines lines) s).1 = .ok 0 :=
    ⟨congrArg (Except.mapError Failure.cause), mapError_eq_ok⟩
  have read := prefix_turnsWith (sourceWithin (maxDepth - s.depth)) lines s
  rw [clean, executions]
  constructor
  · intro ended
    obtain ⟨text, succeeds⟩ := (outcome_eq_ok_zero_iff rfl fresh.unreported).mp ended
    rw [turnsWith_of_ended ended] at text
    exact ⟨text, succeeds⟩
  · rintro ⟨text, succeeds⟩
    exact (outcome_eq_ok_zero_iff rfl fresh.unreported).mpr
      ⟨fun broken => text (read.subset broken), succeeds⟩

theorem Fresh.exists_room (fresh : s.Fresh) : ∃ room, maxDepth - s.depth = room + 1 :=
  ⟨31, by rw [fresh.depth]; rfl⟩

theorem Fresh.source (fresh : s.Fresh) (path : String) : (s.source path).2.Fresh := by
  obtain ⟨room, top⟩ := fresh.exists_room
  refine ⟨(lasting_depth.sourceWithin _ path s).trans fresh.depth, ?_⟩
  rw [Session.source, top]
  cases opened : s.files.open? path with
  | none =>
    rw [sourceWithin_of_missing opened (Nat.succ_ne_zero room)]
    exact fresh.unreported
  | some r =>
    rw [(sourceWithin_of_open room opened).2]
    exact unreported_outcome_eq_zero (s := { s with depth := s.depth + 1 }) (sourceWithin room) (.file r)
      fresh.unreported

theorem Fresh.source_eq_ok_zero_iff (fresh : s.Fresh) (path : String) : (s.source path).1 = .ok 0 ↔
    s.ReadsText path ∧ ∀ x ∈ s.executionsOf path, x.fails = false := by
  obtain ⟨room, top⟩ := fresh.exists_room
  rw [Session.source, executionsOf, ReadsText, turnsOf, top]
  cases opened : s.files.open? path with
  | none =>
    rw [sourceWithin_of_missing opened (Nat.succ_ne_zero room)]
    simp
  | some r =>
    have deeper : maxDepth - (s.depth + 1) = room := by omega
    have clean : (outcome (sourceWithin room) (.file r) { s with depth := s.depth + 1 }).1 = .ok 0 ↔ _ :=
      outcome_eq_ok_zero_iff deeper fresh.unreported
    rw [← (sourceWithin_of_open room opened).1] at clean
    rw [executionsWithin_of_open opened, turnsWithin_of_open opened, and_iff_right (Option.isSome_some),
      ← clean]
    exact ⟨congrArg (Except.mapError Failure.cause), mapError_eq_ok⟩

end Session

theorem Ending.status_eq_zero_iff_result (e : Ending) : e.status = 0 ↔ e.result = .ok 0 := by
  unfold status
  split <;> simp_all

theorem Ending.status_cases (e : Ending) : e.status = 0 ∨ e.status = 1 := by
  unfold status
  split
  · exact .inl rfl
  · exact .inr rfl

namespace Invocation

open Session (Execution Fresh)

variable {s : Session} {paths : List String}

def ReadsAll : List String → Session → Prop
  | [], _ => True
  | path :: rest, s => s.ReadsText path ∧ ReadsAll rest (s.source path).2

def executionsOfFiles : List String → Session → List Execution
  | [], _ => []
  | path :: rest, s =>
    s.executionsOf path ++
      if (s.source path).1.isOk then executionsOfFiles rest (s.source path).2 else []

def start (i : Invocation) (files : FileTree) : Session := { settings := i.settings files, files }

/-- The scripts, or else the input, can be read to their ends. -/
def Reads (i : Invocation) (input : ByteArray) (files : FileTree) : Prop :=
  if i.scripts.isEmpty then none ∉ Lines.ofBytes input else ReadsAll i.scripts (i.start files)

def executions (i : Invocation) (input : ByteArray) (files : FileTree) : List Execution :=
  if i.scripts.isEmpty then (i.start files).executions (Lines.ofBytes input)
  else executionsOfFiles i.scripts (i.start files)

theorem runFiles_eq_ok_zero_iff (fresh : s.Fresh) (failures : Nat) :
    (runFiles failures paths s).1 = .ok 0 ↔ failures = 0 ∧ ReadsAll paths s ∧
      ∀ x ∈ executionsOfFiles paths s, x.fails = false := by
  induction paths generalizing failures s with
  | nil => simp [runFiles, ReadsAll, executionsOfFiles]
  | cons path rest ih =>
    have first := fresh.source_eq_ok_zero_iff path
    have later := ih (fresh.source path)
    rw [runFiles, ReadsAll, executionsOfFiles, List.forall_mem_append, and_and_and_comm, ← first]
    revert later
    obtain ⟨e | n, s'⟩ := s.source path
    · simp
    · intro later
      dsimp only at later ⊢
      rw [later, Nat.add_eq_zero_iff]
      simp [and_assoc]

/-- The status tells whether anything went wrong: it is 0 exactly if everything could be read to its end and no
line that was executed failed, and 1 otherwise. -/
theorem status_eq_zero_iff (i : Invocation) (input : ByteArray) (files : FileTree) :
    ((i.run input files).status = 0 ↔
        i.Reads input files ∧ ∀ x ∈ i.executions input files, x.fails = false) ∧
      ((i.run input files).status = 1 ↔
        ¬ (i.Reads input files ∧ ∀ x ∈ i.executions input files, x.fails = false)) := by
  have fresh : (i.start files).Fresh := ⟨rfl, rfl⟩
  have result : (i.run input files).result = (i.runSession input (i.start files)).1 := rfl
  have zero : (i.run input files).status = 0 ↔
      i.Reads input files ∧ ∀ x ∈ i.executions input files, x.fails = false := by
    rw [Ending.status_eq_zero_iff_result, result, runSession, Reads, executions]
    split
    · exact fresh.runScript_eq_ok_zero_iff
    · rw [runFiles_eq_ok_zero_iff fresh, and_iff_right rfl]
  refine ⟨zero, ?_⟩
  rw [← zero]
  have := (i.run input files).status_cases
  omega

end Invocation

end CallAtlas
