import CallAtlas.FileTree
import CallAtlas.Text.Lines
/-!
Files that are read while they may be written. A reader holds what it took from the file and has not given
out yet, and goes on in the file as it is when that is used up. Main statements: `Script.left_of_next?`, of
a file that stays as it is the lines are read, and `Script.size_lt_of_next?`, reading comes to an end whatever
is written.
-/
namespace CallAtlas

namespace Lines

/-- A line without the line feed at its end and the carriage return before that. -/
def chomp (bytes : List UInt8) : List UInt8 :=
  if bytes.getLast? = some 10 then
    let bytes := bytes.dropLast
    if bytes.getLast? = some 13 then bytes.dropLast else bytes
  else bytes

theorem ofList_append_cons {line : List UInt8} (inner : 10 ∉ line) (rest : List UInt8) :
    ofList (line ++ 10 :: rest) = decode (chomp (line ++ [10])) :: ofList rest := by
  have chomped : chomp (line ++ [10]) = if line.getLast? = some 13 then line.dropLast else line := by
    simp [chomp]
  rw [ofList, pieces_append_cons inner, chomped]
  rfl

theorem ofList_of_not_mem {line : List UInt8} (inner : 10 ∉ line) (nonempty : line ≠ []) :
    ofList line = [decode (chomp line)] := by
  have chomped : chomp line = line := if_neg fun last => inner (List.mem_of_getLast? last)
  rw [ofList, pieces_of_not_mem inner nonempty, chomped]
  rfl

end Lines

structure Reader where
  /-- the text of the location of the file -/
  name : String
  /-- where the file is read on -/
  offset : Nat := 0
  /-- what was read and not given out -/
  buffer : List UInt8 := []

namespace FileTree

/-- The bytes of a file from a position on, so many at most, as they are now. -/
def bytesAt (t : FileTree) (name : String) (start count : Nat) : List UInt8 :=
  match t.files.get? name with
  | none => []
  | some contents => (contents.extract start (start + count)).data.toList

def open? (t : FileTree) (path : String) : Option Reader :=
  (t.locate? path).bind fun l => (t.files.get? l.text).map fun _ => { name := l.text }

def bytesOf (t : FileTree) (name : String) : List UInt8 :=
  match t.files.get? name with
  | none => []
  | some contents => contents.data.toList

theorem bytesAt_eq (t : FileTree) (name : String) (start count : Nat) :
    t.bytesAt name start count = ((t.bytesOf name).drop start).take count := by
  unfold bytesAt bytesOf
  cases t.files.get? name with
  | none => simp
  | some contents => simp [List.extract_eq_take_drop]

theorem length_bytesOf_le (t : FileTree) (name : String) : (t.bytesOf name).length ≤ maxFileSize := by
  unfold bytesOf
  cases found : t.files.get? name with
  | none => exact Nat.zero_le _
  | some contents => exact t.bounded name contents found

theorem length_bytesAt_le (t : FileTree) (name : String) (start count : Nat) :
    t.bytesAt name start count = [] ∨
      start + (t.bytesAt name start count).length ≤ maxFileSize := by
  have whole := t.length_bytesOf_le name
  rw [bytesAt_eq, ← List.length_eq_zero_iff, List.length_take, List.length_drop]
  omega

end FileTree

namespace Reader

variable {t : FileTree} {r : Reader}

def capacity : Nat := 8192

/-- Read on if there is nothing left of what was read. -/
def fill (t : FileTree) (r : Reader) : Reader :=
  if r.buffer = [] then
    let bytes := t.bytesAt r.name r.offset capacity
    { r with offset := r.offset + bytes.length, buffer := bytes }
  else r

/-- A bound for what a reader can still give out, whatever is written. -/
def size (r : Reader) : Nat := maxFileSize - r.offset + r.buffer.length

theorem size_fill (t : FileTree) (r : Reader) : (r.fill t).size = r.size := by
  unfold fill size
  split
  · rename_i empty
    rw [empty]
    rcases t.length_bytesAt_le r.name r.offset capacity with none_left | bound
    · rw [none_left]
      rfl
    · dsimp only
      rw [List.length_nil]
      omega
  · rfl

theorem size_lt_of_used (more : (r.fill t).buffer ≠ []) :
    ({ r.fill t with buffer := [] } : Reader).size < r.size := by
  rw [← size_fill t r]
  exact Nat.add_lt_add_left (List.length_pos_iff.mpr more) _

/-- The bytes up to a line feed, and that, or else all there are. -/
def takeLine (t : FileTree) (r : Reader) : List UInt8 × Reader :=
  let filled := r.fill t
  match filled.buffer.dropWhile (· != 10) with
  | lf :: rest => (filled.buffer.takeWhile (· != 10) ++ [lf], { filled with buffer := rest })
  | [] =>
    if _ : filled.buffer = [] then ([], filled)
    else
      let (bytes, r) := takeLine t { filled with buffer := [] }
      (filled.buffer ++ bytes, r)
termination_by r.size
decreasing_by exact size_lt_of_used ‹_›

def next? (t : FileTree) (r : Reader) : Option (Line × Reader) :=
  match r.takeLine t with
  | ([], _) => none
  | (bytes, r) => some (Lines.decode (Lines.chomp bytes), r)

/-- What is left to be given out if the file stays as it is. -/
def left (t : FileTree) (r : Reader) : List UInt8 := r.buffer ++ (t.bytesOf r.name).drop r.offset

theorem left_fill (t : FileTree) (r : Reader) : (r.fill t).left t = r.left t := by
  unfold fill left
  split
  · rename_i empty
    rw [empty, List.nil_append]
    dsimp only
    rw [FileTree.bytesAt_eq, ← List.drop_drop, List.length_take]
    generalize (t.bytesOf r.name).drop r.offset = ahead
    rcases Nat.le_total capacity ahead.length with more | fits
    · rw [Nat.min_eq_left more, List.take_append_drop]
    · rw [Nat.min_eq_right fits, List.drop_length, List.append_nil, List.take_of_length_le fits]
  · rfl

theorem left_eq_nil_of_fill (empty : (r.fill t).buffer = []) : r.left t = [] := by
  unfold fill at empty
  split at empty
  · rename_i used
    change t.bytesAt r.name r.offset capacity = [] at empty
    rw [FileTree.bytesAt_eq, List.take_eq_nil_iff] at empty
    rw [left, used, List.nil_append]
    exact empty.resolve_left (by decide)
  · rename_i more
    exact absurd empty more

theorem not_mem_takeWhile (bytes : List UInt8) : 10 ∉ bytes.takeWhile (· != 10) := by
  intro inside
  have other := List.all_eq_true.mp List.all_takeWhile 10 inside
  cases other

theorem takeLine_cases (t : FileTree) (r : Reader) :
    (10 ∉ (r.takeLine t).1 ∧ r.left t = (r.takeLine t).1 ∧ (r.takeLine t).2.left t = []) ∨
      ∃ line, 10 ∉ line ∧ (r.takeLine t).1 = line ++ [10] ∧
        r.left t = line ++ 10 :: (r.takeLine t).2.left t := by
  fun_induction takeLine t r with
  | case1 r filled lf rest found =>
    have split : filled.buffer.takeWhile (· != 10) ++ lf :: rest = filled.buffer := by
      rw [← found, List.takeWhile_append_dropWhile]
    have feed : lf = 10 := by
      have stopped := List.head_dropWhile_not (· != 10) (l := filled.buffer) (by rw [found]; nofun)
      simpa [found] using stopped
    subst feed
    refine .inr ⟨_, not_mem_takeWhile _, rfl, ?_⟩
    rw [← left_fill]
    show filled.buffer ++ _ = filled.buffer.takeWhile (· != 10) ++ (10 :: rest ++ _)
    rw [← List.append_assoc, split]
  | case2 r filled _ used =>
    refine .inl ⟨List.not_mem_nil, left_eq_nil_of_fill used, ?_⟩
    show (r.fill t).left t = []
    rw [left_fill, left_eq_nil_of_fill used]
  | case3 r filled none_inside more bytes last taken ih =>
    have inner : 10 ∉ filled.buffer := by
      have split := List.takeWhile_append_dropWhile (p := (· != 10)) (l := filled.buffer)
      rw [none_inside, List.append_nil] at split
      rw [← split]
      exact not_mem_takeWhile _
    have all : r.left t = filled.buffer ++ Reader.left t { filled with buffer := [] } := by
      rw [← left_fill]
      rfl
    rw [taken] at ih
    rw [all]
    rcases ih with ⟨outside, same, ended⟩ | ⟨line, outside, same, whole⟩
    · refine .inl ⟨?_, congrArg _ same, ended⟩
      simp only [List.mem_append, not_or]
      exact ⟨inner, outside⟩
    · refine .inr ⟨filled.buffer ++ line, ?_, ?_, ?_⟩
      · simp only [List.mem_append, not_or]
        exact ⟨inner, outside⟩
      · rw [List.append_assoc]
        exact congrArg _ same
      · rw [whole, List.append_assoc]

theorem lines_left_of_next?_eq_none (ended : r.next? t = none) : Lines.ofList (r.left t) = [] := by
  unfold next? at ended
  have cases := r.takeLine_cases t
  revert ended cases
  obtain ⟨_ | ⟨byte, bytes⟩, r'⟩ := r.takeLine t
  · rintro - (⟨-, same, -⟩ | ⟨line, -, same, -⟩)
    · rw [same]
      rfl
    · simp at same
  · rintro ⟨⟩

theorem lines_left_of_next? {line : Line} {r' : Reader} (next : r.next? t = some (line, r')) :
    Lines.ofList (r.left t) = line :: Lines.ofList (r'.left t) := by
  unfold next? at next
  have cases := r.takeLine_cases t
  revert next cases
  obtain ⟨_ | ⟨byte, bytes⟩, r'⟩ := r.takeLine t
  · rintro ⟨⟩
  · rintro ⟨⟩ (⟨inner, all, ended⟩ | ⟨line, inner, same, all⟩)
    · rw [all, ended]
      exact Lines.ofList_of_not_mem inner (List.cons_ne_nil byte bytes)
    · rw [all, Lines.ofList_append_cons inner, ← same]

/-- A file that has grown is read on where it ended before. -/
example : (({ name := "/s", offset := 2 } : Reader).next? (({} : FileTree).addFile ["s"] "a\n".toUTF8)).isNone ∧
    (({ name := "/s", offset := 2 } : Reader).next?
      (({} : FileTree).addFile ["s"] "a\nb\n".toUTF8)).map Prod.fst = some (some "b") := by
  with_unfolding_all decide

theorem size_takeLine (t : FileTree) (r : Reader) :
    (r.takeLine t).2.size + (r.takeLine t).1.length = r.size := by
  fun_induction takeLine t r with
  | case1 r filled lf rest found =>
    have split : filled.buffer.takeWhile (· != 10) ++ lf :: rest = filled.buffer := by
      rw [← found, List.takeWhile_append_dropWhile]
    have length := congrArg List.length split
    have kept : filled.size = r.size := size_fill t r
    rw [← kept]
    simp only [size, List.length_append, List.length_cons, List.length_nil] at length ⊢
    omega
  | case2 r filled => exact size_fill t r
  | case3 r filled none_inside more bytes last taken ih =>
    have kept : filled.size = r.size := size_fill t r
    rw [taken] at ih
    rw [← kept]
    simp only [size, List.length_append, List.length_nil] at ih ⊢
    omega

theorem size_lt_of_next? {line : Line} {r' : Reader} (next : r.next? t = some (line, r')) :
    r'.size < r.size := by
  unfold next? at next
  have size := r.size_takeLine t
  revert next size
  obtain ⟨_ | ⟨byte, bytes⟩, r'⟩ := r.takeLine t
  · rintro ⟨⟩
  · rintro ⟨⟩ size
    rw [← size]
    exact Nat.lt_add_of_pos_right (Nat.succ_pos _)

end Reader

namespace FileTree

variable {t : FileTree} {path : String} {r : Reader}

theorem open?_eq_none_iff : t.open? path = none ↔ t.read? path = none := by
  unfold open? read?
  cases t.locate? path <;> simp

theorem read?_of_open? (opened : t.open? path = some r) :
    ∃ contents, t.read? path = some contents ∧ Lines.ofList (r.left t) = Lines.ofBytes contents := by
  obtain ⟨l, located, found⟩ := Option.bind_eq_some_iff.mp opened
  obtain ⟨contents, stored, rfl⟩ := Option.map_eq_some_iff.mp found
  refine ⟨contents, by rw [read?, located, Option.bind_some, stored], ?_⟩
  rw [Reader.left, bytesOf, stored]
  rfl

theorem open?_of_read? {contents : ByteArray} (read : t.read? path = some contents) :
    ∃ r, t.open? path = some r ∧ Lines.ofList (r.left t) = Lines.ofBytes contents := by
  cases opened : t.open? path with
  | none =>
    rw [open?_eq_none_iff.mp opened] at read
    cases read
  | some r =>
    obtain ⟨_, same, left⟩ := read?_of_open? opened
    cases read.symm.trans same
    exact ⟨r, rfl, left⟩

end FileTree

/-- Lines to be run, given or in a file. -/
inductive Script where
  | lines (lines : List Line)
  | file (r : Reader)

namespace Script

variable {t : FileTree} {script rest : Script} {line : Line}

def next? (t : FileTree) : Script → Option (Line × Script)
  | lines [] => none
  | lines (line :: rest) => some (line, lines rest)
  | file r => (r.next? t).map fun (line, r) => (line, file r)

/-- The lines that are left if no file is written. -/
def left (t : FileTree) : Script → List Line
  | lines ls => ls
  | file r => Lines.ofList (r.left t)

def size : Script → Nat
  | lines ls => ls.length
  | file r => r.size

theorem next?_nil (t : FileTree) : (lines []).next? t = none := rfl

theorem next?_cons (t : FileTree) (line : Line) (rest : List Line) :
    (lines (line :: rest)).next? t = some (line, lines rest) := rfl

theorem size_lt_of_next? (next : script.next? t = some (line, rest)) : rest.size < script.size := by
  cases script with
  | lines ls =>
    cases ls with
    | nil => cases next
    | cons first others =>
      cases next
      exact Nat.lt_succ_self _
  | file r =>
    obtain ⟨⟨line, r'⟩, taken, same⟩ := Option.map_eq_some_iff.mp next
    cases same
    exact Reader.size_lt_of_next? taken

theorem left_of_next? (next : script.next? t = some (line, rest)) :
    script.left t = line :: rest.left t := by
  cases script with
  | lines ls =>
    cases ls with
    | nil => cases next
    | cons first others =>
      cases next
      rfl
  | file r =>
    obtain ⟨⟨line, r'⟩, taken, same⟩ := Option.map_eq_some_iff.mp next
    cases same
    exact Reader.lines_left_of_next? taken

theorem left_of_next?_eq_none (ended : script.next? t = none) : script.left t = [] := by
  cases script with
  | lines ls =>
    cases ls with
    | nil => rfl
    | cons first others => cases ended
  | file r => exact Reader.lines_left_of_next?_eq_none (Option.map_eq_none_iff.mp ended)

theorem next?_eq_none_of_left (nothing : script.left t = []) : script.next? t = none := by
  cases next : script.next? t with
  | none => rfl
  | some taken => exact absurd (nothing.symm.trans (left_of_next? next)) (List.cons_ne_nil _ _).symm

theorem next?_of_left {lines : List Line} (more : script.left t = line :: lines) :
    ∃ rest, script.next? t = some (line, rest) ∧ rest.left t = lines := by
  cases next : script.next? t with
  | none => exact absurd (more.symm.trans (left_of_next?_eq_none next)) (List.cons_ne_nil _ _)
  | some taken =>
    cases more.symm.trans (left_of_next? next)
    exact ⟨taken.2, rfl, rfl⟩

end Script

end CallAtlas
