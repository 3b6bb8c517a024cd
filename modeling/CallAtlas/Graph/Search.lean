import CallAtlas.Automaton.Basic
import CallAtlas.Graph.Query
/-!
Search for the paths that an automaton accepts. A path goes along visible edges through visible nodes
and never meets a node twice; the automaton reads the names under which its nodes are shown. The search
is a machine with a stack: it stops at every path it finds and is taken up again for the next one. Main
statement: `load_move_lt`, every move leaves less to do.
-/
namespace CallAtlas

/-- A path as it grows, newest name first. -/
structure Trail where
  names : List String := []
deriving DecidableEq, Repr, Inhabited

namespace Trail

def push (t : Trail) (name : String) : Trail := ⟨name :: t.names⟩

def pop? (t : Trail) : Option (String × Trail) :=
  match t.names with
  | [] => none
  | name :: rest => some (name, ⟨rest⟩)

def isEmpty (t : Trail) : Bool := t.names.isEmpty

def length (t : Trail) : Nat := t.names.length

/-- One line, newest name first. -/
def text (t : Trail) : String := " <- ".intercalate t.names

end Trail

/-- A level of the search that is taken up again when the levels above it are done. -/
structure Frame (σ : Type) where
  /-- the node entered at this level; none at the lowest one, where any node may begin a path -/
  node : Option Nat
  /-- where the automaton is after the path up to this level -/
  state : σ
  /-- the nodes that are still to be tried as the next one -/
  candidates : List Nat

namespace Frame

variable {σ : Type}

def nodes (frames : List (Frame σ)) : List Nat := frames.filterMap Frame.node

/-- How many moves a candidate can cost while `unseen` nodes are not on the path, when no node has more
than `branching` callees. -/
def effort (branching : Nat) : (unseen : Nat) → Nat
  | 0 => 1
  | unseen + 1 => 2 + branching * effort branching unseen

def load (g : Graph) : List (Frame σ) → Nat
  | [] => 0
  | frame :: below =>
    frame.candidates.length *
        effort g.edges.size (Walk.unseen g.size (.ofList (nodes (frame :: below)))) +
      1 + load g below

theorem effort_pos (branching unseen : Nat) : 0 < effort branching unseen := by
  cases unseen with
  | zero => exact Nat.one_pos
  | succ unseen => simp only [effort]; omega

theorem effort_le_effort (branching : Nat) {m n : Nat} (le : m ≤ n) :
    effort branching m ≤ effort branching n := by
  induction n generalizing m with
  | zero =>
    cases Nat.le_zero.mp le
    exact Nat.le_refl _
  | succ n ih =>
    cases m with
    | zero => exact effort_pos branching (n + 1)
    | succ m =>
      have := Nat.mul_le_mul_left branching (ih (Nat.le_of_succ_le_succ le))
      simp only [effort]
      omega

theorem effort_of_lt {branching calls m n : Nat} (le : calls ≤ branching) (lt : m < n) :
    calls * effort branching m + 2 ≤ effort branching n := by
  cases n with
  | zero => exact absurd lt (Nat.not_lt_zero m)
  | succ n =>
    have := Nat.mul_le_mul le (effort_le_effort branching (Nat.le_of_lt_succ lt))
    simp only [effort]
    omega

end Frame

structure Search (g : Graph) (scope : Scope) (M σ : Type) where
  machine : M
  /-- innermost first -/
  frames : List (Frame σ)
  /-- the nodes on the path -/
  visited : IndexSet
  /-- nodes that are known to be visible -/
  valid : IndexSet := ∅
  trail : Trail := {}
  /-- how many paths were found -/
  found : Nat := 0
  visited_eq : visited = .ofList (Frame.nodes frames)
  nodes_nodup : (Frame.nodes frames).Nodup
  valid_shown : ∀ i ∈ valid, g.showsAt scope.externals i = true := by
    intro i h; exact absurd h (IndexSet.not_mem_empty i)

inductive Search.Move (g : Graph) (scope : Scope) (M σ : Type) where
  | ended
  | onward (next : Search g scope M σ)
  | yields (path : Trail) (next : Search g scope M σ)

theorem Graph.length_calleesAt_le (g : Graph) (i : Nat) : (g.calleesAt i).length ≤ g.edges.size := by
  rw [Graph.calleesAt, List.length_map]
  exact List.length_filter_le _ _

namespace Search

variable {g : Graph} {scope : Scope} {M σ : Type} [Automaton M σ]

def start (g : Graph) (scope : Scope) (machine : M) : Search g scope M σ where
  machine := (Automaton.start machine).2
  frames := [⟨none, (Automaton.start machine).1, List.range g.size⟩]
  visited := ∅
  visited_eq := rfl
  nodes_nodup := List.nodup_nil

def leave (s : Search g scope M σ) {frame : Frame σ} {below : List (Frame σ)}
    (h : s.frames = frame :: below) : Search g scope M σ where
  machine := s.machine
  frames := below
  visited := frame.node.elim s.visited s.visited.erase
  valid := s.valid
  trail := frame.node.elim s.trail fun _ => (s.trail.pop?.map Prod.snd).getD s.trail
  found := s.found
  visited_eq := by
    have nodup := s.nodes_nodup
    rw [s.visited_eq]
    rw [h] at nodup ⊢
    cases eq : frame.node with
    | none => simp [Frame.nodes, eq]
    | some i =>
      simp only [Frame.nodes, List.filterMap_cons, eq, List.nodup_cons] at nodup
      ext q
      simp only [Frame.nodes, List.filterMap_cons, eq, Option.elim_some, IndexSet.mem_erase,
        IndexSet.mem_ofList, List.mem_cons]
      constructor
      · rintro ⟨ne, rfl | hq⟩
        · exact absurd rfl ne
        · exact hq
      · intro hq
        exact ⟨fun eq => nodup.1 (eq ▸ hq), .inr hq⟩
  nodes_nodup := by
    have nodup := s.nodes_nodup
    rw [h, Frame.nodes, List.filterMap_cons] at nodup
    split at nodup
    · exact nodup
    · exact (List.nodup_cons.mp nodup).2
  valid_shown := s.valid_shown

def turn (s : Search g scope M σ) {frame : Frame σ} {below : List (Frame σ)}
    (h : s.frames = frame :: below) (rest : List Nat) : Search g scope M σ where
  machine := s.machine
  frames := { frame with candidates := rest } :: below
  visited := s.visited
  valid := s.valid
  trail := s.trail
  found := s.found
  visited_eq := by
    rw [s.visited_eq, h]
    rfl
  nodes_nodup := by
    have nodup := s.nodes_nodup
    rwa [h] at nodup
  valid_shown := s.valid_shown

/-- Remember that a node is visible, and the machine after it has read the name. -/
def look (s : Search g scope M σ) (target : Nat) (shown : g.showsAt scope.externals target = true)
    (machine : M) : Search g scope M σ where
  machine := machine
  frames := s.frames
  visited := s.visited
  valid := s.valid.insert target
  trail := s.trail
  found := s.found
  visited_eq := s.visited_eq
  nodes_nodup := s.nodes_nodup
  valid_shown := by
    intro i hi
    rcases IndexSet.mem_insert.mp hi with rfl | hi
    · exact shown
    · exact s.valid_shown i hi

def enter (s : Search g scope M σ) (target : Nat) (fresh : target ∉ s.visited) (state : σ) :
    Search g scope M σ where
  machine := s.machine
  frames := ⟨some target, state, g.calleesAt target⟩ :: s.frames
  visited := s.visited.insert target
  valid := s.valid
  trail := s.trail.push (g.displayAt target)
  found := s.found
  visited_eq := by
    ext q
    rw [s.visited_eq]
    simp [Frame.nodes]
  nodes_nodup := by
    rw [s.visited_eq, IndexSet.mem_ofList] at fresh
    exact List.nodup_cons.mpr ⟨fresh, s.nodes_nodup⟩
  valid_shown := s.valid_shown

def record (s : Search g scope M σ) : Search g scope M σ := { s with found := s.found + 1 }

/-- Try a node as the next one after `last`, where the automaton is in a state. -/
def attempt (s : Search g scope M σ) (last : Option Nat) (state : σ) (target : Nat) :
    Move g scope M σ :=
  if fresh : target ∈ s.visited then .onward s
  else if last.any fun i => !g.showsEdgeAt scope.refs i target then .onward s
  else if shown : target ∈ s.valid ∨ g.showsAt scope.externals target = true then
    let (state, machine) := Automaton.step s.machine state (g.displayAt target)
    let s' := s.look target (shown.elim (s.valid_shown target) id) machine
    if Automaton.dead machine state then .onward s'
    else
      let s' := s'.enter target fresh state
      if Automaton.accepts machine state then .yields s'.trail s'.record else .onward s'
  else .onward s

/-- Try the next candidate of the innermost level, or leave it. -/
def move (s : Search g scope M σ) : Move g scope M σ :=
  match h : s.frames with
  | [] => .ended
  | ⟨_, _, []⟩ :: _ => .onward (s.leave h)
  | ⟨last, state, target :: rest⟩ :: _ => (s.turn h rest).attempt last state target

def load (s : Search g scope M σ) : Nat := Frame.load g s.frames

def Move.next? : Move g scope M σ → Option (Search g scope M σ)
  | ended => none
  | onward s => some s
  | yields _ s => some s

theorem load_attempt_lt (s : Search g scope M σ) (last : Option Nat) (state : σ) (target : Nat)
    {s' : Search g scope M σ} (h : (s.attempt last state target).next? = some s') :
    s'.load < s.load + Frame.effort g.edges.size (Walk.unseen g.size s.visited) := by
  have pos := Frame.effort_pos g.edges.size (Walk.unseen g.size s.visited)
  have idle : s.load < s.load + Frame.effort g.edges.size (Walk.unseen g.size s.visited) := by omega
  unfold attempt at h
  split at h
  · cases h
    exact idle
  split at h
  · cases h
    exact idle
  split at h
  · rename_i fresh _ shown
    have lt := g.lt_size_of_showsAt (shown.elim (s.valid_shown target) id)
    have entered : Frame.load g (⟨some target, (Automaton.step s.machine state (g.displayAt target)).1,
        g.calleesAt target⟩ :: s.frames) <
          s.load + Frame.effort g.edges.size (Walk.unseen g.size s.visited) := by
      have less := Frame.effort_of_lt (g.length_calleesAt_le target)
        (Walk.unseen_insert_lt lt fresh)
      have seen : s.visited.insert target = .ofList (target :: Frame.nodes s.frames) := by
        ext q
        rw [s.visited_eq]
        simp
      rw [seen] at less
      show (g.calleesAt target).length *
        Frame.effort _ (Walk.unseen _ (.ofList (target :: Frame.nodes s.frames))) + 1 + s.load < _
      omega
    dsimp only at h
    split at h
    · cases h
      exact idle
    · split at h
      · cases h
        exact entered
      · cases h
        exact entered
  · cases h
    exact idle

theorem load_move_lt {s s' : Search g scope M σ} (h : s.move.next? = some s') : s'.load < s.load := by
  unfold move at h
  split at h
  · cases h
  · rename_i below eq
    cases h
    show Frame.load g below < Frame.load g s.frames
    simp only [eq, Frame.load]
    omega
  · rename_i last state target rest below eq
    have lt := (s.turn eq rest).load_attempt_lt last state target h
    have cost : s.load = (s.turn eq rest).load +
        Frame.effort g.edges.size (Walk.unseen g.size (s.turn eq rest).visited) := by
      rw [(s.turn eq rest).visited_eq]
      show Frame.load g s.frames = Frame.load g (_ :: _) + _
      rw [eq]
      simp only [Frame.load, List.length_cons, Nat.add_mul, turn, Frame.nodes, List.filterMap_cons]
      omega
    omega

def run (s : Search g scope M σ) : Option (Trail × Search g scope M σ) :=
  match _h : s.move with
  | .ended => none
  | .onward next => run next
  | .yields path next => some (path, next)
termination_by s.load
decreasing_by exact load_move_lt (_h ▸ rfl)

theorem load_run_lt {s s' : Search g scope M σ} {path : Trail} (h : s.run = some (path, s')) :
    s'.load < s.load := by
  fun_induction run s with
  | case1 s eq => cases h
  | case2 s next eq ih => exact Nat.lt_trans (ih h) (load_move_lt (eq ▸ rfl))
  | case3 s path next eq =>
    cases h
    exact load_move_lt (eq ▸ rfl)

/-- The next path and the search after it, unless the limit is reached. -/
def next? (limit : Option Nat) (s : Search g scope M σ) : Option (Trail × Search g scope M σ) :=
  if limit.any fun n => n ≤ s.found then none else s.run

theorem load_next?_lt {limit : Option Nat} {s s' : Search g scope M σ} {path : Trail}
    (h : s.next? limit = some (path, s')) : s'.load < s.load := by
  unfold next? at h
  split at h
  · cases h
  · exact load_run_lt h

def drain (limit : Option Nat) (s : Search g scope M σ) : List Trail :=
  match _h : s.next? limit with
  | none => []
  | some (path, next) => path :: drain limit next
termination_by s.load
decreasing_by exact load_next?_lt _h

end Search

/-- The accepted paths in depth-first order, at most `limit` of them. -/
def Graph.paths {M σ : Type} [Automaton M σ] (g : Graph) (machine : M) (scope : Scope)
    (limit : Option Nat) : List Trail :=
  (Search.start g scope machine).drain limit

end CallAtlas
