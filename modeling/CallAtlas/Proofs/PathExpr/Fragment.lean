import CallAtlas.Proofs.PathExpr.Language
/-!
What attaching an expression does to a machine. Machines are compared row by row, so that a move counts
even if it accepts no name: old moves stay in front, new ones stand behind them. Main statements:
`gains_attach`, new moves leave the entry or new states and enter new states, and `adds_fragment`, along
the new moves alone the entry leads to the exit by the words of the expression.
-/
namespace CallAtlas

namespace Nfa

namespace Row

instance : Append Row := ⟨fun row more => ⟨row.moves ++ more.moves, row.silent ++ more.silent⟩⟩

theorem append_def (row more : Row) : row ++ more = ⟨row.moves ++ more.moves, row.silent ++ more.silent⟩ :=
  rfl

@[simp] theorem append_empty (row : Row) : row ++ ({} : Row) = row := by
  simp [append_def]

theorem append_assoc (row more rest : Row) : row ++ more ++ rest = row ++ (more ++ rest) := by
  simp [append_def]

def targets (row : Row) : List Nat := row.moves.map (·.2) ++ row.silent

theorem mem_targets_append {row more : Row} {t : Nat} :
    t ∈ (row ++ more).targets ↔ t ∈ row.targets ∨ t ∈ more.targets := by
  simp only [targets, append_def, List.map_append, List.mem_append]
  tauto

def since (row' row : Row) : Row :=
  ⟨row'.moves.drop row.moves.length, row'.silent.drop row.silent.length⟩

theorem since_append (row more : Row) : (row ++ more).since row = more := by
  simp [since, append_def]

end Row

variable {n m m' n' : Nfa} {p q r t : Nat}

/-- The moves that a machine has and that it did not have when it was `n`. -/
def since (n' n : Nfa) : Nfa where
  rows := n'.rows.mapIdx fun p row => row.since (n.row p)
  in_range := by
    intro row h
    obtain ⟨p, lt, rfl⟩ := Array.mem_mapIdx.mp h
    rw [Array.size_mapIdx]
    have inside := n'.in_range _ (Array.getElem_mem lt)
    exact ⟨fun move h => inside.1 move (List.mem_of_mem_drop h),
      fun q h => inside.2 q (List.mem_of_mem_drop h)⟩

theorem row_since (n' n : Nfa) (p : Nat) : (n'.since n).row p = (n'.row p).since (n.row p) := by
  unfold row since
  rw [Array.getElem?_mapIdx]
  cases n'.rows[p]? with
  | none => simp [Row.since]
  | some row => rfl

/-- `n'` is `n` with more states and more moves; new moves leave `q` or new states and enter new states. -/
structure Extends (n n' : Nfa) (q : Nat) : Prop where
  size_le : n.size ≤ n'.size
  finals_eq : n'.finals = n.finals
  row_eq : ∀ p, n'.row p = n.row p ++ (n'.since n).row p
  leaves : ∀ {p}, p < n.size → p ≠ q → (n'.since n).row p = {}
  enters : ∀ {p t}, t ∈ ((n'.since n).row p).targets → n.size ≤ t

namespace Extends

theorem of_row_eq (more : Nat → Row) (size_le : n.size ≤ n'.size) (finals_eq : n'.finals = n.finals)
    (row_eq : ∀ p, n'.row p = n.row p ++ more p) (leaves : ∀ p < n.size, p ≠ q → more p = {})
    (enters : ∀ p, ∀ t ∈ (more p).targets, n.size ≤ t) : n.Extends n' q := by
  have added (p : Nat) : (n'.since n).row p = more p := by
    rw [row_since, row_eq, Row.since_append]
  constructor
  case size_le => exact size_le
  case finals_eq => exact finals_eq
  case row_eq => exact fun p => (added p).symm ▸ row_eq p
  case leaves => exact fun lt ne => (added _).trans (leaves _ lt ne)
  case enters => exact fun mem => enters _ _ (added _ ▸ mem)

theorem refl (n : Nfa) (q : Nat) : n.Extends n q := by
  refine of_row_eq (fun _ => {}) (Nat.le_refl _) rfl (fun p => ?_) (fun _ _ _ => rfl) ?_
  · rw [Row.append_empty]
  · simp [Row.targets]

theorem append (h : n.Extends m q) (more : Nat → Row) (size_le : m.size ≤ m'.size)
    (finals_eq : m'.finals = m.finals) (row_eq : ∀ p, m'.row p = m.row p ++ more p)
    (leaves : ∀ p < n.size, p ≠ q → more p = {}) (enters : ∀ p, ∀ t ∈ (more p).targets, n.size ≤ t) :
    n.Extends m' q := by
  refine of_row_eq (fun p => (m.since n).row p ++ more p) (Nat.le_trans h.size_le size_le)
    (finals_eq.trans h.finals_eq) (fun p => ?_) (fun p lt ne => ?_) (fun p t mem => ?_)
  · rw [row_eq, h.row_eq, Row.append_assoc]
  · rw [h.leaves lt ne, leaves p lt ne, Row.append_empty]
  · exact (Row.mem_targets_append.mp mem).elim h.enters (enters p t)

theorem addState (h : n.Extends m q) : n.Extends m.addState q := by
  refine h.append (fun _ => {}) ?_ rfl (fun p => ?_) (fun _ _ _ => rfl) ?_
  · rw [Simulation.size_addState]
    exact Nat.le_succ _
  · rw [row_addState, Row.append_empty]
  · simp [Row.targets]

theorem appendAt (h : n.Extends m q) (extra : Row) (source : p = q ∨ n.size ≤ p)
    (size_eq : m'.size = m.size) (finals_eq : m'.finals = m.finals)
    (row_eq : ∀ s, m'.row s = if s = p then m.row p ++ extra else m.row s)
    (enters : ∀ t ∈ extra.targets, n.size ≤ t) : n.Extends m' q := by
  refine h.append (fun s => if s = p then extra else {}) (Nat.le_of_eq size_eq.symm) finals_eq
    (fun s => ?_) (fun s lt ne => if_neg (by omega)) (fun s t mem => ?_)
  · rw [row_eq]
    split
    · rename_i eq
      rw [eq]
    · rw [Row.append_empty]
  · split at mem
    · exact enters t mem
    · simp [Row.targets] at mem

theorem addSilent (h : n.Extends m q) (source : p = q ∨ n.size ≤ p) (hp : p < m.size)
    (target : n.size ≤ t) (ht : t < m.size) : n.Extends (m.addSilent p t) q := by
  refine h.appendAt ⟨[], [t]⟩ source (size_addSilent ..) (finals_addSilent ..) (fun s => ?_) ?_
  · rw [row_addSilent hp ht, Row.append_def, List.append_nil]
    rfl
  · simpa [Row.targets] using target

theorem addMove (h : n.Extends m q) (source : p = q ∨ n.size ≤ p) (hp : p < m.size)
    (target : n.size ≤ t) (ht : t < m.size) (a : Predicate) : n.Extends (m.addMove p a t) q := by
  refine h.appendAt ⟨[(a, t)], []⟩ source (Simulation.size_addMove ..) (finals_addMove ..)
    (fun s => ?_) ?_
  · rw [row_addMove hp ht, Row.append_def, List.append_nil]
    rfl
  · simpa [Row.targets] using target

theorem trans (h : n.Extends m q) (h' : m.Extends m' p) (source : p = q ∨ n.size ≤ p) :
    n.Extends m' q := by
  refine h.append (m'.since m).row h'.size_le h'.finals_eq h'.row_eq (fun s lt ne => ?_) (fun s t mem => ?_)
  · exact h'.leaves (Nat.lt_of_lt_of_le lt h.size_le) (by omega)
  · exact Nat.le_trans h.size_le (h'.enters mem)

theorem row_of_lt (h : n.Extends n' q) (lt : p < n.size) (ne : p ≠ q) : n'.row p = n.row p := by
  rw [h.row_eq, h.leaves lt ne, Row.append_empty]

theorem step_since (h : n.Extends n' q) {u : List String} :
    (n'.since n).Step p u r ↔ n'.Above n.size p u r := by
  have moves {move : Predicate × Nat} :
      move ∈ n'.moves p ↔ move ∈ n.moves p ∨ move ∈ (n'.since n).moves p := by
    rw [Nfa.moves, h.row_eq]
    exact List.mem_append
  have silent {t : Nat} : t ∈ n'.silent p ↔ t ∈ n.silent p ∨ t ∈ (n'.since n).silent p := by
    rw [Nfa.silent, h.row_eq]
    exact List.mem_append
  constructor
  · rintro (hs | ⟨hm, accepted⟩)
    · exact ⟨.silent (silent.mpr (.inr hs)), h.enters (p := p) (List.mem_append_right _ hs)⟩
    · refine ⟨.reads (moves.mpr (.inr hm)) accepted, h.enters (p := p) (List.mem_append_left _ ?_)⟩
      exact List.mem_map_of_mem hm
  · rintro ⟨hs | ⟨hm, accepted⟩, above⟩
    · rcases silent.mp hs with old | new
      · exact absurd (n.silent_lt old) (Nat.not_lt_of_le above)
      · exact .silent new
    · rcases moves.mp hm with old | new
      · exact absurd (n.moves_lt old) (Nat.not_lt_of_le above)
      · exact .reads new accepted

end Extends

/-- `n'` is `n` with a fragment that begins at `q` and ends in a new state, which nothing leaves. -/
structure Gains (n n' : Nfa) (q exit : Nat) : Prop extends n.Extends n' q where
  exit_new : n.size ≤ exit
  exit_lt : exit < n'.size
  exit_row : n'.row exit = {}

end Nfa

namespace PathExpr

variable {n m m' : Nfa} {q f b : Nat}

theorem extends_forked (h : n.Extends m q) (hq : q < m.size) : n.Extends (forked m q) q := by
  have size := Simulation.size_addState m
  exact h.addState.addSilent (.inl rfl) (by omega) h.size_le (by omega)

theorem row_forked (hq : q < m.size) {s : Nat} (ne : s ≠ q) : (forked m q).row s = m.row s := by
  have size := Simulation.size_addState m
  rw [forked, Nfa.row_addSilent (by omega) (by omega), if_neg ne, Nfa.row_addState]

theorem gains_forked (hq : q < n.size) : n.Gains (forked n q) q n.size where
  toExtends := extends_forked (.refl n q) hq
  exit_new := Nat.le_refl _
  exit_lt := by
    rw [size_forked]
    exact Nat.lt_succ_self _
  exit_row := by rw [row_forked hq (Nat.ne_of_gt hq), Nfa.row_eq_of_size_le (Nat.le_refl _)]

theorem gains_addMove (hq : q < n.size) (a : Predicate) :
    n.Gains (n.addState.addMove q a n.size) q n.size := by
  have size := Simulation.size_addState n
  constructor
  case toExtends =>
    exact (Nfa.Extends.refl n q).addState.addMove (.inl rfl) (by omega) (Nat.le_refl _) (by omega) a
  case exit_new => exact Nat.le_refl _
  case exit_lt =>
    rw [Simulation.size_addMove]
    omega
  case exit_row =>
    rw [Nfa.row_addMove (by omega) (by omega), if_neg (Nat.ne_of_gt hq), Nfa.row_addState,
      Nfa.row_eq_of_size_le (Nat.le_refl _)]

theorem gains_seq (h : n.Gains m q f) (h' : m.Gains m' f b) : n.Gains m' q b where
  toExtends := h.trans h'.toExtends (.inr h.exit_new)
  exit_new := Nat.le_trans h.size_le h'.exit_new
  exit_lt := h'.exit_lt
  exit_row := h'.exit_row

theorem size_addState_addState (n : Nfa) : n.addState.addState.size = n.size + 2 := by
  rw [Simulation.size_addState, Simulation.size_addState]

theorem extends_opened (hq : q < n.size) : n.Extends (opened n q) q := by
  have size := size_addState_addState n
  have size' := Nfa.size_addSilent n.addState.addState q n.size
  have into := (Nfa.Extends.refl n q).addState.addState.addSilent (p := q) (t := n.size) (.inl rfl)
    (by omega) (Nat.le_refl _) (by omega)
  exact into.addSilent (.inl rfl) (by omega) (Nat.le_succ _) (by omega)

theorem row_opened (hq : q < n.size) {s : Nat} (le : n.size ≤ s) : (opened n q).row s = {} := by
  have size := size_addState_addState n
  have size' := Nfa.size_addSilent n.addState.addState q n.size
  rw [opened, Nfa.row_addSilent (by omega) (by omega), if_neg (by omega),
    Nfa.row_addSilent (by omega) (by omega), if_neg (by omega), Nfa.row_addState, Nfa.row_addState,
    Nfa.row_eq_of_size_le le]

theorem gains_star (hq : q < n.size) (h : (opened n q).Gains m n.size b) :
    n.Gains (looped m n.size b (n.size + 1)) q (n.size + 1) := by
  have size := size_opened n q
  have exit_new := h.exit_new
  have exit_lt := h.exit_lt
  have size' := Nfa.size_addSilent m b n.size
  -- the way back enters the head, which is new in the whole but not beside its body
  have body : n.Extends m q := (extends_opened hq).trans h.toExtends (.inr (Nat.le_refl _))
  have back : n.Extends (m.addSilent b n.size) q :=
    body.addSilent (.inr (by omega)) exit_lt (Nat.le_refl _) (by omega)
  constructor
  case toExtends =>
    exact back.addSilent (.inr (Nat.le_refl _)) (by omega) (Nat.le_succ _) (by omega)
  case exit_new => exact Nat.le_succ _
  case exit_lt =>
    rw [looped, Nfa.size_addSilent]
    omega
  case exit_row =>
    rw [looped, Nfa.row_addSilent (by omega) (by omega), if_neg (by omega),
      Nfa.row_addSilent exit_lt (by omega), if_neg (by omega), h.row_of_lt (by omega) (by omega),
      row_opened hq (Nat.le_succ _)]

theorem gains_none (n : Nfa) (q : Nat) : n.Gains n.addState q n.size where
  toExtends := (Nfa.Extends.refl n q).addState
  exit_new := Nat.le_refl _
  exit_lt := by
    rw [Simulation.size_addState]
    exact Nat.lt_succ_self _
  exit_row := by rw [Nfa.row_addState, Nfa.row_eq_of_size_le (Nat.le_refl _)]

theorem gains_branch (hq : q < n.size) (h : n.Gains m q f) (h' : (forked m q).Gains m' m.size b) :
    n.Gains (m'.addSilent b f) q f := by
  have size := size_forked m q
  have size_le := h.size_le
  have exit_new := h.exit_new
  have exit_lt := h.exit_lt
  have exit_new' := h'.exit_new
  have size_le' := h'.size_le
  have entry_lt : q < m.size := Nat.lt_of_lt_of_le hq size_le
  have forks : n.Extends (forked m q) q := extends_forked h.toExtends entry_lt
  constructor
  case toExtends =>
    exact (forks.trans h'.toExtends (.inr size_le)).addSilent (.inr (by omega)) h'.exit_lt exit_new
      (by omega)
  case exit_new => exact exit_new
  case exit_lt =>
    rw [Nfa.size_addSilent]
    omega
  case exit_row =>
    rw [Nfa.row_addSilent h'.exit_lt (by omega), if_neg (by omega), h'.row_of_lt (by omega) (by omega),
      row_forked entry_lt (by omega), h.exit_row]

mutual

theorem gains_attach {n : Nfa} {q : Nat} (hq : q < n.size) (e : PathExpr Predicate) :
    n.Gains (attach n q e).1 q (attach n q e).2 := by
  match e with
  | .empty =>
    rw [attach]
    exact gains_forked hq
  | .one p =>
    rw [attach]
    exact gains_addMove hq p
  | .seq [] =>
    rw [attach]
    exact gains_forked hq
  | .seq (e :: es) =>
    rw [attach, attachSeq]
    exact gains_attachSeq (gains_attach hq e) es
  | .star e =>
    rw [attach]
    exact gains_star hq (gains_attach (n := opened n q) (q := n.size) (by rw [size_opened]; omega) e)
  | .alt [] =>
    rw [attach]
    exact gains_forked hq
  | .alt (e :: es) =>
    rw [attach]
    exact gains_attachAlt hq (gains_none n q) (e :: es)

theorem gains_attachSeq {n m : Nfa} {q f : Nat} (h : n.Gains m q f) (es : List (PathExpr Predicate)) :
    n.Gains (attachSeq m f es).1 q (attachSeq m f es).2 := by
  match es with
  | [] =>
    rw [attachSeq]
    exact h
  | e :: es =>
    rw [attachSeq]
    exact gains_attachSeq (gains_seq h (gains_attach h.exit_lt e)) es

theorem gains_attachAlt {n m : Nfa} {q f : Nat} (hq : q < n.size) (h : n.Gains m q f)
    (es : List (PathExpr Predicate)) : n.Gains (attachAlt m q f es) q f := by
  match es with
  | [] =>
    rw [attachAlt]
    exact h
  | e :: es =>
    rw [attachAlt]
    have branch := gains_attach (n := forked m q) (q := m.size) (by rw [size_forked]; omega) e
    exact gains_attachAlt hq (gains_branch hq h branch) es

end

theorem attachTo_of_lt (e : PathExpr Predicate) {s : Simulation} (hq : q < s.nfa.size) :
    e.attachTo s q = (.ok (attach s.nfa q e).2, .ofNfa (attach s.nfa q e).1) :=
  if_pos (Nat.lt_of_lt_of_le hq (Nat.le_add_right ..))

/-- An expression can be attached to any state of a machine. States and moves are only added; along what
was added the state leads to the exit by the words of the expression, whatever else there is. -/
theorem adds_fragment (e : PathExpr Predicate) (s : Simulation) {q : Nat} (hq : q < s.nfa.size) :
    ∃ exit s', e.attachTo s q = (.ok exit, s') ∧ s.nfa.Gains s'.nfa q exit ∧
      ∀ word, Walks (s'.nfa.since s.nfa).Step q word exit ↔ word ∈ e.language := by
  have gains := gains_attach hq e
  refine ⟨_, _, e.attachTo_of_lt hq, gains, fun word => ?_⟩
  rw [← (attached_attach hq e).walks_iff]
  constructor
  · exact fun walks => walks.mono gains.step_since.mp
  · exact fun walks => walks.mono gains.step_since.mpr

def busy : Simulation :=
  let s := Simulation.empty.addState.addState
  ((s.addMove 0 (· == "a") 1).addSilent 1 0).addMove 1 (· == "a") 1

theorem adds_fragment_busy : 1 < busy.nfa.size ∧ ∃ exit s',
    (PathExpr.star (.one (· == "b"))).attachTo busy 1 = (.ok exit, s') ∧ busy.nfa.Gains s'.nfa 1 exit ∧
      Walks (s'.nfa.since busy.nfa).Step 1 ["b", "b"] exit ∧
      ¬ Walks (s'.nfa.since busy.nfa).Step 1 ["a", "b"] exit := by
  have inside : 1 < busy.nfa.size := by decide
  obtain ⟨exit, s', attached, gains, walks⟩ :=
    adds_fragment (.star (.one (· == "b"))) busy inside
  refine ⟨inside, exit, s', attached, gains, (walks _).mpr ?_, fun there => ?_⟩
  · refine Language.mem_kstar.mpr ⟨[["b"], ["b"]], rfl, fun word hw => ?_⟩
    exact ⟨"b", rfl, by simpa using hw⟩
  · -- the loop reads "a", the fragment does not
    obtain ⟨words, parts, all⟩ := Language.mem_kstar.mp ((walks _).mp there)
    have mem : "a" ∈ words.flatten := parts ▸ List.mem_cons_self
    obtain ⟨word, hw, mem⟩ := List.mem_flatten.mp mem
    obtain ⟨name, accepted, rfl⟩ := all word hw
    simp_all

end PathExpr

end CallAtlas
