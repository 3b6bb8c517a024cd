import CallAtlas.Proofs.Automaton.Reverse
/-!
Useful states and the table that keeps no other. Main statements: `mem_useful`, a state is useful when an
accepted word passes through it, `run_trim`, the trimmed table runs as the whole one does while it stays on
useful states, and `trims`.
-/
namespace CallAtlas

namespace Dfa

variable {d : Dfa} {p q t : Nat} {a : String} {word : List String}

theorem mem_successors : t ∈ d.successors q ↔ ∃ a, d.move? q a = some t := by
  rw [successors, List.mem_map]
  constructor
  · rintro ⟨⟨a, u⟩, entry, rfl⟩
    exact ⟨a, NameMap.get?_eq_some_iff.mpr entry⟩
  · rintro ⟨a, move⟩
    exact ⟨(a, t), NameMap.get?_eq_some_iff.mp move, rfl⟩

theorem mem_predecessors : p ∈ d.predecessors q ↔ ∃ a, d.move? p a = some q := by
  rw [predecessors, List.mem_filter, List.mem_range, decide_eq_true_eq, mem_successors]
  refine ⟨And.right, fun h => ⟨?_, h⟩⟩
  obtain ⟨a, move⟩ := h
  exact lt_size_of_move? move

theorem reaches_successors : Reaches d.successors p q ↔ ∃ word, d.runFrom p word = some q := by
  constructor
  · intro h
    induction h with
    | refl => exact ⟨[], rfl⟩
    | step next _ ih =>
      obtain ⟨a, move⟩ := mem_successors.mp next
      obtain ⟨word, run⟩ := ih
      refine ⟨a :: word, ?_⟩
      rw [runFrom_cons, move]
      exact run
  · rintro ⟨word, run⟩
    induction word generalizing p with
    | nil =>
      cases run
      exact .refl _
    | cons a word ih =>
      rw [runFrom_cons] at run
      obtain ⟨t, move, run⟩ := Option.bind_eq_some_iff.mp run
      exact .step (mem_successors.mpr ⟨a, move⟩) (ih run)

theorem exists_reaches_predecessors : (∃ f ∈ d.finals, Reaches d.predecessors f q) ↔
    ∃ word, d.acceptsFrom q word = true := by
  constructor
  · rintro ⟨f, final, reaches⟩
    have ends : ∃ word, d.acceptsFrom f word = true := ⟨[], acceptsFrom_nil.mpr final⟩
    clear final
    induction reaches with
    | refl => exact ends
    | step next _ ih =>
      obtain ⟨a, move⟩ := mem_predecessors.mp next
      obtain ⟨word, accepted⟩ := ends
      exact ih ⟨a :: word, acceptsFrom_cons.mpr ⟨_, move, accepted⟩⟩
  · rintro ⟨word, accepted⟩
    induction word generalizing q with
    | nil => exact ⟨q, acceptsFrom_nil.mp accepted, .refl q⟩
    | cons a word ih =>
      obtain ⟨t, move, accepted⟩ := acceptsFrom_cons.mp accepted
      obtain ⟨f, final, reaches⟩ := ih accepted
      exact ⟨f, final, reaches.trans (.step (mem_predecessors.mpr ⟨a, move⟩) (.refl q))⟩

theorem run_eq_runFrom (inhabited : 0 < d.size) (word : List String) :
    d.run word = d.runFrom 0 word := by
  rw [run, if_pos inhabited]
  rfl

theorem mem_useful : q ∈ d.useful ↔
    (∃ word, d.run word = some q) ∧ ∃ word, d.acceptsFrom q word = true := by
  have live : q ∈ walk d.predecessors d.size ∅ d.finals.toList ↔
      ∃ word, d.acceptsFrom q word = true := by
    rw [← exists_reaches_predecessors, mem_walk_empty]
    · simp only [IndexSet.mem_toList]
    · intro p _ r hr
      obtain ⟨a, move⟩ := mem_predecessors.mp hr
      exact lt_size_of_move? move
    · exact fun f final => d.finals_below f (IndexSet.mem_toList.mp final)
  simp only [useful, List.mem_filter, List.mem_range, IndexSet.mem_ofList, Bool.decide_and,
    Bool.and_eq_true, decide_eq_true_eq, live]
  rw [← and_assoc]
  refine and_congr_left fun _ => ?_
  by_cases inhabited : 0 < d.size
  · rw [mem_walk_empty]
    · simp only [List.mem_singleton, exists_eq_left, reaches_successors, ← run_eq_runFrom inhabited]
      exact ⟨And.right, fun h => ⟨lt_size_of_run h.choose_spec, h⟩⟩
    · intro p _ r hr
      obtain ⟨a, move⟩ := mem_successors.mp hr
      exact move?_lt move
    · simpa using inhabited
  · constructor
    · rintro ⟨lt, -⟩
      omega
    · rintro ⟨word, run⟩
      have lt := lt_size_of_run run
      omega

theorem zero_mem_useful (h : q ∈ d.useful) : 0 ∈ d.useful := by
  obtain ⟨⟨word, run⟩, rest, accepted⟩ := mem_useful.mp h
  have pos : 0 < d.size := Nat.lt_of_le_of_lt (Nat.zero_le q) (lt_size_of_run run)
  refine mem_useful.mpr ⟨⟨[], ?_⟩, word ++ rest, ?_⟩
  · rw [Dfa.run, if_pos pos]
    rfl
  · rw [← language_eq_acceptsFrom, language_append, run]
    exact accepted

theorem pairwise_useful (d : Dfa) : d.useful.Pairwise (· < ·) := List.pairwise_lt_range.filter _

theorem eq_of_eq {d d' : Dfa} (rows : d.rows = d'.rows) (finals : d.finals = d'.finals) : d = d' := by
  cases d
  cases d'
  cases rows
  cases finals
  rfl

theorem eq_of_move?_eq {d d' : Dfa} (size_eq : d.size = d'.size)
    (moves : ∀ q a, d.move? q a = d'.move? q a) (finals : d.finals = d'.finals) : d = d' := by
  refine eq_of_eq (Array.ext size_eq fun q lt lt' => NameMap.ext_get? fun a => ?_) finals
  have move := moves q a
  rwa [move?, move?, row, row, Array.getElem?_eq_getElem lt, Array.getElem?_eq_getElem lt'] at move

theorem size_restrict (d : Dfa) (qs : List Nat) : (d.restrict qs).size = qs.length := by
  simp [restrict, size]

theorem move?_restrict (d : Dfa) (qs : List Nat) (i : Nat) (a : String) : (d.restrict qs).move? i a =
    qs[i]?.bind fun q => (d.move? q a).bind fun t => qs.idxOf? t := by
  have row : (d.restrict qs).row i =
      (qs[i]?.map fun q => (d.row q).filterMap fun _ t => qs.idxOf? t).getD ∅ := by
    rw [Dfa.row, restrict, List.getElem?_toArray, List.getElem?_map]
  rw [move?, row]
  cases qs[i]? with
  | none => rfl
  | some q => exact (d.row q).get?_filterMap (fun _ t => qs.idxOf? t) a

theorem mem_finals_restrict {qs : List Nat} {i : Nat} :
    i ∈ (d.restrict qs).finals ↔ ∃ q ∈ d.finals, qs[i]? = some q := by
  rw [restrict, IndexSet.mem_ofList, List.mem_filter, List.mem_range]
  constructor
  · rintro ⟨-, final⟩
    obtain ⟨q, known, final⟩ := (Option.any_eq_true ..).mp final
    exact ⟨q, of_decide_eq_true final, known⟩
  · rintro ⟨q, final, known⟩
    refine ⟨(List.getElem?_eq_some_iff.mp known).1, ?_⟩
    rw [known]
    exact decide_eq_true final

theorem getElem?_of_idxOf? {qs : List Nat} {i : Nat} (h : qs.idxOf? q = some i) :
    qs[i]? = some q := by
  obtain ⟨lt, eq, -⟩ := List.idxOf?_eq_some_iff.mp h
  exact List.getElem?_eq_some_iff.mpr ⟨lt, eq⟩

theorem idxOf?_of_getElem? {qs : List Nat} (ascending : qs.Pairwise (· < ·)) {i : Nat}
    (h : qs[i]? = some q) : qs.idxOf? q = some i := by
  obtain ⟨lt, rfl⟩ := List.getElem?_eq_some_iff.mp h
  refine List.idxOf?_eq_some_iff.mpr ⟨lt, rfl, fun j before => ?_⟩
  exact Nat.ne_of_lt (List.pairwise_iff_getElem.mp ascending j i _ lt before)

theorem restrict_range (d : Dfa) : d.restrict (List.range d.size) = d := by
  refine eq_of_move?_eq (by rw [size_restrict, List.length_range]) (fun i a => ?_) ?_
  · rw [move?_restrict]
    rcases Nat.lt_or_ge i d.size with lt | ge
    · rw [List.getElem?_range lt, Option.bind_some]
      cases move : d.move? i a with
      | none => rfl
      | some t =>
        exact idxOf?_of_getElem? List.pairwise_lt_range (List.getElem?_range (move?_lt move))
    · rw [List.getElem?_eq_none (by simpa using ge), Option.bind_none]
      cases move : d.move? i a with
      | none => rfl
      | some t => exact absurd (lt_size_of_move? move) (Nat.not_lt_of_le ge)
  · ext i
    rw [mem_finals_restrict]
    constructor
    · rintro ⟨q, final, known⟩
      obtain ⟨lt, rfl⟩ := List.getElem?_eq_some_iff.mp known
      rwa [List.getElem_range] at final
    · intro final
      exact ⟨i, final, List.getElem?_range (d.finals_below i final)⟩

theorem trim_eq (d : Dfa) : d.trim = d.restrict d.useful := by
  rw [trim]
  split
  · rfl
  · rename_i missing
    have none : d.useful = [] :=
      List.eq_nil_iff_forall_not_mem.mpr fun q h => missing (zero_mem_useful h)
    rw [none]
    rfl

theorem size_trim (d : Dfa) : d.trim.size = d.useful.length := by
  rw [trim_eq, size_restrict]

theorem move?_trim (d : Dfa) (i : Nat) (a : String) : d.trim.move? i a =
    d.useful[i]?.bind fun q => (d.move? q a).bind fun t => d.useful.idxOf? t := by
  rw [trim_eq, move?_restrict]

theorem mem_finals_trim {i : Nat} : i ∈ d.trim.finals ↔ ∃ q ∈ d.finals, d.useful[i]? = some q := by
  rw [trim_eq, mem_finals_restrict]

theorem idxOf?_useful_zero (d : Dfa) :
    d.useful.idxOf? 0 = if 0 < d.useful.length then some 0 else none := by
  cases eq : d.useful with
  | nil => rfl
  | cons q rest =>
    have mem := zero_mem_useful (d := d) (q := q) (by simp [eq])
    have ascending := d.pairwise_useful
    rw [eq] at mem ascending
    have first : q = 0 := by
      rcases List.mem_cons.mp mem with zero | later
      · exact zero.symm
      · exact absurd ((List.pairwise_cons.mp ascending).1 0 later) (Nat.not_lt_zero q)
    simp [first, List.idxOf?_cons]

theorem mem_useful_of_move? (run : d.run word = some q) (move : d.move? q a = some t)
    (h : t ∈ d.useful) : q ∈ d.useful := by
  obtain ⟨-, rest, accepted⟩ := mem_useful.mp h
  exact mem_useful.mpr ⟨⟨word, run⟩, a :: rest, acceptsFrom_cons.mpr ⟨t, move, accepted⟩⟩

/-- The trimmed table follows the whole one as far as an accepted word may still come of it. -/
theorem run_trim (d : Dfa) (word : List String) :
    d.trim.run word = (d.run word).bind fun q => d.useful.idxOf? q := by
  induction word using List.reverseRecOn with
  | nil =>
    rw [run, run, List.foldl_nil, List.foldl_nil, size_trim]
    by_cases inhabited : 0 < d.size
    · rw [if_pos inhabited, Option.bind_some, idxOf?_useful_zero]
    · have none : ¬ 0 < d.useful.length := by
        intro pos
        obtain ⟨⟨word, run⟩, -⟩ := mem_useful.mp (List.getElem_mem pos)
        have lt := lt_size_of_run run
        omega
      rw [if_neg inhabited, if_neg none, Option.bind_none]
  | append_singleton word a ih =>
    rw [run_snoc, run_snoc, ih]
    cases run : d.run word with
    | none => rfl
    | some q =>
      rw [Option.bind_some, Option.bind_some]
      cases position : d.useful.idxOf? q with
      | some i =>
        rw [Option.bind_some, move?_trim, getElem?_of_idxOf? position]
        rfl
      | none =>
        -- from a state that was dropped no move leads to one that was kept
        have dropped := List.idxOf?_eq_none_iff.mp position
        cases move : d.move? q a with
        | none => rfl
        | some t =>
          have lost : t ∉ d.useful := mt (mem_useful_of_move? run move) dropped
          exact (List.idxOf?_eq_none_iff.mpr lost).symm

theorem language_trim (d : Dfa) (word : List String) : d.trim.language word = d.language word := by
  rw [language, language, run_trim]
  cases run : d.run word with
  | none => rfl
  | some q =>
    rw [Option.bind_some, Bool.eq_iff_iff, Option.any_eq_true]
    constructor
    · rintro ⟨i, position, final⟩
      obtain ⟨r, final, known⟩ := mem_finals_trim.mp (of_decide_eq_true final)
      cases Option.some.inj (known.symm.trans (getElem?_of_idxOf? position))
      exact decide_eq_true final
    · intro final
      have final : q ∈ d.finals := of_decide_eq_true final
      have useful : q ∈ d.useful := mem_useful.mpr ⟨⟨word, run⟩, [], acceptsFrom_nil.mpr final⟩
      obtain ⟨i, position⟩ := Option.isSome_iff_exists.mp (List.isSome_idxOf?.mpr useful)
      have known := mem_finals_trim.mpr ⟨q, final, getElem?_of_idxOf? position⟩
      exact ⟨i, position, decide_eq_true known⟩

theorem run_trim_of_getElem? {i : Nat} (h : d.useful[i]? = some q) (run : d.run word = some q) :
    d.trim.run word = some i := by
  rw [run_trim, run, Option.bind_some, idxOf?_of_getElem? d.pairwise_useful h]

theorem reachable_trim (d : Dfa) : d.trim.Reachable := by
  intro i lt
  rw [size_trim] at lt
  obtain ⟨⟨word, run⟩, -⟩ := mem_useful.mp (List.getElem_mem lt)
  exact ⟨word, run_trim_of_getElem? (List.getElem?_eq_getElem lt) run⟩

theorem acceptsFrom_trim {i : Nat} (h : d.useful[i]? = some q) (word : List String) :
    d.trim.acceptsFrom i word = d.acceptsFrom q word := by
  obtain ⟨⟨first, run⟩, -⟩ := mem_useful.mp (List.mem_of_getElem? h)
  have same := d.language_trim (first ++ word)
  rwa [language_append, language_append, run, run_trim_of_getElem? h run] at same

def Useful (d : Dfa) (q : Nat) : Prop :=
  (∃ word, d.run word = some q) ∧ ∃ word, d.acceptsFrom q word = true

theorem useful_of_lt_size_trim {i : Nat} (lt : i < d.trim.size) : d.trim.Useful i := by
  refine ⟨d.reachable_trim i lt, ?_⟩
  rw [size_trim] at lt
  obtain ⟨-, word, accepted⟩ := mem_useful.mp (List.getElem_mem lt)
  exact ⟨word, (acceptsFrom_trim (List.getElem?_eq_getElem lt) word).trans accepted⟩

theorem useful_trim (d : Dfa) : d.trim.useful = List.range d.trim.size := by
  refine List.filter_eq_self.mpr fun i hi => ?_
  have kept := mem_useful.mpr (useful_of_lt_size_trim (List.mem_range.mp hi))
  exact (List.mem_filter.mp kept).2

theorem trim_trim (d : Dfa) : d.trim.trim = d.trim := by
  rw [trim_eq d.trim, useful_trim, restrict_range]

theorem size_trim_eq_zero : d.trim.size = 0 ↔ ∀ word, d.language word = false := by
  constructor
  · intro none word
    rw [← language_trim, language_eq_acceptsFrom, Bool.eq_false_iff]
    intro accepted
    have lt := lt_size_of_acceptsFrom accepted
    omega
  · intro nothing
    refine Nat.eq_zero_of_not_pos fun pos => ?_
    obtain ⟨-, word, accepted⟩ := useful_of_lt_size_trim pos
    rw [← language_eq_acceptsFrom, language_trim, nothing] at accepted
    cases accepted

/-- The states of a table are the ascending states `kept` of a larger one, each at its position, with the
moves between them and with those of them that are final. -/
structure IsPart (part d : Dfa) (kept : List Nat) : Prop where
  size_eq : part.size = kept.length
  ascending : kept.Pairwise (· < ·)
  move?_eq : ∀ {i j p q a}, kept[i]? = some p → kept[j]? = some q →
    (part.move? i a = some j ↔ d.move? p a = some q)
  mem_finals : ∀ {i p}, kept[i]? = some p → (i ∈ part.finals ↔ p ∈ d.finals)

theorem isPart_trim (d : Dfa) : d.trim.IsPart d d.useful where
  size_eq := d.size_trim
  ascending := d.pairwise_useful
  move?_eq {i j p q a} hp hq := by
    rw [move?_trim, hp, Option.bind_some, Option.bind_eq_some_iff]
    constructor
    · rintro ⟨t, move, position⟩
      cases Option.some.inj (hq.symm.trans (getElem?_of_idxOf? position))
      exact move
    · intro move
      exact ⟨q, move, idxOf?_of_getElem? d.pairwise_useful hq⟩
  mem_finals {i p} hp := by
    rw [mem_finals_trim]
    constructor
    · rintro ⟨q, final, known⟩
      cases Option.some.inj (hp.symm.trans known)
      exact final
    · intro final
      exact ⟨p, final, hp⟩

/-- A trimmed table accepts what the whole one accepts. It is the part of it on the useful states, in their
order; all its states are useful, there are none if no word is accepted, and nothing is left to trim. -/
theorem trims (d : Dfa) :
    (∀ word, (Automaton.recognizes d.trim word).1 = (Automaton.recognizes d word).1) ∧
    (∀ q < d.trim.size, d.trim.Useful q) ∧
    (d.trim.size = 0 ↔ ∀ word, (Automaton.recognizes d word).1 = false) ∧
    (∃ kept, d.trim.IsPart d kept ∧ ∀ q, q ∈ kept ↔ d.Useful q) ∧
    d.trim.trim = d.trim := by
  simp only [recognizes_eq_language]
  exact ⟨d.language_trim, fun q lt => useful_of_lt_size_trim lt, size_trim_eq_zero,
    ⟨d.useful, d.isPart_trim, fun q => mem_useful⟩, d.trim_trim⟩

end Dfa

end CallAtlas
