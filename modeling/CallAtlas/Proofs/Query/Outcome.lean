import CallAtlas.Query.Outcome
/-!
What readers read. For each way of putting readers together there is one rule for what holds of all that
is read, and one for what is read, so that a whole reader is known from its parts.
-/
namespace CallAtlas.Query.Outcome

variable {α β : Type} {j k : Nat} {cs : List Char} {P : α → List Char → Prop}

def Holds (o : Outcome α k cs) (P : α → List Char → Prop) : Prop :=
  ∀ a r, o = .ok (a, r) → P a r.chars

theorem Holds.ok {a : α} {r : Rest k cs} (h : P a r.chars) :
    Holds (.ok (a, r) : Outcome α k cs) P := by
  intro b s eq
  cases eq
  exact h

theorem Holds.error {e : Stop cs} : Holds (.error e : Outcome α k cs) P := nofun

theorem Holds.expected {wanted : Wanted} {r : Rest j cs} :
    Holds (Outcome.expected wanted r : Outcome α k cs) P := nofun

theorem Holds.mono {o : Outcome α k cs} {Q : α → List Char → Prop} (h : o.Holds P)
    (imp : ∀ a (r : Rest k cs), P a r.chars → Q a r.chars) : o.Holds Q :=
  fun a r eq => imp a r (h a r eq)

theorem Holds.map {o : Outcome α k cs} {f : α → β} {Q : β → List Char → Prop}
    (h : o.Holds fun a rest => Q (f a) rest) : (o.map f).Holds Q := by
  intro b r eq
  cases o with
  | error e => cases eq
  | ok read =>
    cases eq
    exact h _ _ rfl

theorem Holds.weaken {o : Outcome α k cs} (h : o.Holds P) (le : j ≤ k) : (o.weaken le).Holds P := by
  intro a r eq
  cases o with
  | error e => cases eq
  | ok read =>
    cases eq
    exact h _ _ rfl

theorem Holds.after {r : Rest j cs} {o : Outcome α k r.chars} (h : o.Holds P) :
    (Outcome.after r o).Holds P := by
  intro a s eq
  cases o with
  | error e => cases eq
  | ok read =>
    cases eq
    exact h _ _ rfl

theorem Holds.andThen {o : Outcome α j cs} {f : α → (r : Rest j cs) → Outcome β k r.chars}
    {Q : β → List Char → Prop} (h : o.Holds P)
    (next : ∀ a (r : Rest j cs), P a r.chars → (f a r).Holds Q) : (o.andThen f).Holds Q := by
  cases o with
  | error e => exact .error
  | ok read => exact (next read.1 read.2 (h _ _ rfl)).after

def Reads (o : Outcome α k cs) (a : α) (rest : List Char) : Prop :=
  ∃ r, o = .ok (a, r) ∧ r.chars = rest

variable {a b : α} {rest more : List Char}

theorem Reads.ok {r : Rest k cs} (h : r.chars = rest) : Reads (.ok (a, r) : Outcome α k cs) a rest :=
  ⟨r, rfl, h⟩

theorem Reads.map {o : Outcome α k cs} (h : o.Reads a rest) (f : α → β) :
    (o.map f).Reads (f a) rest := by
  obtain ⟨r, rfl, left⟩ := h
  exact ⟨r, rfl, left⟩

theorem Reads.weaken {o : Outcome α k cs} (h : o.Reads a rest) (le : j ≤ k) :
    (o.weaken le).Reads a rest := by
  obtain ⟨r, rfl, left⟩ := h
  exact ⟨r.weaken le, rfl, left⟩

theorem Reads.after {r : Rest j cs} {o : Outcome α k r.chars} (h : o.Reads a rest) :
    (Outcome.after r o).Reads a rest := by
  obtain ⟨s, rfl, left⟩ := h
  exact ⟨r.andThen s, rfl, left⟩

theorem Reads.andThen {o : Outcome α j cs} {f : α → (r : Rest j cs) → Outcome β k r.chars} {b : β}
    (h : o.Reads a rest) (next : ∀ r : Rest j cs, r.chars = rest → (f a r).Reads b more) :
    (o.andThen f).Reads b more := by
  obtain ⟨r, rfl, left⟩ := h
  exact (next r left).after

theorem reads_ok_iff {r : Rest k cs} :
    Reads (.ok (a, r) : Outcome α k cs) b rest ↔ b = a ∧ rest = r.chars := by
  constructor
  · rintro ⟨r, ⟨⟩, rfl⟩
    exact ⟨rfl, rfl⟩
  · rintro ⟨rfl, rfl⟩
    exact ⟨r, rfl, rfl⟩

theorem not_reads_error {e : Stop cs} : ¬ Reads (.error e : Outcome α k cs) a rest := by
  rintro ⟨r, ⟨⟩, -⟩

theorem not_reads_expected {wanted : Wanted} {r : Rest j cs} :
    ¬ Reads (Outcome.expected wanted r : Outcome α k cs) a rest := not_reads_error

theorem reads_map_iff {o : Outcome α k cs} {f : α → β} {b : β} :
    (o.map f).Reads b rest ↔ ∃ a, o.Reads a rest ∧ b = f a := by
  constructor
  · rintro ⟨r, eq, left⟩
    cases o with
    | error e => cases eq
    | ok read =>
      cases eq
      exact ⟨_, ⟨_, rfl, left⟩, rfl⟩
  · rintro ⟨a, read, rfl⟩
    exact read.map f

theorem reads_weaken_iff {o : Outcome α k cs} {le : j ≤ k} :
    (o.weaken le).Reads a rest ↔ o.Reads a rest := by
  refine ⟨?_, fun read => read.weaken le⟩
  rintro ⟨r, eq, left⟩
  cases o with
  | error e => cases eq
  | ok read =>
    cases eq
    exact ⟨_, rfl, left⟩

theorem reads_after_iff {r : Rest j cs} {o : Outcome α k r.chars} :
    (Outcome.after r o).Reads a rest ↔ o.Reads a rest := by
  refine ⟨?_, fun read => read.after⟩
  rintro ⟨s, eq, left⟩
  cases o with
  | error e => cases eq
  | ok read =>
    cases eq
    exact ⟨_, rfl, left⟩

theorem reads_after_tail_iff {c : Char} {o : Outcome α k cs} :
    (Outcome.after (.tail c cs) o).Reads a rest ↔ o.Reads a rest := reads_after_iff

theorem reads_andThen_iff {o : Outcome α j cs} {f : α → (r : Rest j cs) → Outcome β k r.chars} {b : β} :
    (o.andThen f).Reads b more ↔ ∃ a r, o = .ok (a, r) ∧ (f a r).Reads b more := by
  constructor
  · intro read
    cases o with
    | error e => exact absurd read not_reads_error
    | ok first => exact ⟨first.1, first.2, rfl, reads_after_iff.mp read⟩
  · rintro ⟨a, r, rfl, read⟩
    exact read.after

theorem Reads.unique {o : Outcome α k cs} (h : o.Reads a rest) (h' : o.Reads b more) :
    a = b ∧ rest = more := by
  obtain ⟨r, rfl, rfl⟩ := h
  obtain ⟨rfl, rfl⟩ := reads_ok_iff.mp h'
  exact ⟨rfl, rfl⟩

theorem Reads.length_le {o : Outcome α k cs} (h : o.Reads a rest) : rest.length + k ≤ cs.length := by
  obtain ⟨r, -, rfl⟩ := h
  exact r.taken

end CallAtlas.Query.Outcome
