/-!
Maps and sets whose keys are names. Entries are kept in ascending code point order, which is the
order in which they are listed, so two maps that answer alike are equal. Main statements: `ext_get?`
and what `put`, `erase` and `filter` do to `get?`.
-/
namespace CallAtlas

/-- A finite map from names, listed by ascending name. -/
structure NameMap (β : Type) where
  entries : List (String × β)
  ascending : entries.Pairwise (fun a b => a.1 < b.1) := by exact List.Pairwise.nil
deriving DecidableEq

namespace NameMap

variable {β : Type}

/-- Put a value under a name into an ascending list, in place of the value it had. -/
def putEntry (k : String) (v : β) : List (String × β) → List (String × β)
  | [] => [(k, v)]
  | (l, w) :: rest =>
    if k < l then (k, v) :: (l, w) :: rest
    else if k = l then (k, v) :: rest
    else (l, w) :: putEntry k v rest

theorem mem_putEntry {k : String} {v : β} {es : List (String × β)} {e : String × β}
    (h : e ∈ putEntry k v es) : e = (k, v) ∨ e ∈ es := by
  induction es with
  | nil => simpa [putEntry] using h
  | cons f rest ih =>
    obtain ⟨l, w⟩ := f
    simp only [putEntry] at h
    split at h
    · simpa using h
    · split at h
      · rcases List.mem_cons.mp h with h | h
        · exact .inl h
        · exact .inr (by simp [h])
      · rcases List.mem_cons.mp h with h | h
        · exact .inr (by simp [h])
        · exact (ih h).imp id fun h => by simp [h]

theorem lt_of_not_lt_of_ne {k l : String} (h : ¬ k < l) (h' : k ≠ l) : l < k :=
  String.not_le.mp fun le => h' (String.le_antisymm le (String.not_lt.mp h))

theorem ascending_putEntry {k : String} {v : β} {es : List (String × β)}
    (h : es.Pairwise (fun a b => a.1 < b.1)) :
    (putEntry k v es).Pairwise (fun a b => a.1 < b.1) := by
  induction es with
  | nil => simp [putEntry]
  | cons f rest ih =>
    obtain ⟨l, w⟩ := f
    obtain ⟨below, tail⟩ := List.pairwise_cons.mp h
    simp only [putEntry]
    split
    · rename_i lt
      refine List.pairwise_cons.mpr ⟨fun e he => ?_, h⟩
      rcases List.mem_cons.mp he with rfl | he
      · exact lt
      · exact String.lt_trans lt (below e he)
    · split
      · rename_i eq
        exact List.pairwise_cons.mpr ⟨fun e he => eq ▸ below e he, tail⟩
      · rename_i ge ne
        refine List.pairwise_cons.mpr ⟨fun e he => ?_, ih tail⟩
        rcases mem_putEntry he with rfl | he
        · exact lt_of_not_lt_of_ne ge ne
        · exact below e he

def empty : NameMap β := ⟨[], .nil⟩

instance : EmptyCollection (NameMap β) := ⟨empty⟩

instance : Inhabited (NameMap β) := ⟨∅⟩

def get? (m : NameMap β) (k : String) : Option β := m.entries.lookup k

def put (m : NameMap β) (k : String) (v : β) : NameMap β :=
  ⟨putEntry k v m.entries, ascending_putEntry m.ascending⟩

def filter (m : NameMap β) (p : String → β → Bool) : NameMap β :=
  ⟨m.entries.filter fun e => p e.1 e.2, m.ascending.filter _⟩

/-- Replace the values, dropping the entries that `f` refuses. -/
def filterMap {γ : Type} (m : NameMap β) (f : String → β → Option γ) : NameMap γ :=
  ⟨m.entries.filterMap fun e => (f e.1 e.2).map fun v => (e.1, v), by
    refine m.ascending.filterMap _ fun e e' lt b hb b' hb' => ?_
    obtain ⟨v, _, rfl⟩ := Option.map_eq_some_iff.mp hb
    obtain ⟨v', _, rfl⟩ := Option.map_eq_some_iff.mp hb'
    exact lt⟩

def erase (m : NameMap β) (k : String) : NameMap β := m.filter fun l _ => l != k

/-- Replace the value under `k`, or give it one, by a function of what is there. -/
def update (m : NameMap β) (k : String) (f : Option β → β) : NameMap β :=
  m.put k (f (m.get? k))

def keys (m : NameMap β) : List String := m.entries.map (·.1)

def size (m : NameMap β) : Nat := m.entries.length

instance : Membership String (NameMap β) := ⟨fun m k => k ∈ m.keys⟩

theorem mem_def {m : NameMap β} {k : String} : k ∈ m ↔ k ∈ m.keys := Iff.rfl

instance (k : String) (m : NameMap β) : Decidable (k ∈ m) :=
  inferInstanceAs (Decidable (k ∈ m.keys))

theorem lookup_putEntry {k l : String} {v : β} {es : List (String × β)}
    (h : es.Pairwise (fun a b => a.1 < b.1)) :
    (putEntry k v es).lookup l = if l = k then some v else es.lookup l := by
  induction es with
  | nil =>
    by_cases eq : l = k
    · simp [putEntry, eq]
    · simp [putEntry, List.lookup_cons, beq_false_of_ne eq, eq]
  | cons f rest ih =>
    obtain ⟨j, w⟩ := f
    have ih := ih (List.pairwise_cons.mp h).2
    simp only [putEntry]
    split
    · by_cases eq : l = k
      · simp [eq]
      · simp [List.lookup_cons, beq_false_of_ne eq, eq]
    · split
      · rename_i eq
        subst eq
        by_cases eq : l = k
        · simp [eq]
        · simp [List.lookup_cons, beq_false_of_ne eq, eq]
      · rename_i ne
        by_cases eq : l = j
        · subst eq
          simp [Ne.symm ne]
        · simp [List.lookup_cons, beq_false_of_ne eq, ih]

@[simp] theorem get?_empty (k : String) : (∅ : NameMap β).get? k = none := rfl

theorem get?_put (m : NameMap β) (k l : String) (v : β) :
    (m.put k v).get? l = if l = k then some v else m.get? l :=
  lookup_putEntry m.ascending

theorem lookup_eq_some_iff {es : List (String × β)} (h : es.Pairwise (fun a b => a.1 < b.1))
    {k : String} {v : β} : es.lookup k = some v ↔ (k, v) ∈ es := by
  induction es with
  | nil => simp
  | cons f rest ih =>
    obtain ⟨l, w⟩ := f
    obtain ⟨below, tail⟩ := List.pairwise_cons.mp h
    by_cases eq : k = l
    · subst eq
      have fresh : (k, v) ∉ rest := fun hm => String.lt_irrefl k (below _ hm)
      simp [fresh, eq_comm]
    · simp [List.lookup_cons, beq_false_of_ne eq, eq, ih tail]

theorem get?_eq_some_iff {m : NameMap β} {k : String} {v : β} :
    m.get? k = some v ↔ (k, v) ∈ m.entries := lookup_eq_some_iff m.ascending

theorem get?_filterMap {γ : Type} (m : NameMap β) (f : String → β → Option γ) (k : String) :
    (m.filterMap f).get? k = (m.get? k).bind (f k) := by
  apply Option.ext
  intro v
  rw [get?_eq_some_iff, Option.bind_eq_some_iff]
  simp only [filterMap, List.mem_filterMap, Option.map_eq_some_iff, Prod.mk.injEq, Prod.exists]
  constructor
  · rintro ⟨l, w, hmem, u, hu, rfl, rfl⟩
    exact ⟨w, get?_eq_some_iff.mpr hmem, hu⟩
  · rintro ⟨w, hw, hu⟩
    exact ⟨k, w, get?_eq_some_iff.mp hw, v, hu, rfl, rfl⟩

theorem mem_iff_isSome_get? {m : NameMap β} {k : String} : k ∈ m ↔ (m.get? k).isSome := by
  rw [mem_def, keys, List.mem_map, Option.isSome_iff_exists]
  constructor
  · rintro ⟨⟨l, v⟩, he, rfl⟩
    exact ⟨v, get?_eq_some_iff.mpr he⟩
  · rintro ⟨v, hv⟩
    exact ⟨(k, v), get?_eq_some_iff.mp hv, rfl⟩

theorem mem_filter_iff {m : NameMap β} {p : String → β → Bool} {k : String} :
    k ∈ m.filter p ↔ ∃ v, m.get? k = some v ∧ p k v = true := by
  rw [mem_def, keys, List.mem_map]
  constructor
  · rintro ⟨⟨l, v⟩, he, rfl⟩
    obtain ⟨he, hp⟩ := List.mem_filter.mp he
    exact ⟨v, get?_eq_some_iff.mpr he, hp⟩
  · rintro ⟨v, hv, hp⟩
    exact ⟨(k, v), List.mem_filter.mpr ⟨get?_eq_some_iff.mp hv, hp⟩, rfl⟩

theorem pairwise_keys (m : NameMap β) : m.keys.Pairwise (· < ·) :=
  List.pairwise_map.mpr m.ascending

theorem eq_of_mem_iff {es fs : List (String × β)} (he : es.Pairwise (fun a b => a.1 < b.1))
    (hf : fs.Pairwise (fun a b => a.1 < b.1)) (h : ∀ e, e ∈ es ↔ e ∈ fs) : es = fs := by
  induction es generalizing fs with
  | nil =>
    cases fs with
    | nil => rfl
    | cons f fs => exact absurd ((h f).mpr (by simp)) (by simp)
  | cons e es ih =>
    cases fs with
    | nil => exact absurd ((h e).mp (by simp)) (by simp)
    | cons f fs =>
      obtain ⟨he, hes⟩ := List.pairwise_cons.mp he
      obtain ⟨hf, hfs⟩ := List.pairwise_cons.mp hf
      have head : e = f := by
        rcases List.mem_cons.mp ((h e).mp (by simp)) with eq | hmem
        · exact eq
        · rcases List.mem_cons.mp ((h f).mpr (by simp)) with eq | hmem'
          · exact eq.symm
          · exact absurd (hf e hmem) (String.lt_asymm (he f hmem'))
      subst head
      congr 1
      refine ih hes hfs fun g => ⟨fun hg => ?_, fun hg => ?_⟩
      · rcases List.mem_cons.mp ((h g).mp (by simp [hg])) with rfl | hg'
        · exact absurd (he g hg) (String.lt_irrefl _)
        · exact hg'
      · rcases List.mem_cons.mp ((h g).mpr (by simp [hg])) with rfl | hg'
        · exact absurd (hf g hg) (String.lt_irrefl _)
        · exact hg'

theorem ext_get? {m n : NameMap β} (h : ∀ k, m.get? k = n.get? k) : m = n := by
  cases m; cases n
  congr 1
  rename_i hm _ hn
  refine eq_of_mem_iff hm hn fun ⟨k, v⟩ => ?_
  rw [← lookup_eq_some_iff hm, ← lookup_eq_some_iff hn]
  exact iff_of_eq (congrArg (· = some v) (h k))

end NameMap

/-- A finite set of names, listed in ascending order. -/
abbrev NameSet : Type := NameMap Unit

namespace NameSet

def insert (S : NameSet) (a : String) : NameSet := S.put a ()

def ofList (as : List String) : NameSet := as.foldl insert ∅

def toList (S : NameSet) : List String := NameMap.keys S

@[simp] theorem mem_toList {S : NameSet} {a : String} : a ∈ toList S ↔ a ∈ S := Iff.rfl

theorem mem_insert {S : NameSet} {a b : String} : b ∈ insert S a ↔ b = a ∨ b ∈ S := by
  rw [NameMap.mem_iff_isSome_get?, NameMap.mem_iff_isSome_get?, insert, NameMap.get?_put]
  by_cases h : b = a <;> simp [h]

theorem mem_erase {S : NameSet} {a b : String} : b ∈ S.erase a ↔ b ≠ a ∧ b ∈ S := by
  rw [NameMap.erase, NameMap.mem_filter_iff, NameMap.mem_iff_isSome_get?,
    Option.isSome_iff_exists]
  constructor
  · rintro ⟨v, hv, hne⟩
    exact ⟨by simpa using hne, v, hv⟩
  · rintro ⟨hne, v, hv⟩
    exact ⟨v, hv, by simpa using hne⟩

theorem mem_foldl_insert {as : List String} {S : NameSet} {b : String} :
    b ∈ as.foldl insert S ↔ b ∈ S ∨ b ∈ as := by
  induction as generalizing S with
  | nil => simp
  | cons a as ih =>
    rw [List.foldl_cons, ih, mem_insert, List.mem_cons]
    constructor
    · rintro ((h | h) | h) <;> simp [h]
    · rintro (h | h | h) <;> simp [h]

@[simp] theorem mem_ofList {as : List String} {b : String} : b ∈ ofList as ↔ b ∈ as := by
  rw [ofList, mem_foldl_insert]
  simp [NameMap.mem_iff_isSome_get?]

theorem ext {S T : NameSet} (h : ∀ a, a ∈ S ↔ a ∈ T) : S = T := by
  apply NameMap.ext_get?
  intro a
  have := h a
  rw [NameMap.mem_iff_isSome_get?, NameMap.mem_iff_isSome_get?] at this
  cases hs : S.get? a <;> cases ht : T.get? a <;> simp_all

end NameSet

end CallAtlas
