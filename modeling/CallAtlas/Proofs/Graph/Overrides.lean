import CallAtlas.Proofs.Graph.Cascade
import CallAtlas.Proofs.Graph.Provenance
/-!
Visibility as a history makes it. What is kept and what is hidden overrides the default, and of several
things that a history says of a name the last one counts; a reset takes all of them back. Main statement:
`overrides_ofHistory`.
-/
namespace CallAtlas

inductive Event where
  /-- from now on the node of that name is shown, or it is hidden -/
  | record (name : String) (shown : Bool)
  | setDefault (shown : Bool)
  | reset
deriving DecidableEq, Repr

namespace Event

/-- Whether what was said of a name before does not count any more. -/
def decides (name : String) : Event → Bool
  | record other _ => other == name
  | setDefault _ => false
  | reset => true

def verdict? : Event → Option Bool
  | record _ shown => some shown
  | _ => none

def default? : Event → Option Bool
  | record _ _ => none
  | setDefault shown => some shown
  | reset => some true

end Event

namespace Graph

/-- What is said of a name last, after the last reset. -/
def lastSaid (events : List Event) (name : String) : Option Bool :=
  (events.reverse.find? (·.decides name)).bind Event.verdict?

def lastDefault (events : List Event) : Bool :=
  (events.reverse.findSome? Event.default?).getD true

/-- The names of the nodes that are found alone when they are checked in turn. -/
def foundAlone (g : Graph) : List Nat → List String
  | [] => []
  | i :: is =>
    if g.isJoinedAt i then g.foundAlone is else g.nameAt i :: (g.hideIfAlone i).foundAlone is

/-- What a cut says: every node that it finds alone is hidden. -/
def cutEvents (g : Graph) (c : Cut) : List Event :=
  ((g.mark c).foundAlone (g.checked c)).map (.record · false)

def events (g : Graph) : Change → List Event
  | .hide name => [.record (g.canonical name) false]
  | .keep name => [.record (g.canonical name) true]
  | .cutCallers name => g.cutEvents (.callers name)
  | .cutCallees name => g.cutEvents (.callees name)
  | .resetVisibility => [.reset]
  | .setDefault shown => [.setDefault shown]
  | .add _ | .resetLabels => []

def eventsFrom (g : Graph) : List Change → List Event
  | [] => []
  | change :: rest => g.events change ++ eventsFrom (g.apply change) rest

def eventsIn (history : List Change) : List Event := eventsFrom {} history

structure Obeys (v : Visibility) (events : List Event) : Prop where
  disjoint : ∀ name, name ∈ v.kept → name ∉ v.hidden
  kept : ∀ name, name ∈ v.kept ↔ lastSaid events name = some true
  hidden : ∀ name, name ∈ v.hidden ↔ lastSaid events name = some false
  shownByDefault : v.shownByDefault = lastDefault events

variable {g : Graph} {v : Visibility} {events : List Event} {name other : String} {shown : Bool}

theorem lastSaid_concat (events : List Event) (e : Event) (name : String) :
    lastSaid (events ++ [e]) name = if e.decides name then e.verdict? else lastSaid events name := by
  rw [lastSaid, List.reverse_concat, List.find?_cons]
  cases e.decides name <;> rfl

theorem lastDefault_concat (events : List Event) (e : Event) :
    lastDefault (events ++ [e]) = e.default?.getD (lastDefault events) := by
  rw [lastDefault, List.reverse_concat, List.findSome?_cons]
  cases e.default? <;> rfl

theorem lastSaid_record (events : List Event) (name : String) (shown : Bool) (other : String) :
    lastSaid (events ++ [.record name shown]) other =
      if name = other then some shown else lastSaid events other := by
  rw [lastSaid_concat]
  simp [Event.decides, Event.verdict?]

namespace Obeys

theorem start : Obeys {} [] :=
  ⟨by simp [NameMap.mem_iff_isSome_get?], by simp [NameMap.mem_iff_isSome_get?, lastSaid],
    by simp [NameMap.mem_iff_isSome_get?, lastSaid], rfl⟩

theorem hide (h : Obeys v events) (name : String) :
    Obeys (v.hide name) (events ++ [.record name false]) := by
  refine ⟨fun other kept hidden => ?_, fun other => ?_, fun other => ?_, ?_⟩
  · obtain ⟨ne, kept⟩ := NameSet.mem_erase.mp kept
    exact h.disjoint other kept ((NameSet.mem_insert.mp hidden).resolve_left ne)
  · rw [lastSaid_record]
    show other ∈ v.kept.erase name ↔ _
    rw [NameSet.mem_erase, h.kept]
    split <;> simp_all [eq_comm]
  · rw [lastSaid_record]
    show other ∈ NameSet.insert v.hidden name ↔ _
    rw [NameSet.mem_insert, h.hidden]
    split <;> simp_all [eq_comm]
  · rw [lastDefault_concat]
    exact h.shownByDefault

theorem keep (h : Obeys v events) (name : String) :
    Obeys (v.keep name) (events ++ [.record name true]) := by
  refine ⟨fun other kept hidden => ?_, fun other => ?_, fun other => ?_, ?_⟩
  · obtain ⟨ne, hidden⟩ := NameSet.mem_erase.mp hidden
    exact h.disjoint other ((NameSet.mem_insert.mp kept).resolve_left ne) hidden
  · rw [lastSaid_record]
    show other ∈ NameSet.insert v.kept name ↔ _
    rw [NameSet.mem_insert, h.kept]
    split <;> simp_all [eq_comm]
  · rw [lastSaid_record]
    show other ∈ v.hidden.erase name ↔ _
    rw [NameSet.mem_erase, h.hidden]
    split <;> simp_all [eq_comm]
  · rw [lastDefault_concat]
    exact h.shownByDefault

theorem setDefault (h : Obeys v events) (shown : Bool) :
    Obeys { v with shownByDefault := shown } (events ++ [.setDefault shown]) := by
  have unmoved : lastSaid (events ++ [.setDefault shown]) = lastSaid events := by
    funext name
    rw [lastSaid_concat]
    rfl
  refine ⟨h.disjoint, ?_, ?_, ?_⟩
  · rw [unmoved]
    exact h.kept
  · rw [unmoved]
    exact h.hidden
  · rw [lastDefault_concat]
    rfl

theorem reset (events : List Event) : Obeys {} (events ++ [.reset]) := by
  have forgotten (name : String) : lastSaid (events ++ [.reset]) name = none := by
    rw [lastSaid_concat]
    rfl
  refine ⟨start.disjoint, fun name => ?_, fun name => ?_, ?_⟩
  · rw [forgotten]
    exact start.kept name
  · rw [forgotten]
    exact start.hidden name
  · rw [lastDefault_concat]
    rfl

theorem checks (h : Obeys g.visibility events) (is : List Nat) :
    Obeys (is.foldl hideIfAlone g).visibility (events ++ (g.foundAlone is).map (.record · false)) := by
  induction is generalizing g events with
  | nil =>
    rw [foundAlone, List.map_nil, List.append_nil]
    exact h
  | cons i is ih =>
    rw [List.foldl_cons, foundAlone, hideIfAlone]
    split
    · exact ih h
    · rw [List.map_cons, List.append_cons]
      exact ih (g := { g with visibility := g.visibility.hide (g.nameAt i) }) (h.hide (g.nameAt i))

theorem cut (h : Obeys g.visibility events) (c : Cut) :
    Obeys (g.cut c).visibility (events ++ g.cutEvents c) := by
  have marked : Obeys (g.mark c).visibility events := by
    cases c <;> exact ⟨h.disjoint, h.kept, h.hidden, h.shownByDefault⟩
  rw [cut_eq]
  exact marked.checks (g.checked c)

end Obeys

theorem shows_foldl_hideIfAlone (g : Graph) (is : List Nat) (name : String) :
    (is.foldl hideIfAlone g).visibility.shows name = true ↔
      g.visibility.shows name = true ∧ name ∉ g.foundAlone is := by
  induction is generalizing g with
  | nil => simp [foundAlone]
  | cons i is ih =>
    rw [List.foldl_cons, ih, foundAlone, hideIfAlone]
    split
    · rfl
    · rw [shows_hide, Bool.and_eq_true, bne_iff_ne, List.mem_cons, not_or, and_assoc]

/-- A cut hides those of the visible nodes that it checks and leaves without a visible edge to or from a
node that was visible before. -/
theorem WellFormed.mem_cutEvents (h : g.WellFormed) (c : Cut) {i : Nat}
    (visible : g.showsAt true i = true) : .record (g.nameAt i) false ∈ g.cutEvents c ↔
      i ∈ g.checked c ∧ ¬ ∃ j, g.showsAt true j = true ∧ (g.cut c).Meets i j := by
  have kept := (h.pruned_cut c).shows i
  obtain ⟨lt, shown⟩ := showsAt_true_iff.mp visible
  obtain ⟨w, same⟩ := g.exists_visibility_cut c
  have marked : (g.mark c).visibility.shows (g.nameAt i) = true := by cases c <;> exact shown
  have left : (g.cut c).showsAt true i = true ↔ g.nameAt i ∉ (g.mark c).foundAlone (g.checked c) := by
    have after := (g.mark c).shows_foldl_hideIfAlone (g.checked c) (g.nameAt i)
    rw [← cut_eq, and_iff_right marked] at after
    rw [← after, same, showsAt_true_iff]
    exact and_iff_right lt
  have said : .record (g.nameAt i) false ∈ g.cutEvents c ↔
      g.nameAt i ∈ (g.mark c).foundAlone (g.checked c) := by
    simp [cutEvents]
  rw [said, ← not_iff_not, ← left, kept, and_iff_right visible, not_and, not_not]

theorem visibility_mention (g : Graph) (name : String) :
    (g.mention name).2.visibility = g.visibility := by
  unfold mention
  split <;> rfl

theorem visibility_add {entry : Entry} {g' : Graph} (h : g.add entry = .ok g') :
    g'.visibility = g.visibility := by
  cases entry with
  | mention name =>
    cases h
    exact g.visibility_mention name
  | define name d =>
    cases h
    show (g.define name d).2.visibility = g.visibility
    rw [define_eq]
    split <;> exact g.visibility_mention name
  | label l name =>
    cases h
    rfl
  | edge caller callee kind =>
    obtain ⟨i, -, -, rfl⟩ := connect_eq_ok.mp h
    rw [join_eq]
    exact g.visibility_mention callee

theorem Obeys.apply (h : Obeys g.visibility events) (change : Change) :
    Obeys (g.apply change).visibility (events ++ g.events change) := by
  cases change with
  | add entry =>
    rw [Graph.events, List.append_nil]
    rcases g.apply_cases (.add entry) with ⟨_, -, added⟩ | ⟨_, _, -, -, same⟩ | ⟨none, -⟩
    · rw [visibility_add added]
      exact h
    · rw [same]
      exact h
    · exact absurd rfl (none entry)
  | resetLabels =>
    rw [Graph.events, List.append_nil]
    exact h
  | hide name => exact h.hide _
  | keep name => exact h.keep _
  | cutCallers name => exact h.cut (.callers name)
  | cutCallees name => exact h.cut (.callees name)
  | resetVisibility => exact .reset events
  | setDefault shown => exact h.setDefault shown

theorem obeys_ofHistory (history : List Change) :
    Obeys (ofHistory history).visibility (eventsIn history) := by
  have run : ∀ (g : Graph) (events : List Event), Obeys g.visibility events →
      Obeys (history.foldl Graph.apply g).visibility (events ++ g.eventsFrom history) := by
    induction history with
    | nil =>
      intro g events h
      rw [eventsFrom, List.append_nil]
      exact h
    | cons change history ih =>
      intro g events h
      rw [List.foldl_cons, eventsFrom, ← List.append_assoc]
      exact ih _ _ (h.apply change)
  exact run {} [] .start

theorem Obeys.shows (h : Obeys v events) (name : String) :
    v.shows name = (lastSaid events name).getD v.shownByDefault := by
  rw [Visibility.shows]
  split
  · rename_i kept
    rw [(h.kept name).mp kept]
    rfl
  · rename_i kept
    split
    · rename_i hidden
      rw [(h.hidden name).mp hidden]
      rfl
    · rename_i hidden
      rw [h.kept] at kept
      rw [h.hidden] at hidden
      cases said : lastSaid events name with
      | none => rfl
      | some shown => cases shown <;> simp_all

/-- Nothing is kept and hidden at once; what was said of a node last since the last reset decides whether it
is visible, or the default if nothing was; and an external node is not visible unless it is asked for. -/
theorem overrides_ofHistory (history : List Change) :
    (∀ name, name ∈ (ofHistory history).visibility.kept →
        name ∉ (ofHistory history).visibility.hidden) ∧
      (ofHistory history).visibility.shownByDefault = lastDefault (eventsIn history) ∧
      ∀ i < (ofHistory history).size,
        (ofHistory history).showsAt true i =
            (lastSaid (eventsIn history) ((ofHistory history).nameAt i)).getD
              (ofHistory history).visibility.shownByDefault ∧
          (ofHistory history).showsAt false i =
            ((ofHistory history).showsAt true i && !(ofHistory history).isExternalAt i) := by
  have obeys := obeys_ofHistory history
  refine ⟨obeys.disjoint, obeys.shownByDefault, fun i lt => ⟨?_, ?_⟩⟩
  · rw [showsAt_eq true lt, obeys.shows]
    rfl
  · rw [showsAt_eq true lt, showsAt_eq false lt, Bool.and_comm]
    rfl

/-- A node is hidden in spite of being kept before: it was left alone later. -/
def stranded : List Change :=
  [.hide "b", .resetVisibility, .add (.define "a" {}), .add (.edge "a" "b" .call), .keep "b",
    .cutCallees "a"]

theorem overrides_ofHistory_stranded : 1 < (ofHistory stranded).size ∧
    eventsIn stranded = [.record "b" false, .reset, .record "b" true, .record "a" false,
      .record "b" false] ∧
    (ofHistory stranded).showsAt true 1 = false := by
  have lt : 1 < (ofHistory stranded).size := by with_unfolding_all decide
  have said : lastSaid (eventsIn stranded) ((ofHistory stranded).nameAt 1) = some false := by
    with_unfolding_all decide
  obtain ⟨-, -, each⟩ := overrides_ofHistory stranded
  refine ⟨lt, by with_unfolding_all decide, ?_⟩
  rw [(each 1 lt).1, said]
  rfl

end Graph

end CallAtlas
