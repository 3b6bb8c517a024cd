import CallAtlas.Proofs.Dump.Reload
/-!
Graphs that are read from files. Whatever a file holds, a graph that is read from it comes from entries
with texts of one line, and no definition in it has the word of an option as its name or its file. Main
statements: `built_of_ofDump`, `allTexts_of_ofDump` and `definesPlainly_of_ofDump` on what is read, and
`DefinesPlainly.plain_of_reload`, a graph whose dump is read again has no option among its names.
-/
namespace CallAtlas.Graph

variable {g g' : Graph}

theorem addLine_eq_ok {line : String} : g.addLine line = .ok g' ↔
    ∃ tokens, Token.split line = .ok tokens ∧
      (Entry.ofTokens tokens = .ok none ∧ g = g' ∨
        ∃ e, Entry.ofTokens tokens = .ok (some e) ∧ g.add e = .ok g') := by
  rw [addLine]
  cases Token.split line with
  | error e => simp
  | ok tokens =>
    simp only [Except.ok.injEq, exists_eq_left']
    cases Entry.ofTokens tokens with
    | error e => simp
    | ok said =>
      cases said with
      | none => simp
      | some e =>
        simp only [Except.ok.injEq, reduceCtorEq, false_and, false_or, Option.some.injEq,
          exists_eq_left']
        cases g.add e <;> simp [Except.mapError]

theorem addLines_cons_eq_ok {n : Nat} {line : Line} {lines : List Line} :
    g.addLines n (line :: lines) = .ok g' ↔
      ∃ text g₁, line = some text ∧ g.addLine text = .ok g₁ ∧ g₁.addLines (n + 1) lines = .ok g' := by
  cases line with
  | none => simp [addLines]
  | some text =>
    rw [addLines]
    cases once : g.addLine text <;> simp [once]

theorem exists_addLine_of_addLines {n : Nat} {lines : List Line} (h : g.addLines n lines = .ok g')
    {line : Line} (hl : line ∈ lines) :
    ∃ text g₁ g₂, line = some text ∧ addLine g₁ text = .ok g₂ := by
  induction lines generalizing g n with
  | nil => cases hl
  | cons first rest ih =>
    obtain ⟨text, g₁, eq, once, later⟩ := addLines_cons_eq_ok.mp h
    rcases List.mem_cons.mp hl with rfl | hl
    · exact ⟨text, g, g₁, eq, once⟩
    · exact ih later hl

theorem exists_entries_of_addLines {n : Nat} {lines : List Line} (h : g.addLines n lines = .ok g') :
    ∃ es : List Entry, es.foldlM add g = .ok g' ∧ ∀ e ∈ es, ∃ text tokens,
      some text ∈ lines ∧ Token.split text = .ok tokens ∧ e.Within tokens := by
  induction lines generalizing g n with
  | nil =>
    cases h
    exact ⟨[], rfl, nofun⟩
  | cons line lines ih =>
    obtain ⟨text, g₁, rfl, once, later⟩ := addLines_cons_eq_ok.mp h
    obtain ⟨es, added, within⟩ := ih later
    have found : ∀ e ∈ es, ∃ t tokens, some t ∈ some text :: lines ∧
        Token.split t = .ok tokens ∧ e.Within tokens := by
      intro e he
      obtain ⟨t, tokens, ht, held⟩ := within e he
      exact ⟨t, tokens, List.mem_cons_of_mem _ ht, held⟩
    obtain ⟨tokens, split, ⟨-, rfl⟩ | ⟨e, read, first⟩⟩ := addLine_eq_ok.mp once
    · exact ⟨es, added, found⟩
    · refine ⟨e :: es, ?_, List.forall_mem_cons.mpr ⟨?_, found⟩⟩
      · exact foldlM_cons_eq_ok.mpr ⟨g₁, first, added⟩
      · exact ⟨text, tokens, List.mem_cons_self, split, Entry.within_ofTokens read⟩

theorem foldl_apply_of_foldlM {es : List Entry} (h : es.foldlM add g = .ok g') :
    (es.map Change.add).foldl apply g = g' := by
  induction es generalizing g with
  | nil =>
    cases h
    rfl
  | cons e es ih =>
    obtain ⟨g₁, once, later⟩ := foldlM_cons_eq_ok.mp h
    have applied : g.apply (.add e) = g₁ := by simp only [Graph.apply, once]
    rw [List.map_cons, List.foldl_cons, applied]
    exact ih later

/-- No definition has the word of an option as its name or its file. -/
def DefinesPlainly (g : Graph) : Prop :=
  ∀ node ∈ g.nodes, node.isExternal = false → ∀ t ∈ node.operands, t ∉ Entry.options

theorem DefinesPlainly.add (h : g.DefinesPlainly) {e : Entry}
    (operands : ∀ t ∈ e.operands, t ∉ Entry.options) (eq : g.add e = .ok g') :
    g'.DefinesPlainly := by
  intro node hn defined
  rcases mem_nodes_add eq hn with hn | brought
  · exact h node hn defined
  · cases e with
    | define name d =>
      cases brought
      exact operands
    | label l name => cases brought
    | mention name | edge _ name _ =>
      cases brought
      cases defined

theorem DefinesPlainly.foldlM_add {es : List Entry} (h : g.DefinesPlainly)
    (operands : ∀ e ∈ es, ∀ t ∈ e.operands, t ∉ Entry.options)
    (eq : es.foldlM Graph.add g = .ok g') : g'.DefinesPlainly := by
  induction es generalizing g with
  | nil =>
    cases eq
    exact h
  | cons e es ih =>
    obtain ⟨first, rest⟩ := List.forall_mem_cons.mp operands
    obtain ⟨g₁, once, later⟩ := foldlM_cons_eq_ok.mp eq
    exact ih (h.add first once) rest later

theorem DefinesPlainly.plain_iff (h : g.DefinesPlainly) :
    g.Plain ↔ ∀ node ∈ g.nodes, node.name ∉ Entry.options := by
  refine ⟨fun plain node hn => plain node hn _ List.mem_cons_self, fun names node hn => ?_⟩
  cases external : node.isExternal with
  | false => exact h node hn external
  | true =>
    -- an external node has no file
    have alone : node.operands = [node.name] := by
      rw [Node.isExternal, Option.isNone_iff_eq_none] at external
      rw [Node.operands, Node.file, external]
      rfl
    rw [alone]
    exact List.forall_mem_singleton.mpr (names node hn)

theorem DefinesPlainly.plain_of_reload (h : g.DefinesPlainly) (wellFormed : g.WellFormed)
    (texts : g.AllTexts OneLine) (read : ofDump (Lines.ofText g.dump) = .ok g') : g.Plain := by
  rw [ofText_dump wellFormed texts] at read
  refine h.plain_iff.mpr fun node hn option => ?_
  obtain ⟨name, definition⟩ := node
  cases definition with
  | some d => exact h _ hn rfl name List.mem_cons_self option
  | none =>
    have listed : Entry.mention name ∈ g.entries :=
      List.mem_append_left _ (List.mem_append_left _
        (List.mem_map.mpr ⟨_, Array.mem_toList_iff.mpr hn, rfl⟩))
    obtain ⟨text, g₁, g₂, eq, added⟩ :=
      exists_addLine_of_addLines read (List.mem_map.mpr ⟨_, listed, rfl⟩)
    cases eq
    obtain ⟨tokens, split, said⟩ := addLine_eq_ok.mp added
    rw [Entry.split_line] at split
    cases split
    obtain ⟨e, refused⟩ := Entry.ofTokens_mention_option option
    simp [refused] at said

variable {bytes : ByteArray} (h : ofDump (Lines.ofBytes bytes) = .ok g)

include h

theorem built_of_ofDump : g.Built := by
  obtain ⟨es, added, -⟩ := exists_entries_of_addLines h
  exact ⟨es.map Change.add, (foldl_apply_of_foldlM added).symm⟩

theorem allTexts_of_ofDump : g.AllTexts OneLine := by
  obtain ⟨es, added, within⟩ := exists_entries_of_addLines h
  rw [← foldl_apply_of_foldlM added]
  refine allTexts_ofHistory fun change hc t ht => ?_
  obtain ⟨e, he, rfl⟩ := List.mem_map.mp hc
  obtain ⟨text, tokens, hl, split, inside, -⟩ := within e he
  exact Token.newline_not_mem_of_split split (Lines.newline_not_mem_of_mem_ofBytes hl) t (inside t ht)

theorem definesPlainly_of_ofDump : g.DefinesPlainly := by
  obtain ⟨es, added, within⟩ := exists_entries_of_addLines h
  refine DefinesPlainly.foldlM_add (g := {}) (by simp [DefinesPlainly]) (fun e he => ?_) added
  obtain ⟨-, -, -, -, -, operands⟩ := within e he
  exact operands

end CallAtlas.Graph
