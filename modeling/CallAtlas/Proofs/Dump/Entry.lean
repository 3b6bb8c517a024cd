import CallAtlas.Dump.Entry
import CallAtlas.Proofs.Text.Token
/-!
Entries that are written and read. The words of the options of a node cannot be read as operands, so a
name of that spelling is lost. Main statements: `ofTokens_tokens`, every other entry is read back from its
tokens, and `within_ofTokens`, an entry that is read has only texts of its line, and no option as an operand.
-/
namespace CallAtlas.Entry

/-- The words that are options wherever they stand among the arguments of a node. -/
def options : List String := ["--external", "--username", "--line"]

def operands : Entry → List String
  | mention name => [name]
  | define name d => name :: d.file.toList
  | label _ _ | edge _ _ _ => []

def texts : Entry → List String
  | mention name => [name]
  | define name d => name :: (d.username.toList ++ d.file.toList)
  | label l name => [l, name]
  | edge caller callee _ => [caller, callee]

theorem nodeArgs_operand {arg : String} (h : arg ∉ options) (rest : List String) :
    nodeArgs (arg :: rest) =
      (nodeArgs rest).map fun args => { args with names := arg :: args.names } := by
  simp only [options, List.mem_cons, List.not_mem_nil, or_false, not_or] at h
  rw [nodeArgs.eq_def]
  dsimp only
  rw [if_neg h.1, if_neg h.2.1, if_neg h.2.2]
  cases nodeArgs rest <;> rfl

theorem nodeArgs_operands {names : List String} (h : ∀ t ∈ names, t ∉ options) :
    nodeArgs names = .ok { names } := by
  induction names with
  | nil => rfl
  | cons name names ih =>
    obtain ⟨first, rest⟩ := List.forall_mem_cons.mp h
    rw [nodeArgs_operand first, ih rest]
    rfl

theorem nodeArgs_username (value : String) (rest : List String) :
    nodeArgs ("--username" :: value :: rest) =
      (nodeArgs rest).map fun args => { args with username := args.username.or value } := by
  rw [nodeArgs, if_neg (by decide), if_pos rfl]
  cases nodeArgs rest <;> rfl

theorem nodeArgs_line (n : UInt32) (rest : List String) :
    nodeArgs ("--line" :: toString n :: rest) =
      (nodeArgs rest).map fun args => { args with line := args.line.or n } := by
  rw [nodeArgs, if_neg (by decide), if_neg (by decide), if_pos rfl]
  simp only [Decimal.uint32?_toString]
  cases nodeArgs rest <;> rfl

theorem nodeArgs_optionTokens (d : Definition) {names : List String}
    (h : ∀ t ∈ names, t ∉ options) : nodeArgs (optionTokens d ++ names) =
      .ok { username := d.username, line := d.line, names } := by
  obtain ⟨username, file, line⟩ := d
  have lines : nodeArgs ((line.toList.flatMap fun n => ["--line", toString n]) ++ names) =
      .ok { line, names } := by
    cases line with
    | none => exact nodeArgs_operands h
    | some n =>
      show nodeArgs ("--line" :: toString n :: names) = _
      rw [nodeArgs_line, nodeArgs_operands h]
      rfl
  rw [optionTokens, List.append_assoc]
  cases username with
  | none => exact lines
  | some u =>
    show nodeArgs ("--username" :: u ::
      ((line.toList.flatMap fun n => ["--line", toString n]) ++ names)) = _
    rw [nodeArgs_username, lines]
    rfl

theorem ofTokens_tokens {e : Entry} (h : ∀ t ∈ e.operands, t ∉ options) :
    ofTokens e.tokens = .ok (some e) := by
  cases e with
  | mention name =>
    have args : nodeArgs ["--external", name] = .ok { external := true, names := [name] } := by
      rw [nodeArgs, if_pos rfl, nodeArgs_operands (show ∀ t ∈ [name], t ∉ options from h)]
      rfl
    show ((nodeArgs ["--external", name] >>= ofNodeArgs).map some) = _
    rw [args]
    rfl
  | define name d =>
    show ((nodeArgs (optionTokens d ++ name :: d.file.toList) >>= ofNodeArgs).map some) = _
    rw [nodeArgs_optionTokens d (show ∀ t ∈ name :: d.file.toList, t ∉ options from h)]
    obtain ⟨username, file, line⟩ := d
    cases file <;> rfl
  | label l name => rfl
  | edge caller callee kind =>
    show (ofEdgeArgs [caller, callee, kind.text]).map some = _
    rw [ofEdgeArgs]
    simp only [EdgeKind.ofText?_text]
    rfl

/-- An external node with the name of an option is written, but its line is refused. -/
theorem ofTokens_mention_option {name : String} (h : name ∈ options) :
    ∃ e, ofTokens (mention name).tokens = .error e := by
  simp only [options, List.mem_cons, List.not_mem_nil, or_false] at h
  rcases h with rfl | rfl | rfl
  · exact ⟨.externalShape, rfl⟩
  · exact ⟨.missingValue "--username", rfl⟩
  · exact ⟨.missingValue "--line", rfl⟩

structure NodeArgs.Holds (args : NodeArgs) (words : List String) : Prop where
  names_subset : ∀ t ∈ args.names, t ∈ words ∧ t ∉ options
  username_mem : ∀ u ∈ args.username, u ∈ words

theorem NodeArgs.Holds.weaken {args : NodeArgs} {words more : List String} (h : args.Holds words)
    (sub : words ⊆ more) : args.Holds more :=
  ⟨fun t ht => ⟨sub (h.names_subset t ht).1, (h.names_subset t ht).2⟩,
    fun u hu => sub (h.username_mem u hu)⟩

theorem exists_of_bind_ok {ε α β : Type} {x : Except ε α} {f : α → β} {b : β}
    (h : (do return f (← x)) = Except.ok b) : ∃ a, x = .ok a ∧ f a = b := by
  cases x with
  | error e => cases h
  | ok a => exact ⟨a, rfl, Except.ok.inj h⟩

theorem holds_nodeArgs {words : List String} {args : NodeArgs} (h : nodeArgs words = .ok args) :
    args.Holds words := by
  fun_induction nodeArgs words generalizing args with
  | case1 =>
    cases h
    exact ⟨nofun, nofun⟩
  | case2 rest ih =>
    obtain ⟨inner, read, rfl⟩ := exists_of_bind_ok h
    have held := (ih read).weaken (List.subset_cons_self "--external" rest)
    exact ⟨held.names_subset, held.username_mem⟩
  | case3 => cases h
  | case4 value rest _ ih =>
    obtain ⟨inner, read, rfl⟩ := exists_of_bind_ok h
    have held := (ih read).weaken (show rest ⊆ "--username" :: value :: rest by simp)
    refine ⟨held.names_subset, fun u hu => ?_⟩
    rcases Option.or_eq_some_iff.mp hu with hu | ⟨-, ⟨⟩⟩
    · exact held.username_mem u hu
    · simp
  | case5 => cases h
  | case6 => cases h
  | case7 value rest _ _ n _ ih =>
    obtain ⟨inner, read, rfl⟩ := exists_of_bind_ok h
    have held := (ih read).weaken (show rest ⊆ "--line" :: value :: rest by simp)
    exact ⟨held.names_subset, held.username_mem⟩
  | case8 arg rest external username line ih =>
    obtain ⟨inner, read, rfl⟩ := exists_of_bind_ok h
    have held := (ih read).weaken (List.subset_cons_self arg rest)
    refine ⟨fun t ht => ?_, held.username_mem⟩
    rcases List.mem_cons.mp ht with rfl | ht
    · exact ⟨List.mem_cons_self, by simp [options, *]⟩
    · exact held.names_subset t ht

/-- The entry has only texts of a line, and none of its operands is an option. -/
def Within (e : Entry) (words : List String) : Prop :=
  (∀ t ∈ e.texts, t ∈ words) ∧ ∀ t ∈ e.operands, t ∉ options

theorem within_ofNodeArgs {args : NodeArgs} {words : List String} (held : args.Holds words)
    {e : Entry} (h : ofNodeArgs args = .ok e) : e.Within words := by
  obtain ⟨names, username⟩ := held
  unfold ofNodeArgs at h
  split at h
  · rename_i name _ eq
    cases h
    rw [eq] at names
    exact ⟨fun t ht => (names t ht).1, fun t ht => (names t ht).2⟩
  · cases h
  · rename_i name _ eq
    cases h
    rw [eq] at names
    refine ⟨fun t ht => ?_, fun t ht => (names t ht).2⟩
    rcases List.mem_cons.mp ht with rfl | ht
    · exact (names t List.mem_cons_self).1
    · rcases List.mem_append.mp ht with ht | ht
      · exact username t (Option.mem_toList.mp ht)
      · cases ht
  · rename_i name file _ eq
    cases h
    rw [eq] at names
    refine ⟨fun t ht => ?_, fun t ht => (names t ht).2⟩
    rcases List.mem_cons.mp ht with rfl | ht
    · exact (names t List.mem_cons_self).1
    · rcases List.mem_append.mp ht with ht | ht
      · exact username t (Option.mem_toList.mp ht)
      · exact (names t (List.mem_cons_of_mem _ ht)).1
  · cases h

theorem within_ofTokens {tokens : List String} {e : Entry} (h : ofTokens tokens = .ok (some e)) :
    e.Within tokens := by
  have longer {word : String} {words : List String} (held : e.Within words) :
      e.Within (word :: words) :=
    ⟨fun t ht => List.mem_cons_of_mem _ (held.1 t ht), held.2⟩
  have wrapped {x : Except EntryError Entry} (h : x.map some = .ok (some e)) : x = .ok e := by
    cases x with
    | error => cases h
    | ok => exact congrArg Except.ok (Option.some.inj (Except.ok.inj h))
  cases tokens with
  | nil => cases h
  | cons word words =>
    apply longer
    rw [ofTokens] at h
    split at h
    · have made := wrapped h
      cases read : nodeArgs words with
      | error => simp [read, bind, Except.bind] at made
      | ok args =>
        rw [read] at made
        exact within_ofNodeArgs (holds_nodeArgs read) made
    · split at h
      · have made := wrapped h
        unfold ofLabelArgs at made
        split at made
        · cases made
          exact ⟨fun t ht => ht, nofun⟩
        · cases made
      · split at h
        · have made := wrapped h
          unfold ofEdgeArgs at made
          split at made
          · split at made
            · cases made
              refine ⟨fun t ht => ?_, nofun⟩
              rcases List.mem_cons.mp ht with rfl | ht
              · exact List.mem_cons_self
              · rw [List.mem_singleton.mp ht]
                simp
            · cases made
          · cases made
        · cases h

theorem split_line (e : Entry) : Token.split e.line = .ok e.tokens := by
  rw [Token.split, line, Token.splitFrom_join]
  simp [Except.map, Function.comp_def]

def keywords : List String := ["node", "label", "edge", "call", "ref"] ++ options

theorem mem_tokens {e : Entry} {t : String} (h : t ∈ e.tokens) :
    t ∈ e.texts ∨ t ∈ keywords ∨ ∃ n : UInt32, t = toString n := by
  cases e with
  | mention name =>
    simp only [tokens, List.mem_cons, List.not_mem_nil, or_false] at h
    rcases h with rfl | rfl | rfl <;> simp [texts, keywords, options]
  | define name d =>
    obtain ⟨username, file, line⟩ := d
    simp only [tokens, optionTokens, List.mem_cons, List.mem_append, List.mem_flatMap,
      Option.mem_toList, List.not_mem_nil, or_false] at h
    rcases h with rfl | (⟨u, hu, rfl | rfl⟩ | ⟨n, hn, rfl | rfl⟩) | rfl | hf
    · simp [keywords]
    · simp [keywords, options]
    · exact .inl (by simp [texts, Option.mem_def.mp hu])
    · simp [keywords, options]
    · exact .inr (.inr ⟨n, rfl⟩)
    · simp [texts]
    · exact .inl (by simp [texts, Option.mem_def.mp hf])
  | label l name =>
    simp only [tokens, List.mem_cons, List.not_mem_nil, or_false] at h
    rcases h with rfl | rfl | rfl <;> simp [texts, keywords]
  | edge caller callee kind =>
    simp only [tokens, List.mem_cons, List.not_mem_nil, or_false] at h
    rcases h with rfl | rfl | rfl | rfl
    · simp [keywords]
    · simp [texts]
    · simp [texts]
    · cases kind <;> simp [keywords, EdgeKind.text]

theorem isLine_line {e : Entry} (h : ∀ t ∈ e.texts, '\n' ∉ t.toList) : Lines.IsLine e.line := by
  have fixed : ∀ word ∈ keywords, '\n' ∉ word.toList := by decide
  refine Token.isLine_join fun t ht => ?_
  rcases mem_tokens ht with ht | ht | ⟨n, rfl⟩
  · exact h t ht
  · exact fixed t ht
  · exact Decimal.not_mem_toList_repr (by decide) n.toNat

end CallAtlas.Entry
