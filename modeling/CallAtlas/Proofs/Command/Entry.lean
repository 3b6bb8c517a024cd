import CallAtlas.Command.Parser
import CallAtlas.Proofs.Dump.Entry
/-!
The lines of a dump as commands. Words are followed one by one: what a word that is no option does to a
reading depends only on what the reading settles to. Main statement: `Entry.commandOfTokens_tokens`, the
tokens of an entry are its command if no text in it begins with a dash.
-/
namespace CallAtlas

/-- A text that no command takes for an option. -/
def Undashed (text : String) : Prop := text.toList.head? ≠ some '-'

theorem undashed_toString (n : UInt32) : Undashed (toString n) := by
  intro dash
  exact Decimal.not_mem_toList_repr (by decide) n.toNat (List.mem_of_head? dash)

theorem undashed_kind (kind : EdgeKind) : Undashed kind.text := by
  unfold Undashed
  cases kind <;> decide

namespace Reading

variable {u : Usage} {s : Reading} {as : Arguments} {ops : List Argument} {a : Argument}
  {text : String}

theorem words_of_undashed (h : Undashed text) (rest : List String) :
    words u s (text :: rest) = (s.plain text >>= fun s => words u s rest) := by
  rw [Undashed] at h
  have other : text ≠ "--" := by
    rintro rfl
    exact h (by decide)
  rw [words, if_neg other, word]
  split
  · rename_i eq
    exact absurd (congrArg List.head? eq) h
  · rename_i eq
    exact absurd (congrArg List.head? eq) h
  · rename_i eq
    exact absurd (congrArg List.head? eq) h
  · rfl

/-- The argument that was begun last has its value, and all arguments so far are good. -/
structure Settles (s : Reading) (as : Arguments) (ops : List Argument) : Prop where
  settle : s.settle = .ok { arguments := as, operands := ops }
  operands : s.operands = ops
  plain : ∀ text, s.plain text = s.operand text

theorem settles_start (u : Usage) : Settles { operands := u.operands } ∅ u.operands :=
  ⟨rfl, rfl, fun _ => rfl⟩

theorem settles_begun (fresh : (Arguments.has as a.name && !a.many) = false)
    (good : a.check text = .ok ()) :
    Settles { arguments := as, operands := ops, begun := some (a, some text) }
      (Arguments.add as a.name [text]) ops := by
  refine ⟨?_, rfl, fun _ => rfl⟩
  show putValue { arguments := as, operands := ops } a text = _
  rw [putValue, put, fresh, if_neg Bool.false_ne_true]
  simp [good, bind, Except.bind, pure, Except.pure]

theorem Settles.option {word : String} (h : s.Settles as ops) (dashes : word ≠ "--")
    (begins : Reading.word u s word = s.start a none)
    (fresh : (Arguments.has as a.name && !a.many) = false) (good : a.check text = .ok ())
    (plain : Undashed text) : ∃ s' : Reading, s'.Settles (Arguments.add as a.name [text]) ops ∧
      ∀ rest, words u s (word :: text :: rest) = words u s' rest := by
  refine ⟨_, settles_begun fresh good, fun rest => ?_⟩
  rw [words, if_neg dashes, begins, start, h.settle]
  exact words_of_undashed plain rest

theorem Settles.operand (h : s.Settles as (a :: ops))
    (fresh : (Arguments.has as a.name && !a.many) = false) (good : a.check text = .ok ())
    (plain : Undashed text) : ∃ s' : Reading,
      s'.Settles (Arguments.add as a.name [text]) (if a.many then a :: ops else ops) ∧
      ∀ rest, words u s (text :: rest) = words u s' rest := by
  refine ⟨_, settles_begun fresh good, fun rest => ?_⟩
  rw [words_of_undashed plain, h.plain, Reading.operand, h.operands]
  simp only [start, h.settle]
  rfl

end Reading

theorem Usage.read_of_words {u : Usage} {s : Reading} {as : Arguments} {ops : List Argument}
    {words : List String} (read : Reading.words u { operands := u.operands } words = .ok s)
    (h : s.Settles as ops) (complete : u.missing? as = none) : u.read words = .ok as := by
  simp [Usage.read, read, h.settle, complete, bind, Except.bind, pure, Except.pure]

namespace CommandForm

open Reading Arguments

theorem read_eq {form : CommandForm} {words : List String} {as : Arguments}
    (h : form.usage.read words = .ok as) : form.read words = .ok (form.build as) := by
  rw [read, h]

theorem read_mention {name : String} (h : Undashed name) :
    node.read ["--external", name] = .ok (.node true none none name none) := by
  have flag : Reading.words node.usage { operands := node.usage.operands } ["--external", name] =
      Reading.words node.usage
        { arguments := add ∅ "external" [], operands := node.usage.operands } [name] := rfl
  have start : Settles { arguments := add ∅ "external" [], operands := node.usage.operands }
      (add ∅ "external" []) node.usage.operands := ⟨rfl, rfl, fun _ => rfl⟩
  obtain ⟨s, settles, read⟩ := start.operand (u := node.usage) rfl rfl h
  rw [read_eq (Usage.read_of_words (flag.trans (read [])) settles rfl)]
  rfl

theorem read_label {l name : String} (hl : Undashed l) (hn : Undashed name) :
    label.read [l, name] = .ok (.label l [name]) := by
  obtain ⟨s, settles, first⟩ := (settles_start label.usage).operand (u := label.usage) rfl rfl hl
  obtain ⟨t, settles, second⟩ := settles.operand (u := label.usage) rfl rfl hn
  rw [read_eq (Usage.read_of_words ((first _).trans (second [])) settles rfl)]
  rfl

theorem read_edge {caller callee : String} (kind : EdgeKind) (h : Undashed caller)
    (h' : Undashed callee) :
    edge.read [caller, callee, kind.text] = .ok (.edge caller callee kind) := by
  obtain ⟨s, settles, first⟩ := (settles_start edge.usage).operand (u := edge.usage) rfl rfl h
  obtain ⟨t, settles, second⟩ := settles.operand (u := edge.usage) rfl rfl h'
  obtain ⟨v, settles, third⟩ := settles.operand (u := edge.usage) rfl
    (by cases kind <;> rfl) (undashed_kind kind)
  rw [read_eq (Usage.read_of_words ((first _).trans ((second _).trans (third []))) settles rfl)]
  cases kind <;> rfl

def optionArguments (d : Definition) : Arguments :=
  let as : Arguments := d.username.elim ∅ fun u => add ∅ "username" [u]
  d.line.elim as fun n => add as "line" [toString n]

theorem words_optionTokens {d : Definition} (hu : ∀ u ∈ d.username, Undashed u) :
    ∃ s : Reading, s.Settles (optionArguments d) node.usage.operands ∧ ∀ rest,
      Reading.words node.usage { operands := node.usage.operands } (Entry.optionTokens d ++ rest) =
        Reading.words node.usage s rest := by
  obtain ⟨username, file, line⟩ := d
  have named : ∃ s : Reading,
      s.Settles (username.elim ∅ fun u => add ∅ "username" [u]) node.usage.operands ∧ ∀ rest,
        Reading.words node.usage { operands := node.usage.operands }
          ((username.toList.flatMap fun u => ["--username", u]) ++ rest) =
            Reading.words node.usage s rest := by
    cases username with
    | none => exact ⟨_, settles_start node.usage, fun _ => rfl⟩
    | some u =>
      exact (settles_start node.usage).option (a := valueOption "username" .text) (by decide) rfl
        rfl rfl (hu u rfl)
  obtain ⟨s, settles, first⟩ := named
  cases line with
  | none =>
    refine ⟨s, settles, fun rest => ?_⟩
    rw [Entry.optionTokens, List.append_assoc]
    exact first rest
  | some n =>
    have good : (valueOption "line" .line).check (toString n) = .ok () := by
      show (if _ then _ else _) = _
      rw [Decimal.line?_toString]
      rfl
    have fresh : (has (username.elim ∅ fun u => add ∅ "username" [u]) "line" && !false) = false := by
      cases username <;> rfl
    obtain ⟨t, settles, second⟩ := settles.option (u := node.usage) (a := valueOption "line" .line)
      (by decide : "--line" ≠ "--") rfl fresh good (undashed_toString n)
    refine ⟨t, settles, fun rest => ?_⟩
    rw [Entry.optionTokens, List.append_assoc, first]
    exact second rest

def definitionArguments (name : String) (d : Definition) : Arguments :=
  let as := add (optionArguments d) "name" [name]
  d.file.elim as fun f => add as "file" [f]

theorem build_definitionArguments (name : String) (d : Definition) :
    node.build (definitionArguments name d) = .node false d.username d.line name d.file := by
  obtain ⟨username, file, line⟩ := d
  cases line with
  | none => cases username <;> cases file <;> rfl
  | some n =>
    have line : (some (toString n)).bind Decimal.line? = some n := Decimal.line?_toString n
    cases username <;> cases file <;> exact congrArg (Command.node false _ · name _) line

theorem read_define {name : String} {d : Definition} (hn : Undashed name)
    (hu : ∀ u ∈ d.username, Undashed u) (hf : ∀ f ∈ d.file, Undashed f) :
    node.read (Entry.optionTokens d ++ name :: d.file.toList) =
      .ok (.node false d.username d.line name d.file) := by
  have fresh : has (optionArguments d) "name" = false ∧
      has (add (optionArguments d) "name" [name]) "file" = false ∧
        node.usage.missing? (definitionArguments name d) = none := by
    obtain ⟨username, file, line⟩ := d
    cases username <;> cases line <;> cases file <;> exact ⟨rfl, rfl, rfl⟩
  obtain ⟨name?, file?, complete⟩ := fresh
  rw [← build_definitionArguments]
  obtain ⟨s, settles, options⟩ := words_optionTokens hu
  obtain ⟨t, settles, first⟩ := settles.operand (u := node.usage)
    (Bool.and_eq_false_iff.mpr (.inl name?)) rfl hn
  obtain ⟨username, file, line⟩ := d
  cases file with
  | none => exact read_eq (Usage.read_of_words ((options _).trans (first [])) settles complete)
  | some f =>
    obtain ⟨v, settles, second⟩ := settles.operand (u := node.usage)
      (Bool.and_eq_false_iff.mpr (.inl file?)) rfl (hf f rfl)
    exact read_eq (Usage.read_of_words ((options _).trans ((first _).trans (second []))) settles
      complete)

end CommandForm

namespace Entry

def command : Entry → Command
  | mention name => .node true none none name none
  | define name d => .node false d.username d.line name d.file
  | label l name => .label l [name]
  | edge caller callee kind => .edge caller callee kind

theorem commandOfTokens_tokens {e : Entry} (h : ∀ t ∈ e.texts, Undashed t) :
    Command.ofTokens e.tokens = .ok e.command := by
  cases e with
  | mention name => exact CommandForm.read_mention (h name List.mem_cons_self)
  | define name d =>
    refine CommandForm.read_define (h name List.mem_cons_self) (fun u hu => h u ?_) fun f hf => h f ?_
    · exact List.mem_cons_of_mem _ (List.mem_append_left _ (Option.mem_toList.mpr hu))
    · exact List.mem_cons_of_mem _ (List.mem_append_right _ (Option.mem_toList.mpr hf))
  | label l name =>
    exact CommandForm.read_label (h l List.mem_cons_self)
      (h name (List.mem_cons_of_mem _ List.mem_cons_self))
  | edge caller callee kind =>
    exact CommandForm.read_edge kind (h caller List.mem_cons_self)
      (h callee (List.mem_cons_of_mem _ List.mem_cons_self))

end Entry

end CallAtlas
