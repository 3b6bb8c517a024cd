import CallAtlas.Command.Arguments
import CallAtlas.Command.Basic
/-!
Commands in the tokens of a line. The first token is the word of the command and the others are its
arguments.
-/
namespace CallAtlas

/-- A command: its word, its usage, and what its arguments make of it. -/
structure CommandForm where
  word : String
  usage : Usage
  build : Arguments → Command

namespace CommandForm

open Arguments (has all value value?)

def flagOption (name : String) : Argument := { name }

def valueOption (name : String) (kind : ValueKind) : Argument := { name, kind := some kind }

def required (name : String) (kind : ValueKind) : Argument :=
  { name, kind := some kind, required := true }

def optional (name : String) (kind : ValueKind) : Argument := { name, kind := some kind }

def manyWords (name : String) (required : Bool) : Argument :=
  { name, kind := some .text, required, many := true }

def scope (as : Arguments) : Scope := ⟨has as "include-external", has as "include-ref"⟩

def reach (as : Arguments) : Reach := ⟨has as "callers", has as "callees"⟩

def node : CommandForm where
  word := "node"
  usage :=
    { options := [flagOption "external", valueOption "username" .text, valueOption "line" .line]
      operands := [required "name" .text, optional "file" .text] }
  build as := .node (has as "external") (value? as "username")
    ((value? as "line").bind Decimal.line?) (value as "name") (value? as "file")

def edge : CommandForm where
  word := "edge"
  usage := { operands :=
    [required "caller" .text, required "callee" .text, optional "kind" .edgeKind] }
  build as := .edge (value as "caller") (value as "callee")
    (((value? as "kind").bind EdgeKind.ofText?).getD .call)

def label : CommandForm where
  word := "label"
  usage := { operands := [required "label" .text, manyWords "func" false] }
  build as := .label (value as "label") (all as "func")

def source : CommandForm where
  word := "source"
  usage := { operands := [required "file" .path] }
  build as := .source (value as "file")

def ofSelection (word : String) (command : Reach → List String → Command) : CommandForm where
  word
  usage :=
    { options := [flagOption "callers", flagOption "callees"]
      operands := [manyWords "func" true] }
  build as := command (reach as) (all as "func")

def reset : CommandForm where
  word := "reset"
  usage := { options := [flagOption "filters", flagOption "labels"] }
  build as := .reset (has as "filters") (has as "labels")

def callers : CommandForm where
  word := "callers"
  usage := { options := [flagOption "include-ref"], operands := [manyWords "func" true] }
  build as := .callers (has as "include-ref") (all as "func")

def callees : CommandForm where
  word := "callees"
  usage :=
    { options := [flagOption "include-external", flagOption "include-ref"]
      operands := [manyWords "func" true] }
  build as := .callees (scope as) (all as "func")

def labels : CommandForm where
  word := "labels"
  usage := { operands := [manyWords "func" true] }
  build as := .labels (all as "func")

def paths : CommandForm where
  word := "paths"
  usage :=
    { options := [flagOption "include-external", flagOption "include-ref",
        valueOption "limit" .count]
      operands := [manyWords "expr" true] }
  build as := .paths (scope as) ((value? as "limit").bind Decimal.count?) (all as "expr")

def stats : CommandForm where
  word := "stats"
  usage := { options := [flagOption "json"] }
  build as := .stats (has as "json")

def save : CommandForm where
  word := "save"
  usage := { operands := [optional "file" .path] }
  build as := .save (value? as "file")

def output : CommandForm where
  word := "output"
  usage :=
    { options := [flagOption "files", flagOption "include-external", flagOption "include-ref"]
      operands := [optional "file" .path] }
  build as := .output ⟨has as "files", scope as⟩ (value? as "file")

def forms : List CommandForm :=
  [node, edge, label, source, ofSelection "omit" .hide, ofSelection "keep" .keep,
    ofSelection "only" .only, reset, callers, callees, labels, paths, stats, save, output]

def named? (word : String) : Option CommandForm := forms.find? (·.word == word)

/-- The usage of every command. The texts are stand-ins: the argument library's own help is longer and worded
otherwise, as are its errors. -/
def summaries : List String := forms.map fun form => form.usage.summary form.word

def read (form : CommandForm) (words : List String) : Except UsageError Command :=
  match form.usage.read words with
  | .error (.help _) => .error (.help [form.usage.summary form.word])
  | .error e => .error e
  | .ok as => .ok (form.build as)

end CommandForm

namespace Command

open CommandForm (named? summaries)

/-- What is said when help on those words is asked for. -/
def helpOn : List String → UsageError
  | [] | ["help"] => .help summaries
  | [word] =>
    match named? word with
    | some form => .help [form.usage.summary form.word]
    | none => .unknownCommand word
  | first :: second :: _ =>
    if first = "help" ∨ (named? first).isSome then .unknownCommand second
    else .unknownCommand first

/-- What is wrong with options where a command is expected. -/
def optionFault (text : String) (cs : List Char) : UsageError :=
  if text = "--help" ∨ cs.head? = some 'h' then .help summaries
  else if cs.take 6 = ['-', 'h', 'e', 'l', 'p', '='] then .unneededValue "help"
  else .unknownArgument text

def ofTokens : List String → Except UsageError Command
  | [] => .error .missingCommand
  | ["--"] => .error .missingCommand
  | "--" :: word :: _ =>
    .error (if word = "help" ∨ (named? word).isSome then .unknownArgument word
      else .unknownCommand word)
  | "help" :: words => .error (helpOn words)
  | word :: words =>
    match named? word, word.toList with
    | some form, _ => form.read words
    | none, '-' :: c :: cs => .error (optionFault word (c :: cs))
    | none, _ => .error (.unknownCommand word)

end Command

end CallAtlas
