import CallAtlas.Command.Usage
/-!
The arguments in the words of a command. Words that begin with a dash are options, up to a word of two
dashes alone, and the others are values of options or operands. A value is looked at once the next
argument begins, so an option that is not known is found before a value that is not good.
-/
namespace CallAtlas

/-- Words that are being read: the arguments so far, the operands that are left, and the argument that
was begun last, with its value if it has one yet. -/
structure Reading where
  arguments : Arguments := ∅
  operands : List Argument := []
  begun : Option (Argument × Option String) := none

namespace Reading

/-- Add an argument that may stand only once, unless it takes many values. -/
def put (r : Reading) (a : Argument) (values : List String) : Except UsageError Reading :=
  if Arguments.has r.arguments a.name && !a.many then .error (.repeated a.name)
  else .ok { r with arguments := Arguments.add r.arguments a.name values }

def putValue (r : Reading) (a : Argument) (value : String) : Except UsageError Reading := do
  let r ← r.put a [value]
  a.check value
  return r

def settle (r : Reading) : Except UsageError Reading :=
  match r.begun with
  | none => .ok r
  | some (a, none) => .error (.missingValue a.name)
  | some (a, some value) => { r with begun := none }.putValue a value

def start (r : Reading) (a : Argument) (value : Option String) : Except UsageError Reading := do
  return { ← r.settle with begun := some (a, value) }

/-- A flag; asking for help ends the reading. -/
def flag (r : Reading) (a : Argument) : Except UsageError Reading := do
  let r ← r.settle
  if a = Usage.helpOption then throw (.help []) else r.put a []

def long (u : Usage) (r : Reading) (name : String) (value : Option String) :
    Except UsageError Reading :=
  match u.long? name, value with
  | none, _ => .error (.unknownArgument ("--" ++ name))
  | some a, none => if a.kind.isSome then r.start a none else r.flag a
  | some a, some value =>
    if a.kind.isSome then do (← r.settle).putValue a value else .error (.unneededValue name)

/-- What follows the letter of an option in its word, without an equals sign in front. -/
def attached : List Char → List Char
  | '=' :: cs => cs
  | cs => cs

/-- Options by their letters; an option that takes a value takes the rest of the word. -/
def letters (u : Usage) (r : Reading) : List Char → Except UsageError Reading
  | [] => .ok r
  | c :: cs =>
    match u.short? c with
    | none => .error (.unknownArgument (String.ofList ['-', c]))
    | some a =>
      if a.kind.isSome then
        if cs.isEmpty then r.start a none
        else do (← r.settle).putValue a (String.ofList (attached cs))
      else do letters u (← r.flag a) cs

def operand (r : Reading) (word : String) : Except UsageError Reading :=
  match r.operands with
  | [] => .error (.unknownArgument word)
  | a :: rest => do
    let r ← r.start a (some word)
    return { r with operands := if a.many then a :: rest else rest }

/-- A word that is no option: the value that is missing, or an operand. -/
def plain (r : Reading) (word : String) : Except UsageError Reading :=
  match r.begun with
  | some (a, none) => .ok { r with begun := some (a, some word) }
  | _ => r.operand word

def splitLong (cs : List Char) : String × Option String :=
  (String.ofList (cs.takeWhile (· != '=')),
    match cs.dropWhile (· != '=') with
    | [] => none
    | _ :: value => some (String.ofList value))

def word (u : Usage) (r : Reading) (text : String) : Except UsageError Reading :=
  match text.toList with
  | '-' :: '-' :: cs => long u r (splitLong cs).1 (splitLong cs).2
  | ['-'] => r.plain text
  | '-' :: cs => letters u r cs
  | _ => r.plain text

/-- Words that are operands, whatever they begin with. -/
def operandWords (r : Reading) : List String → Except UsageError Reading
  | [] => .ok r
  | text :: rest => do operandWords (← r.operand text) rest

def words (u : Usage) (r : Reading) : List String → Except UsageError Reading
  | [] => .ok r
  | text :: rest =>
    if text = "--" then r.operandWords rest else do words u (← word u r text) rest

end Reading

namespace Usage

def missing? (u : Usage) (as : Arguments) : Option Argument :=
  u.operands.find? fun a => a.required && !Arguments.has as a.name

def read (u : Usage) (words : List String) : Except UsageError Arguments := do
  let r ← Reading.words u { operands := u.operands } words
  let r ← r.settle
  match u.missing? r.arguments with
  | some a => throw (.missingArgument a.name)
  | none => return r.arguments

end Usage

end CallAtlas
