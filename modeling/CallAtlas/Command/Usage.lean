import CallAtlas.Graph.Basic
import CallAtlas.NameMap
import CallAtlas.Text.Decimal
/-!
How a command is used: which options and operands it takes and what kind of value each of them has.
Arguments as they were given are kept as texts under the names of the options and operands.
-/
namespace CallAtlas

inductive ValueKind where
  | text
  | path
  /-- the number of a line of a file -/
  | line
  /-- how many there are, at least one -/
  | count
  | edgeKind
deriving DecidableEq, Repr

/-- A line number, which may be written with a sign. -/
def Decimal.line? (text : String) : Option UInt32 :=
  (int64? text).bind fun n => if 0 ≤ n ∧ n < 4294967296 then some n.toNat.toUInt32 else none

theorem Decimal.line?_toString (n : UInt32) : line? (toString n) = some n := by
  have lt := n.toNat_lt
  have unsigned : int64? (toString n) = some (n.toNat : Int) := by
    show int64? n.toNat.repr = _
    unfold int64?
    split
    · rename_i cs eq
      have signed : '-' ∈ n.toNat.repr.toList := by rw [eq]; exact List.mem_cons_self
      exact absurd signed (not_mem_toList_repr (by decide) n.toNat)
    · rw [nat?_repr (by omega)]
      rfl
  rw [line?, unsigned, Option.bind_some, if_pos (by omega)]
  simp

def Decimal.count? (text : String) : Option Nat := (nat? 18446744073709551616 text).filter (0 < ·)

/-- An option of a command, or one of its operands. -/
structure Argument where
  name : String
  /-- the letter that stands for an option -/
  short : Option Char := none
  /-- the kind of its value; an option without a value is a flag -/
  kind : Option ValueKind := none
  required : Bool := false
  /-- an operand that takes all words that are left -/
  many : Bool := false
deriving DecidableEq, Repr

inductive UsageError where
  | unknownArgument (word : String)
  /-- a value given to a flag -/
  | unneededValue (name : String)
  | repeated (name : String)
  | missingValue (name : String)
  | emptyPath (name : String)
  | badValue (name value : String)
  | missingArgument (name : String)
  | unknownCommand (word : String)
  | missingCommand
  /-- help was asked for; the usage of those commands is shown -/
  | help (summary : List String)
deriving DecidableEq, Repr

def UsageError.message : UsageError → String
  | unknownArgument word => "error: unexpected argument '" ++ word ++ "' found"
  | unneededValue name => "error: unexpected value for '" ++ name ++ "'"
  | repeated name => "error: the argument '" ++ name ++ "' cannot be used multiple times"
  | missingValue name => "error: a value is required for '" ++ name ++ "'"
  | emptyPath name => "error: the value for '" ++ name ++ "' may not be empty"
  | badValue name value => "error: invalid value '" ++ value ++ "' for '" ++ name ++ "'"
  | missingArgument name => "error: the argument '" ++ name ++ "' was not provided"
  | unknownCommand word => "error: unrecognized command '" ++ word ++ "'"
  | missingCommand => "error: a command is required"
  | help summary => "\n".intercalate summary

def Argument.check (a : Argument) (text : String) : Except UsageError Unit :=
  match a.kind with
  | none => .error (.unneededValue a.name)
  | some .text => .ok ()
  | some .path => if text.isEmpty then .error (.emptyPath a.name) else .ok ()
  | some .line => if (Decimal.line? text).isSome then .ok () else .error (.badValue a.name text)
  | some .count => if (Decimal.count? text).isSome then .ok () else .error (.badValue a.name text)
  | some .edgeKind =>
    if (EdgeKind.ofText? text).isSome then .ok () else .error (.badValue a.name text)

/-- The arguments of a command, by their names: the values in the order in which they were given. -/
abbrev Arguments : Type := NameMap (List String)

namespace Arguments

def has (as : Arguments) (name : String) : Bool := (NameMap.get? as name).isSome

def all (as : Arguments) (name : String) : List String := (NameMap.get? as name).getD []

def value? (as : Arguments) (name : String) : Option String := (all as name).head?

def value (as : Arguments) (name : String) : String := (value? as name).getD ""

def add (as : Arguments) (name : String) (values : List String) : Arguments :=
  NameMap.put as name (all as name ++ values)

end Arguments

structure Usage where
  options : List Argument := []
  operands : List Argument := []
deriving DecidableEq, Repr

namespace Usage

def helpOption : Argument := { name := "help", short := some 'h' }

def allOptions (u : Usage) : List Argument := u.options ++ [helpOption]

def long? (u : Usage) (name : String) : Option Argument := u.allOptions.find? (·.name == name)

def short? (u : Usage) (c : Char) : Option Argument := u.allOptions.find? (·.short == some c)

def optionSummary (a : Argument) : String :=
  if a.kind.isSome then " [--" ++ a.name ++ " VALUE]" else " [--" ++ a.name ++ "]"

def operandSummary (a : Argument) : String :=
  let word := a.name.toUpper ++ (if a.many then "..." else "")
  if a.required then " " ++ word else " [" ++ word ++ "]"

def summary (u : Usage) (word : String) : String :=
  word ++ String.join (u.options.map optionSummary) ++ String.join (u.operands.map operandSummary)

end Usage

end CallAtlas
