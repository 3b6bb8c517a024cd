import CallAtlas.NameMap
/-!
A tree of files and directories, and the paths through it. A path goes through directories that are
there; a file can be written into any of them. Files are bounded, as positions in them are.
-/
namespace CallAtlas

/-- Names of nested directories and files, the innermost first. -/
abbrev Location : Type := List String

def Location.text (l : Location) : String := String.join (l.reverse.map ("/" ++ ·))

/-- A position in a file is a signed number of 64 bits, so no file is longer than the last one. -/
def maxFileSize : Nat := 9223372036854775807

theorem bounded_empty (name : String) (contents : ByteArray)
    (found : (∅ : NameMap ByteArray).get? name = some contents) : contents.size ≤ maxFileSize := by
  cases found

structure FileTree where
  /-- the directory where relative paths begin -/
  here : Location := []
  /-- contents by the texts of locations -/
  files : NameMap ByteArray := ∅
  directories : NameSet := ∅
  bounded : ∀ name contents, files.get? name = some contents → contents.size ≤ maxFileSize := by
    exact bounded_empty

namespace FileTree

instance : Inhabited FileTree := ⟨{}⟩

def isDirectory (t : FileTree) (l : Location) : Bool := l.isEmpty || l.text ∈ t.directories

/-- Names that are too long, or hold a null character, cannot be in a tree. -/
def isName (part : String) : Bool := part.utf8ByteSize ≤ 255 && !part.contains '\x00'

def enter (t : FileTree) (l : Location) (part : String) : Option Location :=
  if !t.isDirectory l then none
  else if part = "" ∨ part = "." then some l
  else if part = ".." then some l.tail
  else if isName part then some (part :: l)
  else none

def follow (t : FileTree) : Location → List String → Option Location
  | l, [] => some l
  | l, part :: rest => (t.enter l part).bind fun l => follow t l rest

def parts : List Char → List String
  | [] => [""]
  | c :: cs =>
    if c = '/' then "" :: parts cs
    else match parts cs with
      | [] => [c.toString]
      | part :: rest => (c.toString ++ part) :: rest

def locate? (t : FileTree) (path : String) : Option Location :=
  match path.toList with
  | [] => none
  | '/' :: cs => t.follow [] (parts cs)
  | cs => t.follow t.here (parts cs)

def read? (t : FileTree) (path : String) : Option ByteArray :=
  (t.locate? path).bind fun l => t.files.get? l.text

theorem bounded_put (t : FileTree) {name : String} {contents : ByteArray}
    (size : contents.size ≤ maxFileSize) (other : String) (found : ByteArray) :
    (t.files.put name contents).get? other = some found → found.size ≤ maxFileSize := by
  rw [NameMap.get?_put]
  split
  · rintro ⟨⟩
    exact size
  · exact t.bounded other found

/-- Put a file in the place of what was there, unless it would be too long. -/
def put? (t : FileTree) (l : Location) (contents : ByteArray) : Option FileTree :=
  if size : contents.size ≤ maxFileSize then
    some { t with files := t.files.put l.text contents, bounded := t.bounded_put size }
  else none

/-- Write a file; a directory stays. -/
def write? (t : FileTree) (path : String) (contents : ByteArray) : Option FileTree :=
  (t.locate? path).bind fun l => if t.isDirectory l then none else t.put? l contents

/-- Add a directory and all that it is in. -/
def addDirectory (t : FileTree) : Location → FileTree
  | [] => t
  | part :: l =>
    let t := t.addDirectory l
    { t with directories := NameSet.insert t.directories (Location.text (part :: l)) }

def addFile (t : FileTree) (l : Location) (contents : ByteArray) : FileTree :=
  let t := t.addDirectory l.tail
  (t.put? l contents).getD t

end FileTree

end CallAtlas
