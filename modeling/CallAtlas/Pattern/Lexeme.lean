import CallAtlas.Pattern.Tree
/-!
Lexemes of patterns. What the next lexeme is depends on a little of what came before: how many classes
are open, and whether blanks and comments are left out. Main statement: `length_of_char?`, by which
readers that go from one character to the next come to an end.
-/
namespace CallAtlas.Pattern

inductive Lexeme where
  | part (t : Tree)
  | switch (s : Switch)
  | openGroup (s : Switch)
  | closeGroup
  | bar
  | times (least : Nat) (most : Option Nat)
  | openClass (negated : Bool) (leading : List Literal)
  | item (s : CharSet)
  | operator (op : SetOp)
  | closeClass
deriving Repr

/-- What earlier lexemes decide about the next one. -/
structure Reader where
  /-- blanks and comments are left out -/
  extended : Bool := false
  /-- the same, outside each of the open groups -/
  outer : List Bool := []
  /-- how many classes are open -/
  classes : Nat := 0
  groupNames : List (List Char) := []
deriving Inhabited

def skipBlanks (comment : Bool) : List Char → List Char
  | [] => []
  | c :: cs =>
    if comment then skipBlanks (c != '\n') cs
    else if Text.isSpace c then skipBlanks false cs
    else if c == '#' then skipBlanks true cs
    else c :: cs

theorem length_skipBlanks_le (comment : Bool) (cs : List Char) :
    (skipBlanks comment cs).length ≤ cs.length := by
  induction cs generalizing comment with
  | nil => simp [skipBlanks]
  | cons c cs ih =>
    unfold skipBlanks
    split
    · exact Nat.le_succ_of_le (ih _)
    · split
      · exact Nat.le_succ_of_le (ih _)
      · split
        · exact Nat.le_succ_of_le (ih _)
        · exact Nat.le_refl _

namespace Reader

/-- What is left after the blanks that do not count. -/
def skip (r : Reader) (cs : List Char) : List Char :=
  if r.extended then skipBlanks false cs else cs

def char? (r : Reader) (cs : List Char) : Option (Char × List Char) :=
  match r.skip cs with
  | [] => none
  | c :: rest => some (c, rest)

theorem length_of_char? {r : Reader} {cs rest : List Char} {c : Char}
    (h : r.char? cs = some (c, rest)) : rest.length < cs.length := by
  have le : (r.skip cs).length ≤ cs.length := by
    unfold skip
    split
    · exact length_skipBlanks_le ..
    · exact Nat.le_refl _
  unfold char? at h
  split at h
  · cases h
  · rename_i eq
    cases h
    rw [eq] at le
    exact le

def hexValue? (c : Char) : Option Nat :=
  if c.isDigit then some (c.toNat - '0'.toNat)
  else if 'a' ≤ c && c ≤ 'f' then some (c.toNat - 'a'.toNat + 10)
  else if 'A' ≤ c && c ≤ 'F' then some (c.toNat - 'A'.toNat + 10)
  else none

def hexFixed (r : Reader) (value : Nat) : Nat → List Char → Except PatternError (Nat × List Char)
  | 0, cs => .ok (value, cs)
  | n + 1, cs =>
    match r.char? cs with
    | none => .error .badEscape
    | some (c, rest) =>
      match hexValue? c with
      | none => .error .badEscape
      | some d => hexFixed r (16 * value + d) n rest

def braced (r : Reader) (cs : List Char) : Except PatternError (List Char × List Char) :=
  match _h : r.char? cs with
  | none => .error .badEscape
  | some (c, rest) =>
    if c == '\x7d' then .ok ([], rest)
    else (braced r rest).map fun (name, rest) => (c :: name, rest)
termination_by cs.length
decreasing_by exact length_of_char? _h

def hexValue (digits : List Char) : Except PatternError Nat :=
  match digits.mapM hexValue? with
  | none => .error .badEscape
  | some [] => .error .badEscape
  | some ds => .ok (ds.foldl (fun n d => 16 * n + d) 0)

def charOf (n : Nat) : Except PatternError Char :=
  if n.isValidChar then .ok (Char.ofNat n) else .error .badCodePoint

/-- A code point, in braces or of so many digits. Two digits make a byte. -/
def codePoint (r : Reader) (digits : Nat) (cs : List Char) :
    Except PatternError (Literal × List Char) :=
  match r.char? cs with
  | some ('\x7b', rest) => do
    let (ds, rest) ← r.braced rest
    return (⟨← charOf (← hexValue ds), false⟩, rest)
  | _ => do
    let (n, rest) ← r.hexFixed 0 digits cs
    return (⟨← charOf n, digits == 2⟩, rest)

def digits (r : Reader) (cs : List Char) : List Char × List Char :=
  match _h : r.char? cs with
  | none => ([], [])
  | some (c, rest) =>
    if c.isDigit then
      let (ds, rest) := digits r rest
      (c :: ds, rest)
    else ([], c :: rest)
termination_by cs.length
decreasing_by exact length_of_char? _h

/-- A count of a repetition, which may have blanks around it. -/
def count (r : Reader) (cs : List Char) : Except PatternError (Nat × List Char) :=
  let (ds, rest) := r.digits (cs.dropWhile Text.isSpace)
  match ds with
  | [] => .error .badCount
  | _ =>
    let n := ds.foldl (fun n c => 10 * n + (c.toNat - '0'.toNat)) 0
    if n < 4294967296 then .ok (n, r.skip (rest.dropWhile Text.isSpace)) else .error .badCount

/-- A repetition is lazy when a question mark follows. -/
def dropLazy : List Char → List Char
  | '?' :: cs => cs
  | cs => cs

def counts (r : Reader) (cs : List Char) : Except PatternError (Lexeme × List Char) := do
  let (least, rest) ← r.count (r.skip cs)
  match rest with
  | '\x7d' :: rest => return (.times least (some least), dropLazy (r.skip rest))
  | ',' :: rest =>
    match r.skip rest with
    | '\x7d' :: rest => return (.times least none, dropLazy (r.skip rest))
    | rest =>
      let (most, rest) ← r.count rest
      match rest with
      | '\x7d' :: rest =>
        if least ≤ most then return (.times least (some most), dropLazy (r.skip rest))
        else .error .badCount
      | _ => .error .badCount
  | _ => .error .badCount

/-- What a backslash and what follows it stand for. -/
inductive Escape where
  | literal (l : Literal)
  | anchor (a : Anchor)
  | set (s : CharSet)

def Escape.tree : Escape → Tree
  | literal l => .literal l
  | anchor a => .anchor a
  | set s => .set s

/-- Characters that mean something in a pattern unless a backslash stands before them. -/
def isMeta (c : Char) : Bool := "\\.+*?()|[]\x7b\x7d^$#&-~".toList.contains c

/-- The name of a property, split where it gives a value; the flag tells whether it is negated. -/
def property? (name : List Char) : Option (Bool × Property) :=
  let (before, after) := (name.takeWhile (· != ':'), name.dropWhile (· != ':'))
  match splitUnequal name, after with
  | some (key, value), _ => (Property.ofValue? key value).map (true, ·)
  | none, _ :: value => (Property.ofValue? before value).map (false, ·)
  | none, [] =>
    match name.dropWhile (· != '=') with
    | _ :: value => (Property.ofValue? (name.takeWhile (· != '=')) value).map (false, ·)
    | [] => (Property.ofName? name).map (false, ·)
where
  splitUnequal : List Char → Option (List Char × List Char)
    | '!' :: '=' :: cs => some ([], cs)
    | c :: cs => (splitUnequal cs).map fun (key, value) => (c :: key, value)
    | [] => none

def property (r : Reader) (negated : Bool) (cs : List Char) :
    Except PatternError (Escape × List Char) := do
  let (name, rest) ← match r.char? cs with
    | none => .error .badEscape
    | some ('\\', _) => .error .badEscape
    | some ('\x7b', rest) => r.braced rest
    | some (c, rest) => .ok ([c], rest)
  match property? name with
  | some (unequal, p) => return (.set (.property (negated != unequal) p), rest)
  | none => .error .unknownProperty

/-- Kinds of word edges, by the names in braces. A brace that begins no name begins counts. -/
def wordEdge (r : Reader) (cs : List Char) : Except PatternError (Escape × List Char) :=
  let isNameChar (c : Char) : Bool := c.isAlpha || c == '-'
  match cs with
  | '\x7b' :: rest =>
    match r.char? rest with
    | none => .error .badEscape
    | some (c, _) =>
      if !isNameChar c then .ok (.anchor .wordEdge, cs)
      else do
        let (name, rest) ← r.braced rest
        match String.ofList name with
        | "start" => return (.anchor .wordStart, rest)
        | "end" => return (.anchor .wordEnd, rest)
        | "start-half" => return (.anchor .wordStartHalf, rest)
        | "end-half" => return (.anchor .wordEndHalf, rest)
        | _ => .error .badEscape
  | _ => .ok (.anchor .wordEdge, cs)

def escape (r : Reader) : List Char → Except PatternError (Escape × List Char)
  | [] => .error .badEscape
  | c :: cs =>
    match c with
    | 'x' => (r.codePoint 2 cs).map fun (l, rest) => (.literal l, rest)
    | 'u' => (r.codePoint 4 cs).map fun (l, rest) => (.literal l, rest)
    | 'U' => (r.codePoint 8 cs).map fun (l, rest) => (.literal l, rest)
    | 'p' => r.property false cs
    | 'P' => r.property true cs
    | 'd' => .ok (.set (.shorthand false .digit), cs)
    | 'D' => .ok (.set (.shorthand true .digit), cs)
    | 's' => .ok (.set (.shorthand false .space), cs)
    | 'S' => .ok (.set (.shorthand true .space), cs)
    | 'w' => .ok (.set (.shorthand false .word), cs)
    | 'W' => .ok (.set (.shorthand true .word), cs)
    | 'a' => .ok (.literal ⟨'\x07', false⟩, cs)
    | 'f' => .ok (.literal ⟨'\x0c', false⟩, cs)
    | 't' => .ok (.literal ⟨'\t', false⟩, cs)
    | 'n' => .ok (.literal ⟨'\n', false⟩, cs)
    | 'r' => .ok (.literal ⟨'\r', false⟩, cs)
    | 'v' => .ok (.literal ⟨'\x0b', false⟩, cs)
    | 'A' => .ok (.anchor .textStart, cs)
    | 'z' => .ok (.anchor .textEnd, cs)
    | 'b' => r.wordEdge cs
    | 'B' => .ok (.anchor .noWordEdge, cs)
    | '<' => .ok (.anchor .wordStart, cs)
    | '>' => .ok (.anchor .wordEnd, cs)
    | _ =>
      if isMeta c || (c.toNat < 128 && !c.isAlphanum) then .ok (.literal ⟨c, false⟩, cs)
      else .error .badEscape

/-- Flags up to the end of their list, and the character that ends it. -/
def flags (s : Switch) (off dangling : Bool) :
    List Char → Except PatternError (Switch × Char × List Char)
  | [] => .error .badFlags
  | c :: cs =>
    if c == ':' || c == ')' then
      if dangling then .error .badFlags else .ok (s, c, cs)
    else if c == '-' then
      if off then .error .badFlags else flags s true true cs
    else
      match Flag.ofChar? c with
      | none => .error .badFlags
      | some f => if s.mentions f then .error .badFlags else flags (s.add off f) off false cs

def isGroupNameStart (c : Char) : Bool := c == '_' || Text.isAlphabetic c

def isGroupNameChar (c : Char) : Bool :=
  c == '_' || c == '.' || c == '[' || c == ']' || Text.isAlphanumeric c

def enter (r : Reader) (s : Switch) : Reader :=
  { r with extended := s.apply .extended r.extended, outer := r.extended :: r.outer }

def leave (r : Reader) : Reader :=
  match r.outer with
  | [] => r
  | extended :: outer => { r with extended, outer }

/-- A group with a name, after the angle bracket that opens the name. -/
def namedGroup (r : Reader) (cs : List Char) :
    Except PatternError (Lexeme × Reader × List Char) :=
  let name := cs.takeWhile (· != '>')
  match name, cs.dropWhile (· != '>') with
  | first :: others, _ :: rest =>
    if isGroupNameStart first && others.all isGroupNameChar then
      if r.groupNames.contains name then .error .repeatedGroupName
      else .ok (.openGroup {}, { r.enter {} with groupNames := name :: r.groupNames }, rest)
    else .error .badGroupName
  | _, _ => .error .badGroupName

/-- What an opening parenthesis opens: a group, or a list of flags. -/
def group (r : Reader) (cs : List Char) : Except PatternError (Lexeme × Reader × List Char) :=
  match r.skip cs with
  | '?' :: '=' :: _ => .error .lookAround
  | '?' :: '!' :: _ => .error .lookAround
  | '?' :: '<' :: '=' :: _ => .error .lookAround
  | '?' :: '<' :: '!' :: _ => .error .lookAround
  | '?' :: 'P' :: '<' :: rest => r.namedGroup rest
  | '?' :: '<' :: rest => r.namedGroup rest
  | '?' :: rest => do
    let (s, stop, rest) ← flags {} false false rest
    if stop == ':' then return (.openGroup s, r.enter s, rest)
    else if s.isEmpty then .error .nothingToRepeat
    else return (.switch s, { r with extended := s.apply .extended r.extended }, rest)
  | rest => .ok (.openGroup {}, r.enter {}, rest)

/-- The hyphens, or the closing bracket, that stand for themselves at the start of a class. -/
def leading (r : Reader) (cs : List Char) : List Literal × List Char :=
  match _h : r.char? cs with
  | some ('-', rest) =>
    let (ls, rest) := leading r rest
    (⟨'-', false⟩ :: ls, rest)
  | _ => ([], r.skip cs)
termination_by cs.length
decreasing_by exact length_of_char? _h

def openClass (r : Reader) (cs : List Char) : Lexeme × Reader × List Char :=
  let r' := { r with classes := r.classes + 1 }
  let (negated, rest) := match r.skip cs with
    | '^' :: rest => (true, rest)
    | rest => (false, rest)
  match r.leading rest with
  | ([], ']' :: rest) => (.openClass negated [⟨']', false⟩], r', rest)
  | (ls, rest) => (.openClass negated ls, r', rest)

def posix? : List Char → Option (CharSet × List Char)
  | ':' :: cs =>
    let (negated, cs) := match cs with
      | '^' :: cs => (true, cs)
      | cs => (false, cs)
    match cs.dropWhile (· != ':') with
    | ':' :: ']' :: rest =>
      (Posix.ofName? (String.ofList (cs.takeWhile (· != ':')))).map fun p =>
        (.posix negated p, rest)
    | _ => none
  | _ => none

def classAtom (r : Reader) : List Char → Except PatternError (Escape × List Char)
  | [] => .error .unclosedClass
  | '\\' :: cs => r.escape cs
  | c :: cs => .ok (.literal ⟨c, false⟩, cs)

/-- The character after a hyphen that decides whether the hyphen makes a range. Of a comment only the
first number sign is passed over. -/
def afterHyphen (r : Reader) (cs : List Char) : Option Char :=
  if r.extended then
    let rest := match cs.dropWhile Text.isSpace with
      | '#' :: rest => rest.dropWhile Text.isSpace
      | rest => rest
    rest.head?.or cs.head?
  else cs.head?

def classItem (r : Reader) (cs : List Char) : Except PatternError (Lexeme × List Char) := do
  let (first, rest) ← r.classAtom cs
  let alone : Except PatternError (Lexeme × List Char) := match first with
    | .literal l => .ok (.item (.literal l), rest)
    | .set s => .ok (.item s, rest)
    | .anchor _ => .error .notInClass
  match r.skip rest with
  | [] => .error .unclosedClass
  | '-' :: after =>
    if r.afterHyphen after == some ']' || r.afterHyphen after == some '-' then alone
    else
      let (last, rest) ← r.classAtom (r.skip after)
      match first, last with
      | .literal a, .literal b =>
        if a.char ≤ b.char then return (.item (.range a b), rest) else .error .badRange
      | _, _ => .error .badRange
  | _ => alone

def inClass (r : Reader) (cs : List Char) : Except PatternError (Lexeme × Reader × List Char) :=
  match cs with
  | '[' :: rest =>
    match posix? rest with
    | some (s, rest) => .ok (.item s, r, rest)
    | none => .ok (r.openClass rest)
  | ']' :: rest => .ok (.closeClass, { r with classes := r.classes - 1 }, rest)
  | '&' :: '&' :: rest => .ok (.operator .intersection, r, rest)
  | '-' :: '-' :: rest => .ok (.operator .difference, r, rest)
  | '~' :: '~' :: rest => .ok (.operator .symmetricDifference, r, rest)
  | _ => (r.classItem cs).map fun (l, rest) => (l, r, rest)

def outsideClass (r : Reader) (c : Char) (cs : List Char) :
    Except PatternError (Lexeme × Reader × List Char) :=
  match c with
  | '(' => r.group cs
  | ')' => .ok (.closeGroup, r.leave, cs)
  | '|' => .ok (.bar, r, cs)
  | '[' => .ok (r.openClass cs)
  | '?' => .ok (.times 0 (some 1), r, dropLazy cs)
  | '*' => .ok (.times 0 none, r, dropLazy cs)
  | '+' => .ok (.times 1 none, r, dropLazy cs)
  | '\x7b' => (r.counts cs).map fun (l, rest) => (l, r, rest)
  | '\\' => (r.escape cs).map fun (e, rest) => (.part e.tree, r, rest)
  | '.' => .ok (.part .dot, r, cs)
  | '^' => .ok (.part (.anchor .lineStart), r, cs)
  | '$' => .ok (.part (.anchor .lineEnd), r, cs)
  | c => .ok (.part (.literal ⟨c, false⟩), r, cs)

def next (r : Reader) (cs : List Char) :
    Except PatternError (Option (Lexeme × Reader × List Char)) :=
  match r.skip cs with
  | [] => .ok none
  | c :: rest =>
    (if r.classes = 0 then r.outsideClass c rest else r.inClass (c :: rest)).map some

end Reader

/-- All lexemes of a pattern. A lexeme takes at least one character. -/
def lexemes (r : Reader) (cs : List Char) : Except PatternError (List Lexeme) :=
  match r.next cs with
  | .error e => .error e
  | .ok none => .ok []
  | .ok (some (l, r, rest)) =>
    if _h : rest.length < cs.length then (lexemes r rest).map (l :: ·) else .ok [l]
termination_by cs.length

end CallAtlas.Pattern
