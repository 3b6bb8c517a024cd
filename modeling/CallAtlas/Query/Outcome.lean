import CallAtlas.Query.Error
import CallAtlas.Text.Space
import CallAtlas.Text.Word
/-!
Reading of queries. A reader takes a text from the front; what it leaves, and the place at which it
stops, are suffixes of the text by their types, so that readers that call each other come to an end
and every fault has a place in the text.
-/
namespace CallAtlas.Query

/-- What is left of `cs` when at least `k` characters are taken. -/
structure Rest (k : Nat) (cs : List Char) where
  chars : List Char
  suffix : chars <:+ cs
  taken : chars.length + k ≤ cs.length

namespace Rest

def all (cs : List Char) : Rest 0 cs := ⟨cs, cs.suffix_refl, Nat.le_refl _⟩

def tail (c : Char) (cs : List Char) : Rest 1 (c :: cs) :=
  ⟨cs, List.suffix_cons c cs, Nat.le_refl _⟩

def andThen {j k : Nat} {cs : List Char} (r : Rest j cs) (s : Rest k r.chars) :
    Rest (j + k) cs :=
  ⟨s.chars, s.suffix.trans r.suffix, by have := s.taken; have := r.taken; omega⟩

def weaken {j k : Nat} {cs : List Char} (r : Rest k cs) (h : j ≤ k) : Rest j cs :=
  ⟨r.chars, r.suffix, Nat.le_trans (Nat.add_le_add_left h _) r.taken⟩

theorem length_le {k : Nat} {cs : List Char} (r : Rest k cs) : r.chars.length ≤ cs.length :=
  r.suffix.length_le

theorem length_lt {k : Nat} {cs : List Char} (r : Rest (k + 1) cs) :
    r.chars.length < cs.length := by
  have := r.taken
  omega

end Rest

structure Stop (cs : List Char) where
  rest : Rest 0 cs
  fault : QueryFault

/-- A value read from the front of `cs`, by taking at least `k` characters. -/
abbrev Outcome (α : Type) (k : Nat) (cs : List Char) : Type := Except (Stop cs) (α × Rest k cs)

namespace Outcome

variable {α β : Type} {j k : Nat} {cs : List Char}

def map (f : α → β) (o : Outcome α k cs) : Outcome β k cs :=
  match o with
  | .error e => .error e
  | .ok (a, r) => .ok (f a, r)

/-- Go on reading after what was taken. -/
def after (r : Rest j cs) (o : Outcome α k r.chars) : Outcome α (j + k) cs :=
  match o with
  | .error e => .error ⟨(r.andThen e.rest).weaken (Nat.zero_le _), e.fault⟩
  | .ok (a, s) => .ok (a, r.andThen s)

def andThen (o : Outcome α j cs) (f : α → (r : Rest j cs) → Outcome β k r.chars) :
    Outcome β (j + k) cs :=
  match o with
  | .error e => .error e
  | .ok (a, r) => after r (f a r)

def weaken (o : Outcome α k cs) (h : j ≤ k) : Outcome α j cs :=
  match o with
  | .error e => .error e
  | .ok (a, r) => .ok (a, r.weaken h)

def expected (wanted : Wanted) (r : Rest j cs) : Outcome α k cs :=
  .error ⟨r.weaken (Nat.zero_le _), .expected wanted r.chars.head?⟩

end Outcome

def skipSpaces (cs : List Char) : Rest 0 cs :=
  ⟨cs.dropWhile Text.isSpace, List.dropWhile_suffix _, (List.dropWhile_suffix _).length_le⟩

def eat? (token cs : List Char) : Option (Rest token.length cs) :=
  if h : token <+: cs then
    some ⟨cs.drop token.length, List.drop_suffix _ _, by
      have := h.length_le
      rw [List.length_drop]
      omega⟩
  else none

def word? (cs : List Char) : Option (String × Rest 1 cs) :=
  if h : (cs.dropWhile Text.isWordChar).length < cs.length then
    some (String.ofList (cs.takeWhile Text.isWordChar),
      ⟨cs.dropWhile Text.isWordChar, List.dropWhile_suffix _, h⟩)
  else none

def run {α : Type} {k : Nat} (read : (cs : List Char) → Outcome α k cs) (text : String) :
    Except QueryError α :=
  match read text.toList with
  | .ok (a, _) => .ok a
  | .error e =>
    .error ⟨text.utf8ByteSize - (String.ofList e.rest.chars).utf8ByteSize, e.fault⟩

/-- Nothing but white space may be left. -/
def finish {α : Type} {k : Nat} {cs : List Char} (o : Outcome α k cs) : Outcome α k cs :=
  o.andThen fun a r =>
    let rest := skipSpaces r.chars
    if rest.chars.isEmpty then .ok (a, rest) else .expected .endOfInput rest

end CallAtlas.Query
