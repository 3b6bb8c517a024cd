import CallAtlas.Toml.Lexeme
/-!
Numbers and dates of TOML documents. Integers have 64 bits. Of floats and dates only the form counts.
-/
namespace CallAtlas.Toml.Number

def digit? (radix : Nat) (c : Char) : Option Nat :=
  (Lexeme.hexDigit? c).filter (· < radix)

/-- Digits with single low lines between them, and what follows. A leading zero stands alone, unless
zeros may lead. -/
def digitsFrom (radix : Nat) (zeros first zero line : Bool) :
    List Char → Option (List Nat × List Char)
  | [] => if first || line then none else some ([], [])
  | c :: cs =>
    if c = '0' ∧ first then
      (digitsFrom radix zeros false true line cs).map fun (ds, rest) => (0 :: ds, rest)
    else
      match digit? radix c with
      | some d =>
        if !first && zero && !zeros then none
        else (digitsFrom radix zeros false zero false cs).map fun (ds, rest) => (d :: ds, rest)
      | none =>
        if c = '_' ∧ first then none
        else if c = '_' ∧ !line then digitsFrom radix zeros false zero true cs
        else if first || line then none
        else some ([], c :: cs)

def digits (radix : Nat) (zeros : Bool) (cs : List Char) : Option (List Nat × List Char) :=
  digitsFrom radix zeros true false false cs

/-- Decimal digits after a sign, if there is one; whether the sign is a minus. -/
def signed (zeros : Bool) (cs : List Char) : Option (Bool × List Nat × List Char) :=
  match cs with
  | '-' :: cs => (digits 10 zeros cs).map (true, ·)
  | '+' :: cs => (digits 10 zeros cs).map (false, ·)
  | cs => (digits 10 zeros cs).map (false, ·)

def value (radix : Nat) (ds : List Nat) : Nat := ds.foldl (fun n d => radix * n + d) 0

def bounded (negative : Bool) (n : Nat) : Option Int :=
  if negative then (if n ≤ 9223372036854775808 then some (-(n : Int)) else none)
  else if n < 9223372036854775808 then some n else none

/-- An integer, in hexadecimal, octal, binary or decimal form. -/
def integer? (cs : List Char) : Option Int :=
  let unsigned (radix : Nat) (cs : List Char) : Option Int :=
    match digits radix true cs with
    | some (ds, []) => bounded false (value radix ds)
    | _ => none
  match cs with
  | '0' :: 'x' :: cs => unsigned 16 cs
  | '0' :: 'o' :: cs => unsigned 8 cs
  | '0' :: 'b' :: cs => unsigned 2 cs
  | cs =>
    match signed false cs with
    | some (negative, ds, []) => bounded negative (value 10 ds)
    | _ => none

/-- Whether a number, as digits and an exponent of ten, rounds to a finite float. -/
def isFinite (ds : List Nat) (exponent : Int) : Bool :=
  let n := value 10 ds
  if n = 0 then true
  else
    let high := exponent + (toString n).length
    if high ≤ 300 then true
    else if 310 < high then false
    else
      let bound := (1 <<< 1024) - (1 <<< 970)
      if 0 ≤ exponent then n * Nat.pow 10 exponent.toNat < bound
      else n < bound * Nat.pow 10 (-exponent).toNat

/-- The exponent of a float: the digits after its letter, or the next lexemes if there are none. -/
def exponent? (suffix : List Char) (ls : List Lexeme) : Option (Int × List Lexeme) :=
  match suffix with
  | [] =>
    let ls := match ls with
      | .plus :: ls => ls
      | ls => ls
    match ls with
    | .bare s :: ls =>
      match digits 10 true s.toList with
      | some (ds, []) => some (value 10 ds, ls)
      | _ => none
    | _ => none
  | cs =>
    match signed true cs with
    | some (negative, ds, []) =>
      some (if negative then -(value 10 ds : Int) else value 10 ds, ls)
    | _ => none

def float? (whole : List Char) (fraction : Option (List Char)) (ls : List Lexeme) :
    Option (List Lexeme) := do
  let (_, ds, rest) ← signed false whole
  let (fs, rest) ← match fraction with
    | none => some ([], rest)
    | some after => if rest.isEmpty then digits 10 true after else none
  let (e, ls) ← match rest with
    | [] => some (0, ls)
    | c :: suffix => if c = 'e' ∨ c = 'E' then exponent? suffix ls else none
  if isFinite (ds ++ fs) (e - fs.length) then some ls else none

/-- What follows a date or a time of day. A time may follow a date after one space, and fractions and
an offset may follow a time. -/
def afterDate (colon : Bool) (ls : List Lexeme) : Option (List Lexeme) :=
  let ls := match ls with
    | .blank " " :: .bare _ :: ls => ls
    | ls => ls
  let optional (mark : Lexeme) (ls : List Lexeme) : Option (List Lexeme) :=
    match ls with
    | l :: rest =>
      if l = mark then
        match rest with
        | .bare _ :: rest => some rest
        | _ => none
      else some ls
    | [] => some []
  let time (ls : List Lexeme) : Option (List Lexeme) :=
    match ls with
    | .bare _ :: .colon :: .bare _ :: ls => do
      let ls ← optional .period ls
      let ls ← optional .plus ls
      optional .colon ls
    | _ => none
  match colon, ls with
  | true, ls => time ls
  | false, .colon :: ls => time ls
  | false, ls => some ls

/-- Whether a word looks like a date: it has a letter for a time, or a hyphen inside that is no sign of
an exponent. -/
def isDate (cs : List Char) : Bool :=
  cs.contains 'T' || cs.contains 't' ||
    (cs.tail.contains '-' && !hasSignedExponent cs)
where
  hasSignedExponent : List Char → Bool
    | 'e' :: '-' :: _ => true
    | 'E' :: '-' :: _ => true
    | _ :: cs => hasSignedExponent cs
    | [] => false

end CallAtlas.Toml.Number
