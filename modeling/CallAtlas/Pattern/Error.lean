/-!
Why a text is no pattern.
-/
namespace CallAtlas

inductive PatternError where
  | unclosedGroup
  | unopenedGroup
  | unclosedClass
  | nothingToRepeat
  | badCount
  | badEscape
  | badCodePoint
  | badFlags
  | badGroupName
  | repeatedGroupName
  | lookAround
  | badRange
  | notInClass
  | unknownProperty
  /-- without the Unicode flag a part would match something that is not text -/
  | notText
  | tooDeep
  /-- with its repetitions written out -/
  | tooLarge
deriving DecidableEq, Repr

def PatternError.message (e : PatternError) : String :=
  match e with
    | tooLarge => "Compiled regex exceeds size limit of 10485760 bytes."
    | e => "regex parse error: " ++ reason e
where
  reason : PatternError → String
    | unclosedGroup => "unclosed group"
    | unopenedGroup => "unopened group"
    | unclosedClass => "unclosed character class"
    | nothingToRepeat => "repetition operator missing expression"
    | badCount => "invalid repetition count"
    | badEscape => "unrecognized escape sequence"
    | badCodePoint => "invalid code point"
    | badFlags => "invalid flags"
    | badGroupName => "invalid capture group name"
    | repeatedGroupName => "duplicate capture group name"
    | lookAround => "look-around is not supported"
    | badRange => "invalid character class range"
    | notInClass => "not allowed in a character class"
    | unknownProperty => "Unicode property not found"
    | notText => "pattern can match invalid UTF-8"
    | tooDeep => "nesting is too deep"
    | tooLarge => "too large"

end CallAtlas
