import CallAtlas.Pattern.Error
/-!
Patterns: texts that look for a match in a name. Which texts are patterns, and what they match, is left to an
engine; what is read and selected with patterns is the same for any engine.
-/
namespace CallAtlas

class PatternEngine where
  /-- what a text is compiled to -/
  Code : Type
  compile : String → Except PatternError Code
  isMatch : Code → String → Bool

/-- A text that compiles. Patterns of the same text are the same. -/
structure Pattern [PatternEngine] where
  text : String
  code : PatternEngine.Code
  compiles : PatternEngine.compile text = .ok code

namespace Pattern

variable [PatternEngine]

theorem ext_text {p q : Pattern} (h : p.text = q.text) : p = q := by
  obtain ⟨text, code, compiles⟩ := p
  obtain ⟨text', code', compiles'⟩ := q
  dsimp only at h
  subst h
  rw [compiles] at compiles'
  cases compiles'
  rfl

instance : DecidableEq Pattern := fun p q =>
  if h : p.text = q.text then .isTrue (ext_text h) else .isFalse fun eq => h (eq ▸ rfl)

def ofText (text : String) : Except PatternError Pattern :=
  match h : PatternEngine.compile text with
  | .error e => .error e
  | .ok code => .ok ⟨text, code, h⟩

/-- Whether a part of the name matches. -/
def isMatch (p : Pattern) (name : String) : Bool := PatternEngine.isMatch p.code name

end Pattern

end CallAtlas
