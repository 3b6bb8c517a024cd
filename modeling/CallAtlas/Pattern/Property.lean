import CallAtlas.Text.Script
import CallAtlas.Text.Space
import CallAtlas.Text.Word
/-!
Properties of characters that patterns name: general categories and groups of them, scripts, and some
properties that a character has or has not. Names are read without regard to case, blanks, hyphens and
low lines.
-/
namespace CallAtlas.Pattern

open Text (Category)

inductive Property where
  | any
  | ascii
  | alphabetic
  | lowercase
  | uppercase
  | whiteSpace
  | unassigned
  | categories (ks : List Category)
  | script (s : Text.Script)
deriving Repr

namespace Property

def contains : Property → Char → Bool
  | any, _ => true
  | ascii, c => c.toNat < 128
  | alphabetic, c => Text.isAlphabetic c
  | lowercase, c => Text.isLowercase c
  | uppercase, c => Text.isUppercase c
  | whiteSpace, c => Text.isSpace c
  | unassigned, c => !Category.assigned.any (·.contains c)
  | categories ks, c => ks.any (·.contains c)
  | script s, c => s.ranges.contains c

/-- Names as they are compared. A leading `is` does not count, unless the name is `isc`. -/
def normalize (name : List Char) : String :=
  let lower := name.map Char.toLower
  let isPrefixed := lower.take 2 == ['i', 's']
  let body := if isPrefixed then lower.drop 2 else lower
  let kept := body.filter fun c => c.toNat < 128 && c != ' ' && c != '_' && c != '-'
  if isPrefixed && kept == ['c'] then "isc" else String.ofList kept

def categoryNames : List (List String × List Category) := [
  (["l", "letter"], Category.letters),
  (["lc", "casedletter"], [.uppercaseLetter, .lowercaseLetter, .titlecaseLetter]),
  (["lu", "uppercaseletter"], [.uppercaseLetter]),
  (["ll", "lowercaseletter"], [.lowercaseLetter]),
  (["lt", "titlecaseletter"], [.titlecaseLetter]),
  (["lm", "modifierletter"], [.modifierLetter]),
  (["lo", "otherletter"], [.otherLetter]),
  (["m", "mark", "combiningmark"], Category.marks),
  (["mn", "nonspacingmark"], [.nonspacingMark]),
  (["mc", "spacingmark"], [.spacingMark]),
  (["me", "enclosingmark"], [.enclosingMark]),
  (["n", "number"], Category.numbers),
  (["nd", "decimalnumber", "digit"], [.decimalNumber]),
  (["nl", "letternumber"], [.letterNumber]),
  (["no", "othernumber"], [.otherNumber]),
  (["p", "punctuation", "punct"], Category.punctuation),
  (["pc", "connectorpunctuation"], [.connectorPunctuation]),
  (["pd", "dashpunctuation"], [.dashPunctuation]),
  (["ps", "openpunctuation"], [.openPunctuation]),
  (["pe", "closepunctuation"], [.closePunctuation]),
  (["pi", "initialpunctuation"], [.initialPunctuation]),
  (["pf", "finalpunctuation"], [.finalPunctuation]),
  (["po", "otherpunctuation"], [.otherPunctuation]),
  (["s", "symbol"], Category.symbols),
  (["sm", "mathsymbol"], [.mathSymbol]),
  (["sc", "currencysymbol"], [.currencySymbol]),
  (["sk", "modifiersymbol"], [.modifierSymbol]),
  (["so", "othersymbol"], [.otherSymbol]),
  (["z", "separator"], Category.separators),
  (["zs", "spaceseparator"], [.spaceSeparator]),
  (["zl", "lineseparator"], [.lineSeparator]),
  (["zp", "paragraphseparator"], [.paragraphSeparator]),
  (["cc", "control", "cntrl"], [.control]),
  (["cf", "format"], [.format]),
  (["co", "privateuse"], [.privateUse])]

def ofCategory? (name : String) : Option Property :=
  if name == "any" then some any
  else if name == "ascii" then some ascii
  else if name == "assigned" then some (categories Category.assigned)
  else if name == "cn" || name == "unassigned" then some unassigned
  else (categoryNames.find? (·.1.contains name)).map fun entry => categories entry.2

def ofScript? (name : String) : Option Property := (Text.Script.find? name).map script

def ofName? (name : List Char) : Option Property :=
  let name := normalize name
  if name == "alphabetic" || name == "alpha" then some alphabetic
  else if name == "lowercase" || name == "lower" then some lowercase
  else if name == "uppercase" || name == "upper" then some uppercase
  else if name == "whitespace" || name == "wspace" || name == "space" then some whiteSpace
  else (ofCategory? name).or (ofScript? name)

def ofValue? (name value : List Char) : Option Property :=
  let name := normalize name
  let value := normalize value
  if name == "generalcategory" || name == "gc" then ofCategory? value
  else if name == "script" || name == "sc" then ofScript? value
  else none

end Property

end CallAtlas.Pattern
