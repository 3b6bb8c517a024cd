import CallAtlas.FileTree
import CallAtlas.Settings
/-!
Settings kept in a file. A file that cannot be used leaves every setting at its default.
-/
namespace CallAtlas

inductive SettingsError where
  | unreadable
  | notText
  /-- the text is no document, or its values are no settings -/
  | invalid
deriving DecidableEq, Repr

namespace Settings

def ofText (text : String) : Except SettingsError Settings :=
  match ofToml? text with
  | none => .error .invalid
  | some settings => .ok settings

def ofFile (files : FileTree) (path : String) : Except SettingsError Settings :=
  match files.read? path with
  | none => .error .unreadable
  | some contents =>
    match String.fromUTF8? contents with
    | none => .error .notText
    | some text => ofText text

def load (files : FileTree) (path : String) : Settings := (ofFile files path).toOption.getD {}

end Settings

end CallAtlas
