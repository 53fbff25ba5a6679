import CodeInsight.Config.Settings
import CodeInsight.Engine.Fault
import CodeInsight.Files.Access

/-!
# Settings files

* a file that cannot be read and a text that gives no settings are different causes.
-/

namespace CodeInsight

/-- The settings that a file gives. -/
def Settings.ofFile (t : FileTree) (here : Place) (path : String) :
    Except EngineFault Settings :=
  match t.readText here path with
  | .error cause => .error (.settingsUnreadable path cause)
  | .ok s =>
    match Settings.ofToml? s with
    | some settings => .ok settings
    | none => .error .settingsInvalid

end CodeInsight
