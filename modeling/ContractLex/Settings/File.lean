import ContractLex.Files
import ContractLex.Settings.Record
import ContractLex.Text.Utf8

/-!
# Settings files

A settings file is a TOML document that is found by its path.
-/

namespace ContractLex.Settings

/-- The text of the file at a path, or why there is none. -/
def textOf (files : Files) (p : Path) : Except FileFault String :=
  match files.read p with
  | .error fault => .error fault
  | .ok contents =>
    match Text.ofBytes contents with
    | .ok text => .ok text
    | .error _ => .error .badText

def ofFile (base : Settings) (files : Files) (p : Path) : Except SettingsError Settings :=
  match textOf files p with
  | .error fault => .error (.unreadable p fault.message)
  | .ok text => ofToml base text p

end ContractLex.Settings
